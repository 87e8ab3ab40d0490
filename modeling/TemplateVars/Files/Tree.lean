/-
Files, each under the names on the way to it.

* `FileTree.put` sets the content of a file, where a file may stand;
* `Trail.Fits` — whether one may.

Design notes: a name is none of those with another meaning on a path, and no file
stands on the way to another.  Both belong to the type, so a path to something that
is listed leads to it.
-/

namespace TemplateVars

/-- Whether a name may stand for a file or folder on a path. -/
structure IsName (name : String) : Prop where
  nonempty : name ≠ ""
  not_here : name ≠ "."
  not_up : name ≠ ".."
  no_slash : '/' ∉ name.toList

instance (name : String) : Decidable (IsName name) :=
  decidable_of_iff (name ≠ "" ∧ name ≠ "." ∧ name ≠ ".." ∧ '/' ∉ name.toList)
    ⟨fun h => ⟨h.1, h.2.1, h.2.2.1, h.2.2.2⟩, fun h => ⟨h.1, h.2, h.3, h.4⟩⟩

/-- The names on the way from the working directory to a file or folder. -/
abbrev Trail := List String

namespace Trail

/-- Whether one trail leads into the other. -/
def isBelow (outer inner : Trail) : Bool :=
  outer.isPrefixOf inner && outer.length < inner.length

theorem isBelow_iff {outer inner : Trail} :
    isBelow outer inner = true ↔ ∃ rest, rest ≠ [] ∧ inner = outer ++ rest := by
  simp only [isBelow, Bool.and_eq_true, List.isPrefixOf_iff_prefix, decide_eq_true_eq]
  constructor
  · rintro ⟨⟨rest, rfl⟩, hlength⟩
    rw [List.length_append] at hlength
    exact ⟨rest, List.length_pos_iff.1 (by omega), rfl⟩
  · rintro ⟨rest, hne, rfl⟩
    have hpos := List.length_pos_iff.2 hne
    rw [List.length_append]
    exact ⟨⟨rest, rfl⟩, by omega⟩

theorem prefix_of_isBelow_concat {outer inner : Trail} {name : String}
    (h : isBelow outer (inner ++ [name]) = true) : outer <+: inner := by
  obtain ⟨rest, hne, heq⟩ := isBelow_iff.1 h
  refine (List.prefix_concat_iff.1 ⟨rest, heq.symm⟩).resolve_left fun hall => hne ?_
  exact List.append_right_eq_self.1 (hall ▸ heq).symm

theorem isBelow_self (trail : Trail) : isBelow trail trail = false := by simp [isBelow]

/-- Whether a file may stand at a trail among other files: proper names lead there, and
neither stands on the way to the other. -/
structure Fits (trail : Trail) (files : List (Trail × String)) : Prop where
  nonempty : trail ≠ []
  names : ∀ name ∈ trail, IsName name
  apart : ∀ file ∈ files, isBelow file.1 trail = false ∧ isBelow trail file.1 = false

instance (trail : Trail) (files : List (Trail × String)) : Decidable (trail.Fits files) :=
  decidable_of_iff (trail ≠ [] ∧ (∀ name ∈ trail, IsName name) ∧
      ∀ file ∈ files, isBelow file.1 trail = false ∧ isBelow trail file.1 = false)
    ⟨fun h => ⟨h.1, h.2.1, h.2.2⟩, fun h => ⟨h.1, h.2, h.3⟩⟩

end Trail

/-- Files at different trails that fit together. -/
structure FileTree where
  toList : List (Trail × String)
  distinct : (toList.map (·.1)).Nodup
  fits : ∀ file ∈ toList, file.1.Fits toList
  deriving DecidableEq, Repr

namespace FileTree

variable {trail other : Trail} {content : String} {files : List (Trail × String)}

/-- Sets the content of the file at a trail. -/
def setContent (trail : Trail) (content : String) : List (Trail × String) → List (Trail × String)
  | [] => [(trail, content)]
  | file :: rest =>
    if file.1 = trail then (trail, content) :: rest else file :: setContent trail content rest

theorem mem_setContent {file : Trail × String} (h : file ∈ setContent trail content files) :
    file = (trail, content) ∨ file ∈ files := by
  induction files with
  | nil => exact .inl (List.mem_singleton.1 h)
  | cons first files ih =>
    rw [setContent] at h
    split at h
    · exact (List.mem_cons.1 h).imp_right (List.mem_cons_of_mem first)
    · obtain rfl | h := List.mem_cons.1 h
      · exact .inr List.mem_cons_self
      · exact (ih h).imp_right (List.mem_cons_of_mem first)

theorem distinct_setContent (h : (files.map (·.1)).Nodup) :
    ((setContent trail content files).map (·.1)).Nodup := by
  induction files with
  | nil => simp [setContent]
  | cons first files ih =>
    rw [List.map_cons, List.nodup_cons] at h
    rw [setContent]
    split
    · next heq =>
      rw [List.map_cons, List.nodup_cons, ← heq]
      exact h
    · next hne =>
      rw [List.map_cons, List.nodup_cons]
      refine ⟨fun hmem => ?_, ih h.2⟩
      obtain ⟨file, hfile, hsame⟩ := List.mem_map.1 hmem
      obtain rfl | hfile := mem_setContent hfile
      · exact hne hsame.symm
      · exact h.1 (hsame ▸ List.mem_map_of_mem hfile)

theorem fits_setContent (h : other.Fits files)
    (hapart : trail.isBelow other = false ∧ other.isBelow trail = false) :
    other.Fits (setContent trail content files) where
  nonempty := h.nonempty
  names := h.names
  apart file hfile := by
    obtain rfl | hfile := mem_setContent hfile
    · exact hapart
    · exact h.apart file hfile

def empty : FileTree where
  toList := []
  distinct := by
    rw [List.map_nil]
    exact List.nodup_nil
  fits file hfile := absurd hfile List.not_mem_nil

/-- Sets the content of a file; where no file may stand, nothing changes. -/
def put (t : FileTree) (trail : Trail) (content : String) : FileTree :=
  if h : trail.Fits t.toList then
    { toList := setContent trail content t.toList
      distinct := distinct_setContent t.distinct
      fits := fun file hfile => by
        obtain rfl | hfile := mem_setContent hfile
        · exact fits_setContent h ⟨trail.isBelow_self, trail.isBelow_self⟩
        · exact fits_setContent (t.fits file hfile) (h.apart file hfile).symm }
  else t

theorem toList_put {t : FileTree} (h : trail.Fits t.toList) :
    (t.put trail content).toList = setContent trail content t.toList := by
  rw [put, dif_pos h]

/-- The files of a list, put in one after the other. -/
def ofList (files : List (Trail × String)) : FileTree :=
  files.foldl (fun t file => t.put file.1 file.2) empty

instance : Coe (List (Trail × String)) FileTree := ⟨ofList⟩

end FileTree

end TemplateVars

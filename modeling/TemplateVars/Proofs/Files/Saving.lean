/-
A directory after a file has been written.

* `store` — a directory in which the content of one file has been set, and what it
  leaves as it was;
* `fits_of_place` — a file may stand wherever one can be created or overwritten;
* `Writes` — whether one directory comes from another by writing one file;
* `writes_save` — saving a file writes it, wherever it can be created.

Design notes: a path that leads to the file leads through folders only, by proper names
and past no file.  What is written is no folder, so these are still folders afterwards,
and the path still leads there.
-/
import Mathlib.Data.List.Nodup
import TemplateVars.Files.Directory

namespace TemplateVars

namespace FileTree

variable {trail other : Trail} {content : String}

theorem find?_setContent_self (files : List (Trail × String)) :
    (setContent trail content files).find? (·.1 == trail) = some (trail, content) := by
  induction files with
  | nil => simp [setContent]
  | cons file files ih =>
    rw [setContent]
    split
    · simp
    · next hne => rw [List.find?_cons_of_neg (by simpa using hne), ih]

theorem find?_setContent_of_ne (hne : other ≠ trail) (files : List (Trail × String)) :
    (setContent trail content files).find? (·.1 == other) = files.find? (·.1 == other) := by
  have htrail : (trail == other) = false := beq_eq_false_iff_ne.2 hne.symm
  induction files with
  | nil => simp [setContent, htrail]
  | cons file files ih =>
    rw [setContent]
    split
    · next heq => simp [heq, htrail]
    · rw [List.find?_cons, List.find?_cons, ih]

/-- Each file is still there. -/
theorem any_setContent {p : Trail → Bool} {files : List (Trail × String)}
    (h : files.any (p ·.1) = true) : (setContent trail content files).any (p ·.1) = true := by
  induction files with
  | nil => cases h
  | cons file files ih =>
    rw [List.any_cons, Bool.or_eq_true] at h
    rw [setContent]
    split
    · next heq =>
      rw [List.any_cons, Bool.or_eq_true, ← heq]
      exact h
    · rw [List.any_cons, Bool.or_eq_true]
      exact h.imp_right ih

end FileTree

namespace Directory

variable {d : Directory} {trail other : Trail} {content : String}

/-- The directory with the content of a file set. -/
def store (d : Directory) (trail : Trail) (content : String) : Directory :=
  { d with files := d.files.put trail content }

/-! ### Contents -/

theorem content?_eq_some : d.content? trail = some content ↔
    (trail, content) ∈ d.files.toList := by
  rw [content?, Option.map_eq_some_iff]
  constructor
  · rintro ⟨⟨there, _⟩, hfind, rfl⟩
    have hkey := List.find?_some hfind
    obtain rfl : there = trail := beq_iff_eq.1 hkey
    exact List.mem_of_find?_eq_some hfind
  · intro h
    cases hfind : d.files.toList.find? (·.1 == trail) with
    | none => exact absurd (List.find?_eq_none.1 hfind _ h) (by simp)
    | some file =>
      have hkey := List.find?_some hfind
      have hsame := List.inj_on_of_nodup_map d.files.distinct (List.mem_of_find?_eq_some hfind) h
        (beq_iff_eq.1 hkey)
      exact ⟨file, rfl, congrArg Prod.snd hsame⟩

section

variable (hfits : trail.Fits d.files.toList)
include hfits

theorem content?_store_self : (d.store trail content).content? trail = some content := by
  rw [content?, store, FileTree.toList_put hfits, FileTree.find?_setContent_self, Option.map_some]

theorem content?_store_of_ne (hne : other ≠ trail) :
    (d.store trail content).content? other = d.content? other := by
  rw [content?, store, FileTree.toList_put hfits, FileTree.find?_setContent_of_ne hne, content?]

theorem isFolder_store (h : d.isFolder other = true) :
    (d.store trail content).isFolder other = true := by
  simp only [isFolder, store, FileTree.toList_put hfits, Bool.or_eq_true] at h ⊢
  exact h.imp_right FileTree.any_setContent

end

/-! ### Paths -/

/-- Whether what a path leads to is written as the file of some trail. -/
def Target.Receives (trail : Trail) : Target → Prop
  | folder _ => False
  | file there _ => there = trail
  | absent (.inside outer) name => outer ++ [name] = trail
  | absent .outside _ => False

theorem place_eq_ok {path : String} : d.place path = .ok trail ↔
    isClosed path = false ∧ ∃ t, d.find false path = .ok t ∧ t.Receives trail := by
  rw [place]
  cases d.find false path with
  | error e => simp
  | ok t =>
    simp only [Except.ok.injEq, exists_eq_left']
    match t with
    | .folder f => simp [Target.Receives]
    | .file there content => cases isClosed path <;> simp [Target.Receives]
    | .absent (.inside outer) name => cases isClosed path <;> simp [Target.Receives]
    | .absent .outside name => simp [Target.Receives]

theorem save_eq {path : String} (h : d.place path = .ok trail) :
    d.save path content = d.store trail content := by
  rw [save, h, store]

section

variable {outer : Trail} {name : String}

theorem follow_file (hdot : name ≠ ".") (hdots : name ≠ "..")
    (hcontent : d.content? (outer ++ [name]) = some content) :
    d.follow (.inside outer) name = .file (outer ++ [name]) content := by
  simp [follow, hdot, hdots, hcontent]

theorem follow_folder (hdot : name ≠ ".") (hdots : name ≠ "..")
    (hcontent : d.content? (outer ++ [name]) = none)
    (hfolder : d.isFolder (outer ++ [name]) = true) :
    d.follow (.inside outer) name = .folder (.inside (outer ++ [name])) := by
  simp [follow, hdot, hdots, hcontent, hfolder]

/-- A name that is neither `.` nor `..` leads to what stands under it. -/
theorem follow_inside (d : Directory) (outer : Trail) (hdot : name ≠ ".") (hdots : name ≠ "..") :
    (∃ old, d.content? (outer ++ [name]) = some old ∧
        d.follow (.inside outer) name = .file (outer ++ [name]) old) ∨
      (d.content? (outer ++ [name]) = none ∧ d.isFolder (outer ++ [name]) = true ∧
        d.follow (.inside outer) name = .folder (.inside (outer ++ [name]))) ∨
      d.content? (outer ++ [name]) = none ∧ d.isFolder (outer ++ [name]) = false ∧
        d.follow (.inside outer) name = .absent (.inside outer) name := by
  cases hcontent : d.content? (outer ++ [name]) with
  | some old => exact .inl ⟨old, rfl, follow_file hdot hdots hcontent⟩
  | none =>
    cases hfolder : d.isFolder (outer ++ [name]) with
    | true => exact .inr (.inl ⟨rfl, rfl, follow_folder hdot hdots hcontent hfolder⟩)
    | false => exact .inr (.inr ⟨rfl, rfl, by simp [follow, hdot, hdots, hcontent, hfolder]⟩)

end

/-- `.` and `..` lead to a folder, the same in any directory.  Another name leads to nothing
from outside, and from inside to what stands under it (`follow_inside`). -/
theorem follow_cases (d : Directory) (f : Folder) (name : String) :
    (∃ g, (g = f ∨ g = .outside ∨ ∃ outer, f = .inside outer ∧ g = .inside outer.dropLast) ∧
        ∀ e : Directory, e.follow f name = .folder g) ∨
      d.follow f name = .absent .outside name ∨
      ∃ outer, f = .inside outer ∧ name ≠ "." ∧ name ≠ ".." := by
  by_cases hdot : name = "."
  · exact .inl ⟨f, .inl rfl, fun e => by simp [follow, hdot]⟩
  by_cases hdots : name = ".."
  · refine .inl ?_
    cases f with
    | outside => exact ⟨.outside, .inl rfl, fun e => by simp [follow, hdots]⟩
    | inside outer =>
      by_cases hempty : outer = []
      · exact ⟨.outside, .inr (.inl rfl), fun e => by simp [follow, hdots, hempty]⟩
      · refine ⟨.inside outer.dropLast, .inr (.inr ⟨outer, rfl, rfl⟩), fun e => ?_⟩
        simp [follow, hdots, hempty]
  cases f with
  | outside => exact .inr (.inl (by simp [follow, hdot, hdots]))
  | inside outer => exact .inr (.inr ⟨outer, rfl, hdot, hdots⟩)

/-- A name leads to a folder if it is `.` or `..`, in any directory, or if it is that of a
folder. -/
theorem follow_eq_folder {f g : Folder} {name : String} (h : d.follow f name = .folder g) :
    ((g = f ∨ g = .outside ∨ ∃ outer, f = .inside outer ∧ g = .inside outer.dropLast) ∧
        ∀ e : Directory, e.follow f name = .folder g) ∨
      ∃ outer, f = .inside outer ∧ name ≠ "." ∧ name ≠ ".." ∧ g = .inside (outer ++ [name]) ∧
        d.content? (outer ++ [name]) = none ∧ d.isFolder (outer ++ [name]) = true := by
  obtain ⟨there, hthere, hsame⟩ | hout | ⟨outer, rfl, hdot, hdots⟩ := d.follow_cases f name
  · cases (hsame d).symm.trans h
    exact .inl ⟨hthere, hsame⟩
  · cases hout.symm.trans h
  · refine .inr ⟨outer, rfl, hdot, hdots, ?_⟩
    obtain ⟨old, -, hfollow⟩ | ⟨hcontent, hfolder, hfollow⟩ | ⟨-, -, hfollow⟩ :=
      d.follow_inside outer hdot hdots
    · cases hfollow.symm.trans h
    · cases hfollow.symm.trans h
      exact ⟨rfl, hcontent, hfolder⟩
    · cases hfollow.symm.trans h

/-- Where a name leads that is written as a file, no folder stands. -/
theorem receives_follow {f : Folder} {name : String} (h : (d.follow f name).Receives trail) :
    ∃ outer, f = .inside outer ∧ name ≠ "." ∧ name ≠ ".." ∧ outer ++ [name] = trail ∧
      (d.content? trail = none → d.isFolder trail = false) := by
  obtain ⟨there, -, hsame⟩ | hout | ⟨outer, rfl, hdot, hdots⟩ := d.follow_cases f name
  · rw [hsame d] at h
    exact h.elim
  · rw [hout] at h
    exact h.elim
  · refine ⟨outer, rfl, hdot, hdots, ?_⟩
    obtain ⟨old, hcontent, hfollow⟩ | ⟨-, -, hfollow⟩ | ⟨-, hfolder, hfollow⟩ :=
      d.follow_inside outer hdot hdots
    · rw [hfollow] at h
      obtain rfl : outer ++ [name] = trail := h
      refine ⟨rfl, fun hnone => ?_⟩
      cases hcontent.symm.trans hnone
    · rw [hfollow] at h
      exact h.elim
    · rw [hfollow] at h
      obtain rfl : outer ++ [name] = trail := h
      exact ⟨rfl, fun _ => hfolder⟩

theorem walk_cons_ok {closed : Bool} {f : Folder} {name : String} {rest : List String} {t : Target}
    (h : d.walk closed f (name :: rest) = .ok t) :
    (∃ g, d.follow f name = .folder g ∧ d.walk closed g rest = .ok t) ∨
      rest = [] ∧ d.follow f name = t := by
  rw [walk] at h
  cases hfollow : d.follow f name with
  | folder g =>
    rw [hfollow] at h
    exact .inl ⟨g, rfl, h⟩
  | file there content =>
    rw [hfollow] at h
    simp only at h
    split at h
    · next hrest => exact .inr ⟨hrest.1, Except.ok.inj h⟩
    · cases h
  | absent g name =>
    rw [hfollow] at h
    simp only at h
    split at h
    · next hrest => exact .inr ⟨hrest, Except.ok.inj h⟩
    · cases h

/-! ### Places for files -/

theorem segments_no_slash (s : List Char) : ∀ part ∈ segments s, '/' ∉ part := by
  induction s with
  | nil => exact List.forall_mem_singleton.2 List.not_mem_nil
  | cons c s ih =>
    rw [segments]
    split
    · exact List.forall_mem_cons.2 ⟨List.not_mem_nil, ih⟩
    · next hc =>
      split
      · exact List.forall_mem_singleton.2 (by simpa using Ne.symm hc)
      · next first more hsegments =>
        rw [hsegments, List.forall_mem_cons] at ih
        refine List.forall_mem_cons.2 ⟨fun hmem => ?_, ih.2⟩
        exact (List.mem_cons.1 hmem).elim (fun heq => hc heq.symm) ih.1

theorem ne_empty_of_mem_names {path name : String} (h : name ∈ names path) :
    name ≠ "" ∧ '/' ∉ name.toList := by
  obtain ⟨part, hpart, rfl⟩ := List.mem_map.1 h
  obtain ⟨hsegment, hne⟩ := List.mem_filter.1 hpart
  rw [Ne, String.ofList_eq_empty_iff, String.toList_ofList]
  exact ⟨bne_iff_ne.1 hne, segments_no_slash _ part hsegment⟩

/-- Whether proper names lead to a folder, past no file. -/
def Folder.IsClear (d : Directory) : Folder → Prop
  | inside trail => (∀ name ∈ trail, IsName name) ∧ ∀ file ∈ d.files.toList, ¬file.1 <+: trail
  | outside => True

theorem isClear_start (d : Directory) : (Folder.inside []).IsClear d := by
  refine ⟨List.forall_mem_nil IsName, fun file hfile hfront => ?_⟩
  exact (d.files.fits file hfile).nonempty (List.prefix_nil.1 hfront)

theorem isClear_dropLast {outer : Trail} (h : (Folder.inside outer).IsClear d) :
    (Folder.inside outer.dropLast).IsClear d := by
  refine ⟨fun name hname => h.1 name (List.dropLast_subset outer hname), ?_⟩
  exact fun file hfile hfront =>
    h.2 file hfile (List.IsPrefix.trans hfront (List.dropLast_prefix outer))

section

variable {f g : Folder} {name : String} (hname : name ≠ "" ∧ '/' ∉ name.toList)
include hname

theorem isName_concat {outer : Trail} (h : (Folder.inside outer).IsClear d) (hdot : name ≠ ".")
    (hdots : name ≠ "..") : ∀ other ∈ outer ++ [name], IsName other := by
  rw [List.forall_mem_append, List.forall_mem_singleton]
  exact ⟨h.1, hname.1, hdot, hdots, hname.2⟩

theorem isClear_follow (hf : f.IsClear d) (h : d.follow f name = .folder g) : g.IsClear d := by
  obtain ⟨hg, -⟩ | ⟨outer, rfl, hdot, hdots, rfl, hcontent, -⟩ := follow_eq_folder h
  · obtain rfl | rfl | ⟨outer, rfl, rfl⟩ := hg
    · exact hf
    · trivial
    · exact isClear_dropLast hf
  · refine ⟨isName_concat hname hf hdot hdots, fun file hfile hfront => ?_⟩
    obtain ⟨there, content⟩ := file
    obtain rfl | hfront := List.prefix_concat_iff.1 hfront
    · cases hcontent.symm.trans (content?_eq_some.2 hfile)
    · exact hf.2 _ hfile hfront

/-- Where a name leads that is written as a file, a file may stand. -/
theorem fits_of_follow (hf : f.IsClear d) (h : (d.follow f name).Receives trail) :
    trail.Fits d.files.toList := by
  obtain ⟨outer, rfl, hdot, hdots, rfl, hfree⟩ := receives_follow h
  cases hcontent : d.content? (outer ++ [name]) with
  | some old => exact d.files.fits _ (content?_eq_some.1 hcontent)
  | none =>
    have hbelow := hfree hcontent
    simp only [isFolder, Bool.or_eq_false_iff, List.any_eq_false, Bool.not_eq_true] at hbelow
    refine ⟨by simp, isName_concat hname hf hdot hdots, fun file hfile => ⟨?_, hbelow.2 file hfile⟩⟩
    exact Bool.eq_false_iff.2 fun habove =>
      hf.2 file hfile (Trail.prefix_of_isBelow_concat habove)

end

theorem fits_of_walk {closed : Bool} {way : List String} {f : Folder} {t : Target}
    (hway : ∀ name ∈ way, name ≠ "" ∧ '/' ∉ name.toList) (hf : f.IsClear d)
    (h : d.walk closed f way = .ok t) (ht : t.Receives trail) : trail.Fits d.files.toList := by
  induction way generalizing f with
  | nil =>
    cases h
    exact ht.elim
  | cons name way ih =>
    obtain ⟨hname, hrest⟩ := List.forall_mem_cons.1 hway
    obtain ⟨g, hfollow, hwalk⟩ | ⟨-, rfl⟩ := walk_cons_ok h
    · exact ih hrest (isClear_follow hname hf hfollow) hwalk
    · exact fits_of_follow hname hf ht

/-- A file may stand wherever one can be created or overwritten. -/
theorem fits_of_place {path : String} (h : d.place path = .ok trail) :
    trail.Fits d.files.toList := by
  obtain ⟨-, t, hfind, ht⟩ := place_eq_ok.1 h
  rw [find] at hfind
  split at hfind
  · cases hfind
  · refine fits_of_walk (fun name => ne_empty_of_mem_names) ?_ hfind ht
    split
    · trivial
    · exact isClear_start d

/-! ### Paths afterwards -/

section

variable (hfits : trail.Fits d.files.toList)
include hfits

/-- What is written where a name leads is found there. -/
theorem follow_of_receives {f : Folder} {name : String} (h : (d.follow f name).Receives trail)
    (content : String) : (d.store trail content).follow f name = .file trail content := by
  obtain ⟨outer, rfl, hdot, hdots, rfl, -⟩ := receives_follow h
  exact follow_file hdot hdots (content?_store_self hfits)

/-- A name that leads to a folder still leads there. -/
theorem follow_of_folder {f g : Folder} {name : String}
    (hfree : d.content? trail = none → d.isFolder trail = false)
    (h : d.follow f name = .folder g) : (d.store trail content).follow f name = .folder g := by
  obtain ⟨-, hsame⟩ | ⟨outer, rfl, hdot, hdots, rfl, hcontent, hfolder⟩ := follow_eq_folder h
  · exact hsame _
  · have hne : outer ++ [name] ≠ trail := by
      rintro rfl
      cases hfolder.symm.trans (hfree hcontent)
    exact follow_folder hdot hdots ((content?_store_of_ne hfits hne).trans hcontent)
      (isFolder_store hfits hfolder)

/-- A way to a trail leads to what is written there, and no folder stands there. -/
theorem walk_of_receives {way : List String} {f : Folder} {t : Target}
    (h : d.walk false f way = .ok t) (ht : t.Receives trail) :
    (d.content? trail = none → d.isFolder trail = false) ∧
      (d.store trail content).walk false f way = .ok (.file trail content) := by
  induction way generalizing f with
  | nil =>
    cases h
    exact ht.elim
  | cons name way ih =>
    obtain ⟨g, hfollow, hwalk⟩ | ⟨rfl, rfl⟩ := walk_cons_ok h
    · obtain ⟨hfree, hstored⟩ := ih hwalk
      refine ⟨hfree, ?_⟩
      rw [walk, follow_of_folder hfits hfree hfollow]
      exact hstored
    · obtain ⟨-, -, -, -, -, hfree⟩ := receives_follow ht
      refine ⟨hfree, ?_⟩
      rw [walk, follow_of_receives hfits ht content]
      rfl

end

/-- What has been written at a path is read there. -/
theorem read_save {path : String} (h : d.place path = .ok trail) :
    (d.save path content).read path = .ok content := by
  obtain ⟨hopen, t, hfind, ht⟩ := place_eq_ok.1 h
  have hsaved : (d.save path content).find false path = .ok (.file trail content) := by
    rw [save_eq h]
    unfold find at hfind ⊢
    split at hfind
    · cases hfind
    · next hne =>
      rw [if_neg hne]
      exact (walk_of_receives (fits_of_place h) hfind ht).2
  rw [read, hopen, hsaved]

/-! ### Written files -/

/-- Whether a directory comes from another by writing a file of some content, and is
otherwise the same. -/
structure Writes (d : Directory) (path content : String) (after : Directory) : Prop where
  read : after.read path = .ok content
  /-- There is one file that the path leads to. -/
  files : ∃ trail, d.place path = .ok trail ∧
    ∀ other, after.content? other = if other = trail then some content else d.content? other
  folders : after.folders = d.folders

theorem writes_save {path : String} (h : d.refusal? path = none) (content : String) :
    d.Writes path content (d.save path content) := by
  rw [refusal?] at h
  cases hplace : d.place path with
  | error e =>
    rw [hplace] at h
    cases h
  | ok trail =>
    refine ⟨read_save hplace, ⟨trail, hplace, fun other => ?_⟩, ?_⟩
    · rw [save_eq hplace]
      split
      · next heq => rw [heq, content?_store_self (fits_of_place hplace)]
      · next hne => rw [content?_store_of_ne (fits_of_place hplace) hne]
    · rw [save_eq hplace, store]

end Directory

end TemplateVars

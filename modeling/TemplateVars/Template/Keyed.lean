/-
Values under keys, listed in code point order of the keys.

* `Keyed.toList_mapM?` — turning the values into others turns one after the other;
* `Keyed.toList_ofList` — a list in order is left as it is;
* `Keyed.ofList_of_perm` — without duplicates, the order of a list does not matter.

Design notes: the order belongs to the type, as that of a set of names does.  Keys
that strictly ascend have no duplicates either, so there is one way to list them.
-/
import TemplateVars.Analysis.NameSet

namespace TemplateVars

/-- Values under keys. -/
structure Keyed (α : Type) where
  toList : List (String × α)
  ascending : (toList.map (·.1)).Pairwise (· < ·)
  deriving DecidableEq, Repr

namespace Keyed

variable {α β : Type}

/-- Puts a value at its key's place in an ascending list, over another value of
that key. -/
def insertSorted (key : String) (value : α) : List (String × α) → List (String × α)
  | [] => [(key, value)]
  | (k, v) :: rest =>
    if key < k then (key, value) :: (k, v) :: rest
    else if key = k then (key, value) :: rest
    else (k, v) :: insertSorted key value rest

theorem keys_insertSorted (key : String) (value : α) (members : List (String × α)) :
    (insertSorted key value members).map (·.1) =
      NameSet.insertSorted key (members.map (·.1)) := by
  induction members with
  | nil => rfl
  | cons m members ih =>
    unfold insertSorted
    rw [List.map_cons, NameSet.insertSorted]
    split
    · rfl
    · split
      · next h => exact congrArg (· :: _) h
      · exact congrArg (m.1 :: ·) ih

def empty : Keyed α where
  toList := []
  ascending := by
    rw [List.map_nil]
    exact List.Pairwise.nil

def insert (k : Keyed α) (key : String) (value : α) : Keyed α where
  toList := insertSorted key value k.toList
  ascending := by
    rw [keys_insertSorted]
    exact NameSet.ascending_insertSorted k.ascending

/-- The values of a list, of each key the last. -/
def ofList (members : List (String × α)) : Keyed α :=
  members.foldl (fun k member => k.insert member.1 member.2) empty

def size (k : Keyed α) : Nat := k.toList.length

/-- Turns a value into another and leaves it under its key. -/
def mapMember? (f : α → Option β) (member : String × α) : Option (String × β) :=
  (f member.2).map (member.1, ·)

theorem keys_mapMember? {f : α → Option β} {members : List (String × α)}
    {others : List (String × β)} (h : members.mapM (mapMember? f) = some others) :
    others.map (·.1) = members.map (·.1) := by
  induction members generalizing others with
  | nil =>
    cases h
    rfl
  | cons member members ih =>
    rw [List.mapM_cons] at h
    obtain ⟨other, hother, h⟩ := Option.bind_eq_some_iff.1 h
    obtain ⟨rest, hrest, h⟩ := Option.bind_eq_some_iff.1 h
    obtain ⟨value, -, rfl⟩ := Option.map_eq_some_iff.1 hother
    cases h
    rw [List.map_cons, List.map_cons, ih hrest]

/-- Turns each value into another, if that can be done. -/
def mapM? (f : α → Option β) (k : Keyed α) : Option (Keyed β) :=
  match h : k.toList.mapM (mapMember? f) with
  | some others => some ⟨others, keys_mapMember? h ▸ k.ascending⟩
  | none => none

theorem toList_mapM? (f : α → Option β) (k : Keyed α) :
    (k.mapM? f).map toList = k.toList.mapM (mapMember? f) := by
  unfold mapM?
  split
  · next h => exact h.symm
  · next h => exact h.symm

theorem toList_injective {k l : Keyed α} (h : k.toList = l.toList) : k = l := by
  obtain ⟨members, hmembers⟩ := k
  obtain rfl : members = l.toList := h
  rfl

/-! ### Lists in order -/

theorem insertSorted_last {key : String} {value : α} {members : List (String × α)}
    (h : ∀ m ∈ members, m.1 < key) :
    insertSorted key value members = members ++ [(key, value)] := by
  induction members with
  | nil => rfl
  | cons m members ih =>
    obtain ⟨hm, hmembers⟩ := List.forall_mem_cons.1 h
    have hlt : ¬key < m.1 := String.lt_asymm hm
    have hne : key ≠ m.1 := fun heq => String.lt_irrefl key (by rwa [← heq] at hm)
    rw [insertSorted, if_neg hlt, if_neg hne, ih hmembers]
    rfl

theorem toList_foldl_insert {members : List (String × α)} (k : Keyed α)
    (h : ((k.toList ++ members).map (·.1)).Pairwise (· < ·)) :
    (members.foldl (fun k m => k.insert m.1 m.2) k).toList = k.toList ++ members := by
  induction members generalizing k with
  | nil => exact (List.append_nil _).symm
  | cons m members ih =>
    have hlast : ∀ other ∈ k.toList, other.1 < m.1 := by
      rw [List.map_append, List.pairwise_append] at h
      exact fun other hother => h.2.2 _ (List.mem_map_of_mem hother) _ List.mem_cons_self
    have hinsert : (k.insert m.1 m.2).toList = k.toList ++ [m] := insertSorted_last hlast
    rw [List.foldl_cons, ih _ (by rw [hinsert]; simpa using h), hinsert, List.append_assoc]
    rfl

/-- Members that are in order are left as they are. -/
theorem toList_ofList {members : List (String × α)} (h : (members.map (·.1)).Pairwise (· < ·)) :
    (ofList members).toList = members :=
  toList_foldl_insert empty h

/-! ### Lists in any order -/

theorem insertSorted_perm {key : String} {value : α} {members : List (String × α)}
    (h : key ∉ members.map (·.1)) :
    (insertSorted key value members).Perm ((key, value) :: members) := by
  induction members with
  | nil => exact .refl _
  | cons m members ih =>
    rw [List.map_cons, List.mem_cons, not_or] at h
    unfold insertSorted
    split
    · exact .refl _
    · rw [if_neg h.1]
      exact ((ih h.2).cons m).trans (.swap _ _ _)

theorem foldl_insert_perm {members : List (String × α)} (k : Keyed α)
    (h : ((members ++ k.toList).map (·.1)).Nodup) :
    (members.foldl (fun k m => k.insert m.1 m.2) k).toList.Perm (members ++ k.toList) := by
  induction members generalizing k with
  | nil => exact .refl _
  | cons m members ih =>
    rw [List.cons_append, List.map_cons, List.nodup_cons, List.map_append, List.mem_append,
      not_or, ← List.map_append] at h
    have hinsert : (members ++ (k.insert m.1 m.2).toList).Perm (m :: (members ++ k.toList)) :=
      ((insertSorted_perm h.1.2).append_left members).trans List.perm_middle
    refine (ih _ ?_).trans hinsert
    refine (hinsert.map _).nodup_iff.2 (List.nodup_cons.2 ⟨?_, h.2⟩)
    rw [List.map_append, List.mem_append, not_or]
    exact h.1

/-- Without duplicates, no member is lost. -/
theorem ofList_perm {members : List (String × α)} (h : (members.map (·.1)).Nodup) :
    (ofList members).toList.Perm members := by
  have hempty : members ++ (empty : Keyed α).toList = members := List.append_nil _
  exact (foldl_insert_perm empty (by rwa [hempty])).trans (.of_eq hempty)

/-- The order in which members are written does not matter. -/
theorem ofList_of_perm {ms ns : List (String × α)} (h : ms.Perm ns)
    (hms : (ms.map (·.1)).Nodup) : ofList ns = ofList ms := by
  have hns : (ns.map (·.1)).Nodup := (h.map _).nodup hms
  refine toList_injective (List.Perm.eq_of_pairwise (fun m n _ _ hmn hnm => ?_)
    (List.pairwise_map.1 (ofList ns).ascending) (List.pairwise_map.1 (ofList ms).ascending)
    ((ofList_perm hns).trans (h.symm.trans (ofList_perm hms).symm)))
  exact absurd hmn (String.lt_asymm hnm)

end Keyed

end TemplateVars

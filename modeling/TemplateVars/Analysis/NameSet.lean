/-
Sets of names, listed in code point order.

* `mem_insert`, `mem_union` — membership after an insertion and in a union;
* `ext` — a set is determined by its members.

Design notes: the order belongs to the type.  A strictly ascending list has no
duplicates either, so the list of a set is the one way to write it down.
-/

namespace TemplateVars

/-- A finite set of names. -/
structure NameSet where
  toList : List String
  ascending : toList.Pairwise (· < ·)

namespace NameSet

/-- Puts a name at its place in an ascending list, unless it is there. -/
def insertSorted (name : String) : List String → List String
  | [] => [name]
  | x :: xs =>
    if name < x then name :: x :: xs
    else if name = x then x :: xs
    else x :: insertSorted name xs

theorem mem_insertSorted {name x : String} {xs : List String} :
    x ∈ insertSorted name xs ↔ x = name ∨ x ∈ xs := by
  induction xs with
  | nil => simp [insertSorted]
  | cons y ys ih =>
    unfold insertSorted
    split
    · simp
    · split
      · next h => subst h; simp
      · simp only [List.mem_cons, ih]
        constructor
        · rintro (h | h | h)
          · exact Or.inr (Or.inl h)
          · exact Or.inl h
          · exact Or.inr (Or.inr h)
        · rintro (h | h | h)
          · exact Or.inr (Or.inl h)
          · exact Or.inl h
          · exact Or.inr (Or.inr h)

theorem lt_of_not_lt_of_ne {a b : String} (h : ¬a < b) (hne : a ≠ b) : b < a := by
  refine String.not_le.1 fun hle => hne ?_
  exact String.le_antisymm hle (String.not_lt.1 h)

theorem ascending_insertSorted {name : String} {xs : List String}
    (h : xs.Pairwise (· < ·)) : (insertSorted name xs).Pairwise (· < ·) := by
  induction xs with
  | nil => simp [insertSorted]
  | cons y ys ih =>
    obtain ⟨hy, hys⟩ := List.pairwise_cons.1 h
    unfold insertSorted
    split
    · next hlt =>
      refine List.pairwise_cons.2 ⟨fun z hz => ?_, h⟩
      rcases List.mem_cons.1 hz with rfl | hz
      · exact hlt
      · exact String.lt_trans hlt (hy z hz)
    · next hlt =>
      split
      · exact h
      · next hne =>
        refine List.pairwise_cons.2 ⟨fun z hz => ?_, ih hys⟩
        rcases mem_insertSorted.1 hz with rfl | hz
        · exact lt_of_not_lt_of_ne hlt hne
        · exact hy z hz

def empty : NameSet := ⟨[], List.Pairwise.nil⟩

instance : EmptyCollection NameSet := ⟨empty⟩

instance : Membership String NameSet := ⟨fun s name => name ∈ s.toList⟩

instance (name : String) (s : NameSet) : Decidable (name ∈ s) :=
  inferInstanceAs (Decidable (name ∈ s.toList))

def insert (s : NameSet) (name : String) : NameSet :=
  ⟨insertSorted name s.toList, ascending_insertSorted s.ascending⟩

/-- The set of the names in a list. -/
def ofList (names : List String) : NameSet := names.foldl insert empty

def union (s t : NameSet) : NameSet := t.toList.foldl insert s

def size (s : NameSet) : Nat := s.toList.length

theorem not_mem_empty (x : String) : x ∉ (∅ : NameSet) := fun h => nomatch h

theorem mem_insert {s : NameSet} {name x : String} : x ∈ s.insert name ↔ x = name ∨ x ∈ s :=
  mem_insertSorted

theorem mem_foldl_insert {names : List String} {s : NameSet} {x : String} :
    x ∈ names.foldl insert s ↔ x ∈ s ∨ x ∈ names := by
  induction names generalizing s with
  | nil => simp
  | cons name names ih =>
    rw [List.foldl_cons, ih, mem_insert, List.mem_cons]
    constructor
    · rintro ((h | h) | h)
      · exact Or.inr (Or.inl h)
      · exact Or.inl h
      · exact Or.inr (Or.inr h)
    · rintro (h | h | h)
      · exact Or.inl (Or.inr h)
      · exact Or.inl (Or.inl h)
      · exact Or.inr h

theorem mem_union {s t : NameSet} {x : String} : x ∈ s.union t ↔ x ∈ s ∨ x ∈ t :=
  mem_foldl_insert

theorem mem_ofList {names : List String} {x : String} : x ∈ ofList names ↔ x ∈ names := by
  refine mem_foldl_insert.trans ?_
  exact ⟨fun h => h.resolve_left (not_mem_empty x), Or.inr⟩

/-- Two ascending lists of the same names are equal. -/
theorem eq_of_mem_iff : ∀ {xs ys : List String}, xs.Pairwise (· < ·) → ys.Pairwise (· < ·) →
    (∀ x, x ∈ xs ↔ x ∈ ys) → xs = ys
  | [], [], _, _, _ => rfl
  | [], y :: _, _, _, h => nomatch (h y).2 (List.mem_cons_self ..)
  | x :: _, [], _, _, h => nomatch (h x).1 (List.mem_cons_self ..)
  | x :: xs, y :: ys, hxs, hys, h => by
    obtain ⟨hx, hxs'⟩ := List.pairwise_cons.1 hxs
    obtain ⟨hy, hys'⟩ := List.pairwise_cons.1 hys
    have hxy : x = y := by
      rcases List.mem_cons.1 ((h x).1 (List.mem_cons_self ..)) with h1 | h1
      · exact h1
      · rcases List.mem_cons.1 ((h y).2 (List.mem_cons_self ..)) with h2 | h2
        · exact h2.symm
        · exact absurd (hx y h2) (String.lt_asymm (hy x h1))
    subst hxy
    refine congrArg (x :: ·) (eq_of_mem_iff hxs' hys' fun z => ⟨fun hz => ?_, fun hz => ?_⟩)
    · rcases List.mem_cons.1 ((h z).1 (List.mem_cons_of_mem _ hz)) with h1 | h1
      · exact absurd (h1 ▸ hx z hz) (String.lt_irrefl x)
      · exact h1
    · rcases List.mem_cons.1 ((h z).2 (List.mem_cons_of_mem _ hz)) with h1 | h1
      · exact absurd (h1 ▸ hy z hz) (String.lt_irrefl x)
      · exact h1

theorem ext {s t : NameSet} (h : ∀ x, x ∈ s ↔ x ∈ t) : s = t := by
  obtain ⟨xs, hxs⟩ := s
  obtain ⟨ys, hys⟩ := t
  obtain rfl : xs = ys := eq_of_mem_iff hxs hys h
  rfl

end NameSet

end TemplateVars

/-
The nodes of a tree in the order in which the walk comes to them.

* `visits` — the walk once more, noting each node that comes off the stack with its place;
* `walk_eq_visits` — what the walk meets, it meets at these nodes and in their order;
* `visits_task` — a task on top of the stack is followed by all nodes below it, as in the
  recursion `Task.nodes`, and then by the rest of the stack;
* `mem_nodes` and `ascending_nodes` — the recursion comes to every node of the tree, in the
  order of their addresses, so to each of them once;
* `visit_in_order` — all this of a collector that visits a tree.

Design notes: the same expression may stand at several places in a tree, so nodes are told
apart by their addresses, which list the part to take at each step from the root.  The parts
of a node are in source order, and so the addresses are in lexicographic order.
-/
import TemplateVars.Analysis.Collector
import TemplateVars.Proofs.Analysis.Order

namespace TemplateVars

/-- Where a node stands in a tree: at each step from the root, which of the parts to take. -/
abbrev Address := List Nat

/-- A node that the walk comes to, with the scopes in force there. -/
structure Visit where
  address : Address
  node : Task
  scopes : Scopes

/-- What the walk meets at a node itself. -/
def Visit.met (v : Visit) : List Event :=
  match v.node with
  | .expr e => (e.enter v.scopes).1
  | _ => []

/-- Tasks with their places below a node. -/
def placed (address : Address) (ts : List Task) : List (Address × Task) :=
  ts.zipIdx.map fun (t, i) => (address ++ [i], t)

@[simp] theorem placed_tasks (address : Address) (ts : List Task) :
    (placed address ts).map (·.2) = ts := by
  simp [placed, Function.comp_def]

theorem mem_placed {address : Address} {ts : List Task} {p : Address × Task} :
    p ∈ placed address ts ↔ ∃ i, p.1 = address ++ [i] ∧ ts[i]? = some p.2 := by
  simp only [placed, List.mem_map, Prod.exists, List.mk_mem_zipIdx_iff_getElem?]
  constructor
  · rintro ⟨t, i, ht, rfl⟩
    exact ⟨i, rfl, ht⟩
  · rintro ⟨i, hi, ht⟩
    exact ⟨p.2, i, ht, by rw [← hi]⟩

/-- Works off a stack of tasks with their places: the nodes that come off it, in order. -/
def visits : List (Address × Task) → Scopes → List Visit
  | [], _ => []
  | (_, .leave) :: rest, scopes => visits rest scopes.tail
  | (a, .key k) :: rest, scopes =>
    ⟨a, .key k, scopes⟩ :: visits (placed a k.parts ++ rest) scopes
  | (a, .pattern p) :: rest, scopes =>
    ⟨a, .pattern p, scopes⟩ :: visits (placed a p.parts ++ rest) scopes
  | (a, .expr e) :: rest, scopes =>
    ⟨a, .expr e, scopes⟩ :: visits (placed a (e.enter scopes).2.1 ++ rest) (e.enter scopes).2.2
termination_by stack => Task.sizeAll (stack.map (·.2))
decreasing_by
  · simp [Task.size]
  · have := Task.sizeAll_keyParts k
    simp [Task.size]; omega
  · have := Task.sizeAll_patternParts p
    simp [Task.size]; omega
  · have := e.sizeAll_enter scopes
    simp [Task.size]; omega

/-- What the walk meets, it meets at the nodes that come off the stack. -/
theorem walk_eq_visits (stack : List (Address × Task)) (scopes : Scopes) :
    (walk (stack.map (·.2)) scopes).1 = (visits stack scopes).flatMap Visit.met := by
  fun_induction visits stack scopes with
  | case1 scopes => rw [List.map_nil, walk, List.flatMap_nil]
  | case2 a rest scopes ih => rw [List.map_cons, walk, ih]
  | case3 a k rest scopes ih =>
    rw [List.map_append, placed_tasks] at ih
    rw [List.map_cons, walk, ih, List.flatMap_cons]
    rfl
  | case4 a p rest scopes ih =>
    rw [List.map_append, placed_tasks] at ih
    rw [List.map_cons, walk, ih, List.flatMap_cons]
    rfl
  | case5 a e rest scopes ih =>
    rw [List.map_append, placed_tasks] at ih
    rw [List.map_cons, walk, List.flatMap_cons, ← ih]
    rfl

/-! ### The recursion over the nodes -/

namespace Task

/-- The scopes in force at the parts of a node: a function whose body is walked binds its
parameters for all of them. -/
def inside (scopes : Scopes) : Task → Scopes
  | expr (.function _ _ _ params (.expression _)) => params.flatMap Pattern.boundNames :: scopes
  | _ => scopes

theorem size_lt_of_mem_inner {t u : Task} (h : u ∈ t.inner) : u.size < t.size := by
  have hle := size_le_sizeAll h
  cases t with
  | expr e => exact Nat.lt_of_le_of_lt hle (sizeAll_exprInner e)
  | pattern p => exact Nat.lt_of_le_of_lt hle (sizeAll_patternParts p)
  | key k => exact Nat.lt_of_le_of_lt hle (sizeAll_keyParts k)
  | leave => exact absurd h List.not_mem_nil

theorem size_lt_of_mem_placed {t : Task} {address : Address} {p : Address × Task}
    (h : p ∈ placed address t.inner) : p.2.size < t.size := by
  obtain ⟨i, -, hi⟩ := mem_placed.1 h
  exact size_lt_of_mem_inner (List.mem_of_getElem? hi)

/-- The nodes from one of them down: the node itself, then those of its parts, one part after
the other. -/
def nodes (address : Address) (scopes : Scopes) (t : Task) : List Visit :=
  ⟨address, t, scopes⟩ ::
    (placed address t.inner).attach.flatMap fun p => p.1.2.nodes p.1.1 (t.inside scopes)
termination_by t.size
decreasing_by exact size_lt_of_mem_placed p.2

theorem nodes_eq (address : Address) (scopes : Scopes) (t : Task) :
    t.nodes address scopes = ⟨address, t, scopes⟩ ::
      (placed address t.inner).flatMap fun p => p.2.nodes p.1 (t.inside scopes) := by
  rw [nodes, List.flatMap_subtype (g := fun p => p.2.nodes p.1 (t.inside scopes)) fun _ _ => rfl,
    List.unattach_attach]

/-- The node at an address below a node, with the scopes in force there. -/
def reach : Task → Scopes → Address → Option (Task × Scopes)
  | t, scopes, [] => some (t, scopes)
  | t, scopes, i :: rest => t.inner[i]?.bind fun u => u.reach (t.inside scopes) rest

end Task

/-! ### The stack -/

theorem Expr.enter_inside (scopes : Scopes) (e : Expr) :
    (e.enter scopes).2.2 = (Task.expr e).inside scopes := by
  match e with
  | .function _ _ _ _ (.expression _) | .function _ _ _ _ .block | .identifier _ | .literal _
  | .binary .. | .logical .. | .unary .. | .conditional .. | .member .. | .call .. | .array _
  | .object _ | .sequence _ | .assign .. | .update .. | .spread _ | .new .. | .template ..
  | .tagged .. | .this | .super | .newTarget => rfl

theorem visits_append {ps : List (Address × Task)} {scopes : Scopes}
    (h : ∀ p ∈ ps, ∀ rest, visits (p :: rest) scopes = p.2.nodes p.1 scopes ++ visits rest scopes)
    (rest : List (Address × Task)) :
    visits (ps ++ rest) scopes =
      (ps.flatMap fun p => p.2.nodes p.1 scopes) ++ visits rest scopes := by
  induction ps with
  | nil => rfl
  | cons p ps ih =>
    obtain ⟨hp, hps⟩ := List.forall_mem_cons.1 h
    rw [List.cons_append, hp, ih hps, List.flatMap_cons, List.append_assoc]

/-- A task on top of the stack is followed by all nodes below it, and then by the rest of the
stack in the scopes that were in force before. -/
theorem visits_task (t : Task) (ht : t ≠ .leave) (a : Address) (rest : List (Address × Task))
    (scopes : Scopes) :
    visits ((a, t) :: rest) scopes = t.nodes a scopes ++ visits rest scopes := by
  -- for every place, rest and scopes: the parts stand elsewhere, above other tasks than `t`
  induction t using Task.induction_inner generalizing a rest scopes with
  | step t ih =>
  have parts : ∀ rest, visits (placed a t.inner ++ rest) (t.inside scopes) =
      ((placed a t.inner).flatMap fun p => p.2.nodes p.1 (t.inside scopes)) ++
        visits rest (t.inside scopes) := by
    refine visits_append fun p hp rest => ?_
    obtain ⟨i, -, hi⟩ := mem_placed.1 hp
    have hmem := List.mem_of_getElem? hi
    exact ih p.2 hmem (fun h => leave_not_mem_inner t (h ▸ hmem)) p.1 rest _
  rw [Task.nodes_eq, List.cons_append]
  cases t with
  | leave => exact absurd rfl ht
  | key k =>
    rw [visits]
    exact congrArg _ (parts rest)
  | pattern p =>
    rw [visits]
    exact congrArg _ (parts rest)
  | expr e =>
    rw [visits, Expr.enter_inside]
    refine congrArg _ ?_
    rcases e.enter_cases scopes with ⟨bound, h⟩ | ⟨met, h⟩
    · -- the scope of a function is closed before the rest is reached
      have hbound : (Task.expr e).inside scopes = bound :: scopes := by
        rw [← Expr.enter_inside, h]
      have hplaced : placed a (e.inner ++ [.leave]) =
          placed a e.inner ++ [(a ++ [e.inner.length], .leave)] := by
        simp [placed, List.zipIdx_append]
      rw [h, hplaced, List.append_assoc]
      refine (parts _).trans (congrArg _ ?_)
      rw [List.singleton_append, visits, hbound, List.tail_cons]
    · have hscopes : (Task.expr e).inside scopes = scopes := by
        rw [← Expr.enter_inside, h]
      rw [h]
      refine (parts rest).trans (congrArg _ ?_)
      rw [hscopes]

/-! ### Each node once -/

namespace Task

/-- The recursion comes to exactly the nodes that an address leads to. -/
theorem mem_nodes {t : Task} {a : Address} {scopes : Scopes} {v : Visit} :
    v ∈ t.nodes a scopes ↔
      ∃ path, v.address = a ++ path ∧ t.reach scopes path = some (v.node, v.scopes) := by
  induction t using Task.induction_inner generalizing a scopes with
  | step t ih =>
  rw [nodes_eq, List.mem_cons, List.mem_flatMap]
  constructor
  · rintro (rfl | ⟨p, hp, hv⟩)
    · exact ⟨[], (List.append_nil a).symm, rfl⟩
    · obtain ⟨i, hi, hpart⟩ := mem_placed.1 hp
      obtain ⟨path, haddress, hreach⟩ := (ih p.2 (List.mem_of_getElem? hpart)).1 hv
      refine ⟨i :: path, ?_, ?_⟩
      · rw [haddress, hi, List.append_assoc, List.singleton_append]
      · rw [reach, hpart, Option.bind_some, hreach]
  · rintro ⟨path, haddress, hreach⟩
    cases path with
    | nil =>
      obtain ⟨address, node, inside⟩ := v
      obtain ⟨rfl, rfl⟩ : t = node ∧ scopes = inside := by simpa [reach] using hreach
      obtain rfl : address = a := by simpa using haddress
      exact Or.inl rfl
    | cons i path =>
      obtain ⟨u, hpart, hreach⟩ := Option.bind_eq_some_iff.1 hreach
      refine Or.inr ⟨(a ++ [i], u), mem_placed.2 ⟨i, rfl, hpart⟩, ?_⟩
      refine (ih u (List.mem_of_getElem? hpart)).2 ⟨path, ?_, hreach⟩
      rw [haddress, List.append_assoc, List.singleton_append]

theorem lt_below (a : Address) (i : Nat) (path : Address) : a < a ++ [i] ++ path := by
  have h : a ++ [] < a ++ ([i] ++ path) := List.append_left_lt (List.nil_lt_cons i path)
  simpa using h

theorem below_lt_below {i j : Nat} (h : i < j) (a path other : Address) :
    a ++ [i] ++ path < a ++ [j] ++ other := by
  rw [List.append_assoc, List.append_assoc]
  exact List.append_left_lt (List.cons_lt_cons_iff.2 (Or.inl h))

theorem ascending_placed (a : Address) (ts : List Task) :
    (placed a ts).Pairwise fun p q => ∃ i j, i < j ∧ p.1 = a ++ [i] ∧ q.1 = a ++ [j] := by
  have hindices : (ts.zipIdx.map (·.2)).Pairwise (· < ·) := by
    rw [List.zipIdx_map_snd]
    exact List.pairwise_lt_range'
  rw [placed, List.pairwise_map]
  refine (List.pairwise_map.1 hindices).imp ?_
  intro p q h
  exact ⟨p.2, q.2, h, rfl, rfl⟩

/-- The addresses of the nodes ascend. -/
theorem ascending_nodes (t : Task) (a : Address) (scopes : Scopes) :
    (t.nodes a scopes).Pairwise fun v w => v.address < w.address := by
  induction t using Task.induction_inner generalizing a scopes with
  | step t ih =>
  rw [nodes_eq, List.pairwise_cons, List.pairwise_flatMap]
  refine ⟨fun v hv => ?_, fun p hp => ?_, ?_⟩
  · -- a node stands before all that is below it
    obtain ⟨p, hp, hv⟩ := List.mem_flatMap.1 hv
    obtain ⟨i, hi, -⟩ := mem_placed.1 hp
    obtain ⟨path, haddress, -⟩ := mem_nodes.1 hv
    rw [haddress, hi]
    exact lt_below a i path
  · obtain ⟨i, -, hpart⟩ := mem_placed.1 hp
    exact ih p.2 (List.mem_of_getElem? hpart) p.1 _
  · -- and all that is below one part before all that is below a later one
    refine (ascending_placed a t.inner).imp ?_
    rintro p q ⟨i, j, hij, hi, hj⟩ v hv w hw
    obtain ⟨path, hpath, -⟩ := mem_nodes.1 hv
    obtain ⟨other, hother, -⟩ := mem_nodes.1 hw
    rw [hpath, hother, hi, hj]
    exact below_lt_below hij a path other

end Task

/-- A collector that visits a tree comes to its nodes in the order of the recursion over the
tree, which is that of their addresses, and to each node once, in the scopes of the functions
around it.  What it meets there is what the recursion `Expr.events` meets, and each name that
it meets is recorded in this order; the scopes are in the end what they were. -/
theorem visit_in_order (c : Collector) (e : Expr) :
    walk [.expr e] c.scopes = (e.events c.scopes, c.scopes) ∧
    c.visit e = { c with
      found := (e.events c.scopes).foldl (Collector.record c.options) c.found } ∧
    visits [([], .expr e)] c.scopes = (Task.expr e).nodes [] c.scopes ∧
    e.events c.scopes = (visits [([], .expr e)] c.scopes).flatMap Visit.met ∧
    ((visits [([], .expr e)] c.scopes).Pairwise fun v w => v.address < w.address) ∧
    ∀ v, v ∈ visits [([], .expr e)] c.scopes ↔
      (Task.expr e).reach c.scopes v.address = some (v.node, v.scopes) := by
  have hwalk := walk_expr e c.scopes
  have hvisits : visits [([], .expr e)] c.scopes = (Task.expr e).nodes [] c.scopes := by
    rw [visits_task (.expr e) (by rintro ⟨⟩), visits, List.append_nil]
  have hmet := walk_eq_visits [([], .expr e)] c.scopes
  refine ⟨hwalk, ?_, hvisits, ?_, ?_, fun v => ?_⟩
  · rw [Collector.visit, hwalk]
  · rw [← hmet, List.map_cons, List.map_nil, hwalk]
  · rw [hvisits]
    exact Task.ascending_nodes (.expr e) [] c.scopes
  · rw [hvisits, Task.mem_nodes]
    simp

end TemplateVars

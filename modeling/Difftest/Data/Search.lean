import Mathlib.Tactic

/-!
# Backward search with a shared list of visited nodes

A depth-first search stops at the nodes it does not expand and returns them.  The
calls share the list of visited nodes, so a node is looked at once, whichever call
comes to it first.  On a finite graph the search ends and finds exactly the nodes
that a path through expanded nodes leads to.
-/

namespace Difftest.Search

universe u

variable {α : Type u}

/-- Search from one node, with a bound on the depth of the recursion.  The result is
what was found and the list of visited nodes after it. -/
def search [DecidableEq α] (next : α → List α) (expand : α → Bool) :
    Nat → α → List α → Option (List α × List α)
  | 0, _, _ => none
  | fuel + 1, node, visited =>
      if node ∈ visited then some ([], visited)
      else if expand node then
        (next node).foldlM (fun (found, visited) other =>
          (search next expand fuel other visited).map fun (more, visited) =>
            (found ++ more, visited)) ([], visited ++ [node])
      else some ([node], visited ++ [node])

/-- One edge out of an expanded node. -/
def Edge (next : α → List α) (expand : α → Bool) (first second : α) : Prop :=
  expand first = true ∧ second ∈ next first

/-- A path through expanded nodes. -/
def Leads (next : α → List α) (expand : α → Bool) : α → α → Prop :=
  Relation.ReflTransGen (Edge next expand)

/-- What a search from some roots adds to the visited nodes, and what it finds. -/
structure Explores (next : α → List α) (expand : α → Bool) (roots visited found after : List α) :
    Prop where
  grows : visited ⊆ after
  visits : roots ⊆ after
  sound : ∀ node ∈ after, node ∈ visited ∨ ∃ root ∈ roots, Leads next expand root node
  closed : ∀ node ∈ after, node ∉ visited → expand node = true → next node ⊆ after
  found : ∀ node, node ∈ found ↔ node ∈ after ∧ node ∉ visited ∧ expand node = false

variable {next : α → List α} {expand : α → Bool}

theorem Explores.nil (visited : List α) : Explores next expand [] visited [] visited := by
  constructor
  · exact List.Subset.refl visited
  · exact List.nil_subset visited
  · exact fun _ mem => Or.inl mem
  · exact fun _ mem fresh => absurd mem fresh
  · intro node
    simp only [List.not_mem_nil, false_iff]
    exact fun member => member.2.1 member.1

/-- A search that follows another one. -/
theorem Explores.append {first second visited middle after found more : List α}
    (left : Explores next expand first visited found middle)
    (right : Explores next expand second middle more after) :
    Explores next expand (first ++ second) visited (found ++ more) after := by
  constructor
  · exact List.Subset.trans left.grows right.grows
  · exact List.append_subset_of_subset_of_subset (List.Subset.trans left.visits right.grows)
      right.visits
  · intro node mem
    rcases right.sound node mem with before | ⟨root, isRoot, leads⟩
    · rcases left.sound node before with old | ⟨root, isRoot, leads⟩
      · exact Or.inl old
      · exact Or.inr ⟨root, List.mem_append_left _ isRoot, leads⟩
    · exact Or.inr ⟨root, List.mem_append_right _ isRoot, leads⟩
  · intro node mem fresh expanded
    by_cases before : node ∈ middle
    · exact List.Subset.trans (left.closed node before fresh expanded) right.grows
    · exact right.closed node mem before expanded
  · intro node
    rw [List.mem_append, left.found, right.found]
    constructor
    · rintro (⟨mem, fresh, kept⟩ | ⟨mem, fresh, kept⟩)
      · exact ⟨right.grows mem, fresh, kept⟩
      · exact ⟨mem, fun old => fresh (left.grows old), kept⟩
    · rintro ⟨mem, fresh, kept⟩
      by_cases before : node ∈ middle
      · exact Or.inl ⟨before, fresh, kept⟩
      · exact Or.inr ⟨mem, before, kept⟩

/-- Visiting an expanded node and then searching from its neighbours. -/
theorem Explores.enter {node : α} {visited found after : List α} (expanded : expand node = true)
    (fresh : node ∉ visited)
    (inner : Explores next expand (next node) (visited ++ [node]) found after) :
    Explores next expand [node] visited found after := by
  have isVisited : node ∈ after :=
    inner.grows (List.mem_append_right _ (List.mem_singleton_self node))
  constructor
  · exact List.Subset.trans (List.subset_append_left visited [node]) inner.grows
  · exact List.cons_subset.mpr ⟨isVisited, List.nil_subset after⟩
  · intro other mem
    rcases inner.sound other mem with before | ⟨root, isRoot, leads⟩
    · rcases List.mem_append.mp before with old | same
      · exact Or.inl old
      · rw [List.mem_singleton.mp same]
        exact Or.inr ⟨node, List.mem_singleton_self node, Relation.ReflTransGen.refl⟩
    · exact Or.inr ⟨node, List.mem_singleton_self node,
        Relation.ReflTransGen.head ⟨expanded, isRoot⟩ leads⟩
  · intro other mem new expands
    by_cases same : other = node
    · rw [same]
      exact inner.visits
    · apply inner.closed other mem _ expands
      rw [List.mem_append, List.mem_singleton]
      exact fun before => before.elim new same
  · intro other
    rw [inner.found, List.mem_append, List.mem_singleton, not_or]
    constructor
    · rintro ⟨mem, ⟨new, _⟩, kept⟩
      exact ⟨mem, new, kept⟩
    · rintro ⟨mem, new, kept⟩
      refine ⟨mem, ⟨new, ?_⟩, kept⟩
      rintro rfl
      rw [expanded] at kept
      cases kept

/-- Visiting a node that is not expanded. -/
theorem Explores.stop {node : α} {visited : List α} (kept : expand node = false)
    (fresh : node ∉ visited) : Explores next expand [node] visited [node] (visited ++ [node]) := by
  constructor
  · exact List.subset_append_left visited [node]
  · exact List.subset_append_right visited [node]
  · intro other mem
    rcases List.mem_append.mp mem with old | same
    · exact Or.inl old
    · rw [List.mem_singleton.mp same]
      exact Or.inr ⟨node, List.mem_singleton_self node, Relation.ReflTransGen.refl⟩
  · intro other mem new expanded
    rcases List.mem_append.mp mem with old | same
    · exact absurd old new
    · rw [List.mem_singleton.mp same, kept] at expanded
      cases expanded
  · intro other
    rw [List.mem_append, List.mem_singleton]
    constructor
    · rintro rfl
      exact ⟨Or.inr rfl, fresh, kept⟩
    · rintro ⟨mem, new, _⟩
      exact mem.resolve_left new

/-- Coming back to a visited node. -/
theorem Explores.again {node : α} {visited : List α} (old : node ∈ visited) :
    Explores next expand [node] visited [] visited := by
  constructor
  · exact List.Subset.refl visited
  · exact List.cons_subset.mpr ⟨old, List.nil_subset visited⟩
  · exact fun _ mem => Or.inl mem
  · exact fun _ mem fresh => absurd mem fresh
  · intro other
    simp only [List.not_mem_nil, false_iff]
    exact fun member => member.2.1 member.1

/-- A search that starts with nothing visited finds exactly the nodes that a path leads
to and that are not expanded. -/
theorem Explores.mem_found_iff {node : α} {found after : List α}
    (explores : Explores next expand [node] [] found after) (other : α) :
    other ∈ found ↔ Leads next expand node other ∧ expand other = false := by
  rw [explores.found]
  constructor
  · rintro ⟨mem, _, kept⟩
    rcases explores.sound other mem with before | ⟨root, isRoot, leads⟩
    · exact absurd before List.not_mem_nil
    · rw [List.mem_singleton.mp isRoot] at leads
      exact ⟨leads, kept⟩
  · rintro ⟨leads, kept⟩
    refine ⟨?_, List.not_mem_nil, kept⟩
    clear kept
    induction leads with
    | refl => exact explores.visits (List.mem_singleton_self node)
    | tail _ edge ih => exact explores.closed _ ih List.not_mem_nil edge.1 edge.2

/-! ## Every search on a finite graph ends -/

variable [DecidableEq α]

/-- The nodes still to be visited. -/
def unvisited (nodes visited : List α) : List α := nodes.filter fun node => node ∉ visited

theorem unvisited_mono (nodes : List α) {visited after : List α} (grows : visited ⊆ after) :
    (unvisited nodes after).length ≤ (unvisited nodes visited).length := by
  apply List.Sublist.length_le
  apply List.monotone_filter_right
  intro node fresh
  simp only [decide_eq_true_eq] at fresh ⊢
  exact fun old => fresh (grows old)

theorem unvisited_lt {nodes visited : List α} {node : α} (known : node ∈ nodes)
    (fresh : node ∉ visited) :
    (unvisited nodes (visited ++ [node])).length < (unvisited nodes visited).length := by
  have fewer : unvisited nodes (visited ++ [node]) =
      (unvisited nodes visited).filter fun other => other ≠ node := by
    rw [unvisited, unvisited, List.filter_filter]
    apply List.filter_congr
    intro other _
    simp [and_comm]
  rw [fewer]
  apply List.length_filter_lt_length_iff_exists.mpr
  refine ⟨node, ?_, by simp⟩
  rw [unvisited, List.mem_filter]
  exact ⟨known, by simpa using fresh⟩

variable {nodes : List α}

/-- Searches from a list of nodes, one after the other. -/
theorem foldlM_explores {fuel : Nat} (known : ∀ node ∈ nodes, ∀ visited,
      (unvisited nodes visited).length < fuel → ∃ found after,
        search next expand fuel node visited = some (found, after) ∧
          Explores next expand [node] visited found after)
    {others : List α} (inside : others ⊆ nodes) (found visited : List α)
    (enough : (unvisited nodes visited).length < fuel) :
    ∃ more after, others.foldlM (fun (found, visited) other =>
        (search next expand fuel other visited).map fun (more, visited) =>
          (found ++ more, visited)) (found, visited) = some (found ++ more, after) ∧
      Explores next expand others visited more after := by
  induction others generalizing found visited with
  | nil =>
      refine ⟨[], visited, ?_, Explores.nil visited⟩
      rw [List.foldlM_nil, List.append_nil]
      rfl
  | cons other others ih =>
      obtain ⟨first, middle, searched, explores⟩ :=
        known other (inside List.mem_cons_self) visited enough
      have stillEnough : (unvisited nodes middle).length < fuel :=
        Nat.lt_of_le_of_lt (unvisited_mono nodes explores.grows) enough
      obtain ⟨more, after, folded, rest⟩ :=
        ih (fun node mem => inside (List.mem_cons_of_mem _ mem)) (found ++ first) middle
          stillEnough
      refine ⟨first ++ more, after, ?_, explores.append rest⟩
      rw [List.foldlM_cons, ← List.append_assoc]
      dsimp only
      rw [searched]
      exact folded

/-- With enough fuel a search ends and explores. -/
theorem search_explores (inside : ∀ node ∈ nodes, next node ⊆ nodes) {fuel : Nat} :
    ∀ node ∈ nodes, ∀ visited, (unvisited nodes visited).length < fuel → ∃ found after,
      search next expand fuel node visited = some (found, after) ∧
        Explores next expand [node] visited found after := by
  induction fuel with
  | zero => exact fun _ _ _ enough => absurd enough (Nat.not_lt_zero _)
  | succ fuel ih =>
      intro node isNode visited enough
      by_cases old : node ∈ visited
      · exact ⟨[], visited, by rw [search, if_pos old], Explores.again old⟩
      · cases expanded : expand node with
        | false =>
            refine ⟨[node], visited ++ [node], ?_, Explores.stop expanded old⟩
            rw [search, if_neg old, expanded, if_neg Bool.false_ne_true]
        | true =>
            have fewer := unvisited_lt isNode old
            obtain ⟨found, after, folded, explores⟩ := foldlM_explores ih (inside node isNode) []
              (visited ++ [node]) (by omega)
            refine ⟨found, after, ?_, Explores.enter expanded old explores⟩
            rw [search, if_neg old, expanded, if_pos rfl, folded, List.nil_append]

/-- A search that ends is the same with more fuel. -/
theorem search_succ {fuel : Nat} {node : α} {visited : List α} {result : List α × List α}
    (searched : search next expand fuel node visited = some result) :
    search next expand (fuel + 1) node visited = some result := by
  induction fuel generalizing node visited result with
  | zero => cases searched
  | succ fuel ih =>
      rw [search] at searched ⊢
      split at searched
      · rw [if_pos ‹_›]
        exact searched
      · rw [if_neg ‹_›]
        split at searched
        · rw [if_pos ‹_›]
          revert searched
          generalize (([] : List α), visited ++ [node]) = start
          generalize next node = others
          intro searched
          induction others generalizing start with
          | nil => exact searched
          | cons other others rest =>
              rw [List.foldlM_cons] at searched ⊢
              rcases Option.bind_eq_some_iff.mp searched with ⟨state, first, later⟩
              rcases Option.map_eq_some_iff.mp first with ⟨found, step, same⟩
              have again : (search next expand (fuel + 1) other start.2).map
                  (fun found => (start.1 ++ found.1, found.2)) = some state := by
                rw [ih step, Option.map_some]
                exact congrArg some same
              exact Option.bind_eq_some_iff.mpr ⟨state, again, rest state later⟩
        · rw [if_neg ‹_›]
          exact searched

theorem search_of_le {fuel fuel' : Nat} {node : α} {visited : List α} {result : List α × List α}
    (enough : fuel ≤ fuel') (searched : search next expand fuel node visited = some result) :
    search next expand fuel' node visited = some result := by
  induction enough with
  | refl => exact searched
  | step _ ih => exact search_succ ih

/-- The search of a node of a finite graph: it ends, and what it finds is exact. -/
theorem search_exact (inside : ∀ node ∈ nodes, next node ⊆ nodes) {node : α}
    (isNode : node ∈ nodes) :
    ∃ found after, search next expand (nodes.length + 1) node [] = some (found, after) ∧
      ∀ other, other ∈ found ↔ Leads next expand node other ∧ expand other = false := by
  have enough : (unvisited nodes ([] : List α)).length < nodes.length + 1 :=
    Nat.lt_succ_of_le (List.length_filter_le _ _)
  obtain ⟨found, after, searched, explores⟩ := search_explores inside node isNode [] enough
  exact ⟨found, after, searched, explores.mem_found_iff⟩

end Difftest.Search

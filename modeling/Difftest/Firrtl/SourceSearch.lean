import Difftest.Firrtl.GraphLedger

/-!
# The backward search of sources

`findSrcs` follows the edges of any reverse graph from a sink, through nodes and wires only,
and shares one list of visited names between its recursive calls.  It ends, also on cycles,
and the shared list loses no source: what a call does not look at again has been found by the
call that came there first.
-/

namespace Difftest.Firrtl

/-! ## Reverse graphs -/

/-- `Port`, `DefRegister`, `DefMemory` and instances. -/
def Decl.source : Decl → Bool
  | port _ => true
  | register _ => true
  | memory _ => true
  | «instance» _ => true
  | wire _ => false
  | node _ => false

theorem Decl.source_eq (decl : Decl) : decl.source = !decl.passed := by
  cases decl with
  | port port => rfl
  | wire tpe => rfl
  | register reg => rfl
  | node value => rfl
  | memory mem => rfl
  | «instance» inst => rfl

/-- `reverseMap`: the nodes by name, each with the names that it is a sink of.  These are
names of nodes. -/
structure ReverseMap where
  nodes : Dict String (Decl × List String)
  closed : ∀ name node sources, nodes.get? name = some (node, sources) →
    sources ⊆ nodes.keys

namespace ReverseMap

variable (reverseMap : ReverseMap)

/-- `findSrcs`: the sources that were found and the names that are visited now.  The first
argument bounds the depth of the recursion; `none` is a failed assertion. -/
def findSrcs : Nat → String → List String → Option (List String × List String)
  | 0, _, _ => none
  | fuel + 1, sink, visited =>
      (reverseMap.nodes.get? sink).bind fun (node, sources) =>
        if sink ∈ visited then some ([], visited)
        else
          sources.foldlM (fun (list, visited) str =>
              if node.passed = true then
                (findSrcs fuel str visited).map fun (more, visited) => (list ++ more, visited)
              else some (list, visited))
            (if node.source = true then [sink] else [], visited ++ [sink])

/-- The names that a name is a sink of. -/
def sources (name : String) : List String := ((reverseMap.nodes.get? name).map Prod.snd).getD []

/-- Is the name a node or a wire? -/
def passes (name : String) : Bool := (reverseMap.nodes.get? name).any fun node => node.1.passed

/-- Is the name a port, a register, a memory or an instance? -/
def IsSource (name : String) : Prop :=
  ∃ node sources, reverseMap.nodes.get? name = some (node, sources) ∧ node.source = true

/-- One edge into a node or a wire. -/
def Flows (name sink : String) : Prop :=
  name ∈ reverseMap.sources sink ∧ reverseMap.passes sink = true

variable {reverseMap}

theorem sources_subset (name : String) : reverseMap.sources name ⊆ reverseMap.nodes.keys := by
  rw [sources]
  cases found : reverseMap.nodes.get? name with
  | none => exact List.nil_subset _
  | some node => exact reverseMap.closed name node.1 node.2 found

theorem exists_of_mem_keys {name : String} (known : name ∈ reverseMap.nodes.keys) :
    ∃ node sources, reverseMap.nodes.get? name = some (node, sources) := by
  rcases Option.isSome_iff_exists.mp ((Dict.mem_keys_iff _ name).mp known) with ⟨entry, found⟩
  exact ⟨entry.1, entry.2, found⟩

theorem foldlM_congr {σ α : Type} {f g : σ → α → Option σ} {list : List α}
    (same : ∀ a ∈ list, ∀ state, f state a = g state a) (start : σ) :
    list.foldlM f start = list.foldlM g start := by
  induction list generalizing start with
  | nil => rfl
  | cons a list inductionHypothesis =>
      rw [List.foldlM_cons, List.foldlM_cons, same a List.mem_cons_self start]
      apply bind_congr
      intro state
      exact inductionHypothesis (fun b mem => same b (List.mem_cons_of_mem a mem)) state

theorem foldlM_some {σ α : Type} (list : List α) (start : σ) :
    list.foldlM (fun state _ => some state) start = some start := by
  induction list with
  | nil => rfl
  | cons a list inductionHypothesis => exact inductionHypothesis

/-- The calls make one search. -/
theorem findSrcs_eq_search {fuel : Nat} {sink : String} {visited : List String}
    (known : sink ∈ reverseMap.nodes.keys) :
    reverseMap.findSrcs fuel sink visited =
      Search.search reverseMap.sources reverseMap.passes fuel sink visited := by
  induction fuel generalizing sink visited with
  | zero => rfl
  | succ fuel inductionHypothesis =>
      rcases exists_of_mem_keys known with ⟨node, sources, found⟩
      have next : reverseMap.sources sink = sources := by
        rw [ReverseMap.sources, found]
        rfl
      have kind : reverseMap.passes sink = node.passed := by
        rw [passes, found]
        rfl
      have inside : sources ⊆ reverseMap.nodes.keys := reverseMap.closed sink node sources found
      rw [findSrcs, found, Option.bind_some, Search.search, next, kind]
      dsimp only
      rw [node.source_eq]
      split
      · rfl
      · cases node.passed with
        | true =>
            apply foldlM_congr
            intro other mem state
            rw [if_pos rfl, inductionHypothesis (inside mem)]
        | false => exact foldlM_some sources _

/-- A path of the search is a path of edges into nodes and wires. -/
theorem leads_iff {sink name : String} :
    Search.Leads reverseMap.sources reverseMap.passes sink name ↔
      Relation.ReflTransGen reverseMap.Flows name sink := by
  have edges : Function.swap (Search.Edge reverseMap.sources reverseMap.passes) =
      reverseMap.Flows := by
    funext first second
    exact propext and_comm
  rw [Search.Leads, ← Relation.reflTransGen_swap, edges]

theorem isSource_iff {name : String} (known : name ∈ reverseMap.nodes.keys) :
    reverseMap.IsSource name ↔ reverseMap.passes name = false := by
  rcases exists_of_mem_keys known with ⟨node, sources, found⟩
  have kind : reverseMap.passes name = node.passed := by
    rw [passes, found]
    rfl
  rw [kind]
  constructor
  · rintro ⟨node', sources', found', isSource⟩
    rw [found] at found'
    cases found'
    rwa [node.source_eq, Bool.not_eq_true'] at isSource
  · intro stops
    exact ⟨node, sources, found, by rw [node.source_eq, stops]; rfl⟩

/-- Only names of the graph flow into a name of it. -/
theorem mem_keys_of_flows {name sink : String} (known : sink ∈ reverseMap.nodes.keys)
    (path : Relation.ReflTransGen reverseMap.Flows name sink) : name ∈ reverseMap.nodes.keys := by
  induction path using Relation.ReflTransGen.head_induction_on with
  | refl => exact known
  | head edge _ _ => exact sources_subset _ edge.1

/-- The search of a sink ends and returns exactly the sources from which a path leads to it
through nodes and wires only. -/
theorem findSrcs_returns (reverseMap : ReverseMap) {sink : String}
    (known : sink ∈ reverseMap.nodes.keys) :
    ∃ found visited,
      (∀ fuel, reverseMap.nodes.keys.length < fuel →
        reverseMap.findSrcs fuel sink [] = some (found, visited)) ∧
      ∀ name, name ∈ found ↔
        reverseMap.IsSource name ∧ Relation.ReflTransGen reverseMap.Flows name sink := by
  rcases @Search.search_exact String reverseMap.sources reverseMap.passes _ reverseMap.nodes.keys
    (fun name _ => sources_subset name) sink known with ⟨found, visited, searched, exact⟩
  refine ⟨found, visited, ?_, ?_⟩
  · intro fuel enough
    rw [findSrcs_eq_search known]
    exact Search.search_of_le enough searched
  · intro name
    rw [exact, leads_iff, and_comm]
    apply and_congr_left
    intro path
    exact (isSource_iff (mem_keys_of_flows known path)).symm

/-- A cycle of two wires that a port and a register drive. -/
def cycle : ReverseMap where
  nodes := Dict.ofList
    [("in", (.port ⟨"in", .input, .uint 1⟩, [])), ("first", (.wire (.uint 1), ["in", "second"])),
      ("second", (.wire (.uint 1), ["first", "flag"])),
      ("flag", (.register ⟨[], "flag", .uint 1, .ref "clock" .clock, .uintLiteral 0 1,
        .ref "flag" (.uint 1)⟩, ["second"]))]
  closed := by
    intro name node sources found source mem
    have entry := Dict.mem_of_mem_ofList (Dict.mem_of_find found)
    simp only [List.mem_cons, Prod.mk.injEq, List.not_mem_nil, or_false] at entry
    rcases entry with ⟨_, _, rfl⟩ | ⟨_, _, rfl⟩ | ⟨_, _, rfl⟩ | ⟨_, _, rfl⟩
    · cases mem
    · revert source
      decide
    · revert source
      decide
    · revert source
      decide

theorem findSrcs_returns_cycle :
    "first" ∈ cycle.nodes.keys ∧ cycle.findSrcs 5 "first" [] =
        some (["in", "flag"], ["first", "in", "second", "flag"]) ∧
      ∀ name, name ∈ ["in", "flag"] ↔
        cycle.IsSource name ∧ Relation.ReflTransGen cycle.Flows name "first" := by
  have known : "first" ∈ cycle.nodes.keys := by decide
  have computed : cycle.findSrcs 5 "first" [] =
      some (["in", "flag"], ["first", "in", "second", "flag"]) := by decide
  rcases findSrcs_returns cycle known with ⟨found, visited, returned, exact⟩
  have same := (returned 5 (by decide)).symm.trans computed
  cases same
  exact ⟨known, computed, exact⟩

end ReverseMap

/-! ## The graph of a module -/

/-- `reverseEdge`. -/
def Module.reverseMap (mod : Module) : ReverseMap where
  nodes :=
    { entries := mod.graphMap.entries.map fun entry => (entry.1, (entry.2, mod.sources entry.1))
      distinct := by
        rw [List.map_map]
        exact mod.graphMap.distinct }
  closed := by
    intro name node sources found
    rcases List.mem_map.mp (Dict.mem_of_find found) with ⟨entry, _, same⟩
    cases same
    rw [Dict.keys, List.map_map]
    exact List.filter_subset_self _

theorem Module.keys_reverseMap (mod : Module) : mod.reverseMap.nodes.keys = mod.graphMap.keys := by
  rw [Dict.keys, Module.reverseMap, List.map_map]
  rfl

theorem Module.get?_reverseMap (mod : Module) (name : String) :
    mod.reverseMap.nodes.get? name =
      (mod.graphMap.get? name).map fun decl => (decl, mod.sources name) := by
  rw [Dict.get?, Dict.get?, Module.reverseMap]
  dsimp only
  generalize mod.graphMap.entries = entries
  induction entries with
  | nil => rfl
  | cons entry entries inductionHypothesis =>
      rw [List.map_cons, Dict.find, Dict.find]
      by_cases same : entry.1 = name
      · rw [if_pos same, if_pos same, same]
        rfl
      · rw [if_neg same, if_neg same, inductionHypothesis]

/-- Searches that agree on the nodes of a graph are the same. -/
theorem search_congr {next next' : String → List String} {expand expand' : String → Bool}
    {nodes : List String} (inside : ∀ node ∈ nodes, next node ⊆ nodes)
    (sameNext : ∀ node ∈ nodes, next node = next' node)
    (sameExpand : ∀ node ∈ nodes, expand node = expand' node) {fuel : Nat} {node : String}
    {visited : List String} (known : node ∈ nodes) :
    Search.search next expand fuel node visited = Search.search next' expand' fuel node visited := by
  induction fuel generalizing node visited with
  | zero => rfl
  | succ fuel inductionHypothesis =>
      rw [Search.search, Search.search, sameExpand node known, ← sameNext node known]
      split
      · rfl
      · split
        · apply ReverseMap.foldlM_congr
          rintro other mem ⟨found, visited⟩
          dsimp only
          rw [inductionHypothesis (inside node known mem)]
        · rfl

/-- The search of a module is the search of its reverse graph. -/
theorem Module.findSrcs_eq (mod : Module) (sink : String) :
    mod.findSrcs sink =
      (mod.reverseMap.findSrcs (mod.graphMap.keys.length + 1) sink []).map Prod.fst := by
  rw [Module.findSrcs]
  split
  · rename_i known
    rw [ReverseMap.findSrcs_eq_search (mod.keys_reverseMap.symm ▸ known)]
    congr 1
    apply @search_congr mod.sources _ mod.passes _ mod.graphMap.keys
    · exact fun _ _ => List.filter_subset_self _
    · intro node isNode
      rcases Option.isSome_iff_exists.mp ((Dict.mem_keys_iff _ node).mp isNode) with ⟨decl, found⟩
      rw [ReverseMap.sources, mod.get?_reverseMap, found]
      rfl
    · intro node _
      rw [ReverseMap.passes, mod.get?_reverseMap, Option.any_map]
      rfl
    · exact known
  · rename_i unknown
    have absent : mod.graphMap.get? sink = none := by
      rw [← Option.not_isSome_iff_eq_none, ← Dict.mem_keys_iff]
      exact unknown
    rw [ReverseMap.findSrcs, mod.get?_reverseMap, absent]
    rfl

end Difftest.Firrtl

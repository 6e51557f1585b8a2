import Difftest.Firrtl.Interfaces
import Difftest.Firrtl.Semantics

/-!
# Circuits of instances

An instance is named by the path of instance names that leads to it from the top.  A
circuit runs when every instance runs as its module says and has on its ports the values
that the instance around it has there.  Modules that do not instantiate themselves have
finitely many instances, and a property holds of all of them when it holds of an instance
as soon as it holds of those inside it.
-/

namespace Difftest.Firrtl

/-- A finite relation without a cycle is well-founded. -/
theorem wellFounded_of_noCycle {α : Type} {R : α → α → Prop} {nodes : List α}
    (inside : ∀ {first second}, R first second → first ∈ nodes)
    (noCycle : ∀ node, ¬ Relation.TransGen R node node) : WellFounded R := by
  let path : {node // node ∈ nodes} → {node // node ∈ nodes} → Prop :=
    fun first second => Relation.TransGen R first second
  have finite : Finite {node // node ∈ nodes} := List.finite_toSet nodes
  have transitive : IsTrans _ path := ⟨fun _ _ _ => Relation.TransGen.trans⟩
  have irreflexive : Std.Irrefl path := ⟨fun node => noCycle node⟩
  have founded : WellFounded path := Finite.wellFounded_of_trans_of_irrefl path
  have accessible : ∀ node : {node // node ∈ nodes}, Acc R node := by
    intro node
    induction node using founded.induction with
    | _ node inductionHypothesis =>
        constructor
        intro first edge
        exact inductionHypothesis ⟨first, inside edge⟩ (Relation.TransGen.single edge)
  constructor
  intro node
  constructor
  intro first edge
  exact accessible ⟨first, inside edge⟩

namespace Circuit

variable (circuit : Circuit)

/-! ## Instances -/

/-- The module with a body of the name. -/
def body? (name : String) : Option Module := circuit.bodies.find? fun mod => mod.name = name

/-- The module of the instance of the name inside a module, if it has a body. -/
def sub? (mod : Module) (name : String) : Option Module :=
  (mod.instances.find? fun inst => inst.name = name).bind fun inst => circuit.body? inst.module

/-- The module of the instance at a path from the top. -/
def moduleAt (path : List String) : Option Module :=
  (circuit.body? circuit.main).bind fun top => path.foldlM circuit.sub? top

/-- The first module is instantiated in the second. -/
def Instantiates (child parent : Module) : Prop :=
  parent ∈ circuit.bodies ∧ ∃ name, circuit.sub? parent name = some child

/-- No module contains an instance of itself. -/
def Acyclic : Prop := ∀ mod, ¬ Relation.TransGen circuit.Instantiates mod mod

/-- The instances go from one cycle to the next as their modules say, and their ports
carry what the instances around them have there. -/
structure Steps (env env' : List String → Env) : Prop where
  obeys : ∀ {path mod}, circuit.moduleAt path = some mod → mod.Obeys (env path) (env' path)
  ports : ∀ {path mod}, circuit.moduleAt path = some mod → ∀ {name sub},
    circuit.sub? mod name = some sub → ∀ port ∈ sub.ports,
      env path [name, port.name] = env (path ++ [name]) [port.name]

/-- A run of the circuit, in whose modules every name is declared once. -/
structure Runs (v : List String → Nat → Env) (words : List String → Nat → Words) : Prop where
  names : ∀ mod ∈ circuit.bodies, (mod.decls.map Prod.fst).Nodup
  steps : ∀ t, circuit.Steps (fun path => v path t) (fun path => v path (t + 1))
  memories : ∀ {path mod}, circuit.moduleAt path = some mod → ∀ mem ∈ mod.memories,
    mem.Holds (v path) (words path)

variable {circuit}

theorem mem_bodies_of_body? {name : String} {mod : Module}
    (found : circuit.body? name = some mod) : mod ∈ circuit.bodies ∧ mod.name = name := by
  have named := List.find?_some found
  rw [decide_eq_true_eq] at named
  exact ⟨List.mem_of_find?_eq_some found, named⟩

/-- The instance of the name is one of the module. -/
theorem exists_instance_of_sub? {mod sub : Module} {name : String}
    (found : circuit.sub? mod name = some sub) :
    ∃ inst ∈ mod.instances, inst.name = name ∧ circuit.body? inst.module = some sub := by
  obtain ⟨inst, isInst, isBody⟩ := Option.bind_eq_some_iff.mp found
  have named := List.find?_some isInst
  rw [decide_eq_true_eq] at named
  exact ⟨inst, List.mem_of_find?_eq_some isInst, named, isBody⟩

theorem mem_bodies_of_sub? {mod sub : Module} {name : String}
    (found : circuit.sub? mod name = some sub) : sub ∈ circuit.bodies := by
  obtain ⟨inst, _, _, isBody⟩ := exists_instance_of_sub? found
  exact (mem_bodies_of_body? isBody).1

/-- Names of modules with a body are found when they are unique. -/
theorem body?_eq_some_iff (unique : (circuit.modules.map DefModule.name).Nodup) {name : String}
    {mod : Module} : circuit.body? name = some mod ↔ mod ∈ circuit.bodies ∧ mod.name = name := by
  constructor
  · exact mem_bodies_of_body?
  · rintro ⟨isBody, rfl⟩
    have isSome : (circuit.body? mod.name).isSome := by
      rw [body?, List.find?_isSome]
      exact ⟨mod, isBody, decide_eq_true rfl⟩
    obtain ⟨other, found⟩ := Option.isSome_iff_exists.mp isSome
    obtain ⟨isOther, named⟩ := mem_bodies_of_body? found
    have same := List.inj_on_of_nodup_map unique (mem_bodies_iff.mp isOther)
      (mem_bodies_iff.mp isBody) named
    cases same
    exact found

/-- The module of an instance when names of instances are unique. -/
theorem sub?_eq {mod : Module} (unique : (mod.instances.map Instance.name).Nodup)
    {inst : Instance} (isInst : inst ∈ mod.instances) :
    circuit.sub? mod inst.name = circuit.body? inst.module := by
  have isSome : (mod.instances.find? fun other => other.name = inst.name).isSome := by
    rw [List.find?_isSome]
    exact ⟨inst, isInst, decide_eq_true rfl⟩
  obtain ⟨other, found⟩ := Option.isSome_iff_exists.mp isSome
  have named := List.find?_some found
  rw [decide_eq_true_eq] at named
  have same := List.inj_on_of_nodup_map unique (List.mem_of_find?_eq_some found) isInst named
  rw [sub?, found, Option.bind_some, same]

/-- Without external modules every instance has a module with a body. -/
theorem Linked.exists_sub (linked : circuit.Linked)
    (internal : ∀ target ∈ circuit.modules, target.isExternal = false) {mod : Module}
    (isBody : mod ∈ circuit.bodies) {inst : Instance} (isInst : inst ∈ mod.instances) :
    ∃ sub, circuit.sub? mod inst.name = some sub := by
  obtain ⟨target, isTarget, named⟩ := linked.found mod isBody inst isInst
  have isInternal := internal target isTarget
  cases target with
  | external name ports => cases isInternal
  | internal sub =>
      refine ⟨sub, ?_⟩
      rw [sub?_eq (linked.instances mod isBody) isInst]
      exact (body?_eq_some_iff linked.modules).mpr ⟨mem_bodies_iff.mpr isTarget, named⟩

theorem moduleAt_nil : circuit.moduleAt [] = circuit.body? circuit.main :=
  Option.bind_fun_some _

theorem moduleAt_concat (path : List String) (name : String) :
    circuit.moduleAt (path ++ [name]) =
      (circuit.moduleAt path).bind fun mod => circuit.sub? mod name := by
  rw [moduleAt, moduleAt, Option.bind_assoc]
  congr 1
  funext top
  rw [List.foldlM_append]
  congr 1
  funext mod
  simp [List.foldlM]

theorem moduleAt_of_sub? {path : List String} {mod sub : Module} {name : String}
    (isModule : circuit.moduleAt path = some mod) (found : circuit.sub? mod name = some sub) :
    circuit.moduleAt (path ++ [name]) = some sub := by
  rw [moduleAt_concat, isModule]
  exact found

theorem mem_bodies_of_moduleAt {path : List String} {mod : Module}
    (isModule : circuit.moduleAt path = some mod) : mod ∈ circuit.bodies := by
  cases path using List.reverseRecOn with
  | nil =>
      rw [moduleAt_nil] at isModule
      exact (mem_bodies_of_body? isModule).1
  | append_singleton path name =>
      rw [moduleAt_concat] at isModule
      obtain ⟨parent, _, found⟩ := Option.bind_eq_some_iff.mp isModule
      exact mem_bodies_of_sub? found

/-- The instances of a module whose instances contain none. -/
theorem moduleAt_cases {top : Module} (isTop : circuit.body? circuit.main = some top)
    {leaves : List (String × Module)}
    (subs : ∀ name sub, circuit.sub? top name = some sub → (name, sub) ∈ leaves)
    (noInstances : ∀ leaf ∈ leaves, leaf.2.instances = []) {path : List String} {mod : Module}
    (isModule : circuit.moduleAt path = some mod) :
    (path = [] ∧ mod = top) ∨ ∃ leaf ∈ leaves, path = [leaf.1] ∧ mod = leaf.2 := by
  induction path using List.reverseRecOn generalizing mod with
  | nil =>
      rw [moduleAt_nil, isTop] at isModule
      exact Or.inl ⟨rfl, (Option.some.inj isModule).symm⟩
  | append_singleton path name inductionHypothesis =>
      rw [moduleAt_concat] at isModule
      obtain ⟨outer, isOuter, found⟩ := Option.bind_eq_some_iff.mp isModule
      right
      rcases inductionHypothesis isOuter with ⟨rfl, rfl⟩ | ⟨leaf, isLeaf, rfl, rfl⟩
      · exact ⟨(name, mod), subs name mod found, rfl, rfl⟩
      · rw [sub?, noInstances leaf isLeaf] at found
        cases found

/-! ## Induction -/

theorem Acyclic.wellFounded (acyclic : circuit.Acyclic) : WellFounded circuit.Instantiates := by
  apply wellFounded_of_noCycle _ acyclic
  · exact circuit.bodies
  · rintro first second ⟨_, name, found⟩
    exact mem_bodies_of_sub? found

/-- A property of instances that passes from those inside an instance to the instance
holds of all. -/
theorem Acyclic.induction (acyclic : circuit.Acyclic) {motive : List String → Module → Prop}
    (step : ∀ path mod, circuit.moduleAt path = some mod →
      (∀ name sub, circuit.sub? mod name = some sub → motive (path ++ [name]) sub) →
      motive path mod)
    {path : List String} {mod : Module} (isModule : circuit.moduleAt path = some mod) :
    motive path mod := by
  induction mod using acyclic.wellFounded.induction generalizing path with
  | _ mod inductionHypothesis =>
      apply step path mod isModule
      intro name sub found
      exact inductionHypothesis sub ⟨mem_bodies_of_moduleAt isModule, name, found⟩
        (moduleAt_of_sub? isModule found)

/-- A rank that goes down to the instances rules out cycles. -/
theorem acyclic_of_rank (rank : Module → Nat)
    (lower : ∀ mod ∈ circuit.bodies, ∀ inst ∈ mod.instances, ∀ sub ∈ circuit.bodies,
      sub.name = inst.module → rank sub < rank mod) : circuit.Acyclic := by
  have step : ∀ {child parent}, circuit.Instantiates child parent → rank child < rank parent := by
    rintro child parent ⟨isBody, name, found⟩
    obtain ⟨inst, isInst, _, isSub⟩ := exists_instance_of_sub? found
    obtain ⟨isChild, named⟩ := mem_bodies_of_body? isSub
    exact lower parent isBody inst isInst child isChild named
  have path : ∀ {child parent}, Relation.TransGen circuit.Instantiates child parent →
      rank child < rank parent := by
    intro child parent cycle
    induction cycle with
    | single edge => exact step edge
    | tail _ edge inductionHypothesis => exact inductionHypothesis.trans (step edge)
  intro mod cycle
  exact lt_irrefl _ (path cycle)

/-! ## Sums over the instances inside an instance -/

/-- The names of the instances inside a module whose modules have a body. -/
def subNames (circuit : Circuit) (mod : Module) : List String :=
  (mod.instances.map Instance.name).filter fun name => (circuit.sub? mod name).isSome

theorem mem_subNames_iff {mod : Module} {name : String} :
    name ∈ circuit.subNames mod ↔ ∃ sub, circuit.sub? mod name = some sub := by
  rw [subNames, List.mem_filter, ← Option.isSome_iff_exists]
  constructor
  · exact fun both => both.2
  · intro isSub
    obtain ⟨sub, found⟩ := Option.isSome_iff_exists.mp isSub
    obtain ⟨inst, isInst, named, _⟩ := exists_instance_of_sub? found
    exact ⟨List.mem_map.mpr ⟨inst, isInst, named⟩, isSub⟩

/-- The paths of the instances inside the instance at a path, itself included. -/
def Inside (circuit : Circuit) (path : List String) (paths : Finset (List String)) : Prop :=
  ∀ other, other ∈ paths ↔ path <+: other ∧ (circuit.moduleAt other).isSome

theorem isSome_of_append {path rest : List String}
    (some : (circuit.moduleAt (path ++ rest)).isSome) : (circuit.moduleAt path).isSome := by
  obtain ⟨last, found⟩ := Option.isSome_iff_exists.mp some
  obtain ⟨top, isTop, steps⟩ := Option.bind_eq_some_iff.mp found
  rw [List.foldlM_append] at steps
  obtain ⟨mod, isModule, _⟩ := Option.bind_eq_some_iff.mp steps
  exact Option.isSome_iff_exists.mpr ⟨mod, Option.bind_eq_some_iff.mpr ⟨top, isTop, isModule⟩⟩

/-- An instance other than the outer one is inside one of those that it contains. -/
theorem isPrefix_iff {path other : List String} {mod : Module}
    (isModule : circuit.moduleAt path = some mod) :
    path <+: other ∧ (circuit.moduleAt other).isSome ↔
      other = path ∨ ∃ name ∈ circuit.subNames mod,
        path ++ [name] <+: other ∧ (circuit.moduleAt other).isSome := by
  constructor
  · rintro ⟨⟨rest, rfl⟩, isSome⟩
    cases rest with
    | nil => exact Or.inl (List.append_nil path)
    | cons name rest =>
        right
        rw [List.append_cons] at isSome ⊢
        have isSub := isSome_of_append isSome
        rw [moduleAt_concat, isModule, Option.bind_some] at isSub
        exact ⟨name, mem_subNames_iff.mpr (Option.isSome_iff_exists.mp isSub),
          List.prefix_append _ _, isSome⟩
  · rintro (rfl | ⟨name, _, isPrefix, isSome⟩)
    · exact ⟨List.prefix_rfl, Option.isSome_iff_exists.mpr ⟨mod, isModule⟩⟩
    · exact ⟨(List.prefix_append _ _).trans isPrefix, isSome⟩

/-- Sums that each instance takes over itself and the instances it contains are sums over
all instances inside it. -/
theorem Acyclic.exists_sum (acyclic : circuit.Acyclic)
    (unique : ∀ mod ∈ circuit.bodies, (mod.instances.map Instance.name).Nodup)
    {own total : List String → Int} {modulus : Int}
    (step : ∀ path mod, circuit.moduleAt path = some mod →
      total path = (own path + ((circuit.subNames mod).map fun name => total (path ++ [name])).sum)
        % modulus)
    {path : List String} {mod : Module} (isModule : circuit.moduleAt path = some mod) :
    ∃ paths, circuit.Inside path paths ∧ total path = (∑ other ∈ paths, own other) % modulus := by
  apply acyclic.induction _ isModule
  intro path mod isModule inductionHypothesis
  have each : ∀ name, ∃ paths : Finset (List String), name ∈ circuit.subNames mod →
      circuit.Inside (path ++ [name]) paths ∧
        total (path ++ [name]) = (∑ other ∈ paths, own other) % modulus := by
    intro name
    by_cases isSub : name ∈ circuit.subNames mod
    · obtain ⟨sub, found⟩ := mem_subNames_iff.mp isSub
      obtain ⟨paths, both⟩ := inductionHypothesis name sub found
      exact ⟨paths, fun _ => both⟩
    · exact ⟨∅, fun isSub' => absurd isSub' isSub⟩
  choose paths inside using each
  have nodup : (circuit.subNames mod).Nodup :=
    (unique mod (mem_bodies_of_moduleAt isModule)).filter _
  have disjoint : ∀ first ∈ (circuit.subNames mod).toFinset,
      ∀ second ∈ (circuit.subNames mod).toFinset, first ≠ second →
        Disjoint (paths first) (paths second) := by
    intro first isFirst second isSecond different
    rw [Finset.disjoint_left]
    intro other inFirst inSecond
    have before := (((inside first (List.mem_toFinset.mp isFirst)).1 other).mp inFirst).1
    have after := (((inside second (List.mem_toFinset.mp isSecond)).1 other).mp inSecond).1
    have same := List.prefix_of_prefix_length_le before after (by simp)
    have equal := same.eq_of_length (by simp)
    rw [List.append_cancel_left_eq, List.singleton_inj] at equal
    exact different equal
  have outside : path ∉ (circuit.subNames mod).toFinset.biUnion paths := by
    rw [Finset.mem_biUnion]
    rintro ⟨name, isName, mem⟩
    have longer := (((inside name (List.mem_toFinset.mp isName)).1 path).mp mem).1.length_le
    rw [List.length_append, List.length_singleton] at longer
    exact absurd longer (Nat.not_succ_le_self _)
  refine ⟨insert path ((circuit.subNames mod).toFinset.biUnion paths), ?_, ?_⟩
  · intro other
    rw [Finset.mem_insert, Finset.mem_biUnion, isPrefix_iff isModule]
    apply or_congr_right
    apply exists_congr
    intro name
    rw [List.mem_toFinset]
    apply and_congr_right
    intro isName
    exact (inside name isName).1 other
  · have values : (circuit.subNames mod).map (fun name => total (path ++ [name])) =
        (circuit.subNames mod).map fun name => (∑ other ∈ paths name, own other) % modulus := by
      apply List.map_congr_left
      exact fun name isName => (inside name isName).2
    have sums : (∑ name ∈ (circuit.subNames mod).toFinset,
        (∑ other ∈ paths name, own other) % modulus) ≡
          ∑ name ∈ (circuit.subNames mod).toFinset, ∑ other ∈ paths name, own other
            [ZMOD modulus] :=
      (Finset.sum_int_mod _ _ _).symm
    rw [step path mod isModule, values, Finset.sum_insert outside, Finset.sum_biUnion disjoint,
      ← List.sum_toFinset _ nodup]
    exact Int.ModEq.add_left (own path) sums

end Circuit

end Difftest.Firrtl

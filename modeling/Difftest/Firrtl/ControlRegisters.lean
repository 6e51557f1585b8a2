import Difftest.Firrtl.GraphLedger

/-!
# Which registers are control registers

A select of a multiplexer depends combinationally on what it reads, on what the
values of these names read, and so on, up to registers, memories and instances.  The
search of the graph follows data only and stops at every port.  Selects inside the
expressions on the way lose nothing, because each belongs to a multiplexer of its own;
stopping at ports loses what is read back from an output port.
-/

namespace Difftest.Firrtl

/-! ## Combinational dependency -/

/-- The statement gives the name the value of the expression. -/
def Stmt.Computes (name : String) (expr : Expr) : Stmt → Prop
  | defNode node value => node = name ∧ value = expr
  | connect loc value => findName loc = some name ∧ value = expr
  | _ => False

/-- Declarations that a value passes within a cycle. -/
def Decl.combinational : Decl → Bool
  | port _ => true
  | wire _ => true
  | node _ => true
  | _ => false

/-- The value of a name that may be passed reads another name. -/
def Module.Step (mod : Module) (through : Decl → Bool) (name read : String) : Prop :=
  (∃ decl, (name, decl) ∈ mod.decls ∧ through decl = true) ∧
    ∃ stmt ∈ mod.stmts, ∃ expr, stmt.Computes name expr ∧ read ∈ expr.reads

/-- Some select of the module depends on the name through names that may be passed. -/
def Module.SelectDependsOn (mod : Module) (through : Decl → Bool) (name : String) : Prop :=
  ∃ mux ∈ mod.muxes, ∃ read ∈ mux.cond.reads, Relation.ReflTransGen (mod.Step through) read name

/-- What a Low FIRRTL module guarantees: names are declared, and once. -/
structure Module.Closed (mod : Module) : Prop where
  distinct : (mod.decls.map Prod.fst).Nodup
  declared : ∀ stmt ∈ mod.stmts, ∀ expr ∈ stmt.exprs, ∀ name ∈ expr.reads,
    name ∈ mod.decls.map Prod.fst

/-- The expressions are references, fields, literals, multiplexers and primitive
operations. -/
def Module.Plain (mod : Module) : Prop :=
  ∀ stmt ∈ mod.stmts, ∀ expr ∈ stmt.exprs, expr.plain = true

/-- The control registers are the registers that some select depends on. -/
def Module.CtrlRegsExact (mod : Module) : Prop :=
  ∃ regs, mod.ctrlRegs = some regs ∧
    ∀ reg, reg ∈ regs ↔
      reg ∈ mod.registers ∧ mod.SelectDependsOn Decl.combinational reg.name

/-! ## Expressions -/

theorem mem_reads_of_mem_findNames {name : String} {expr : Expr} (mem : name ∈ findNames expr) :
    name ∈ expr.reads := by
  induction expr with
  | ref refName tpe => exact mem
  | subField expr field tpe ih => exact ih mem
  | mux cond tval fval tpe _ ihT ihF =>
      rw [Expr.reads, List.append_assoc]
      apply List.mem_append_right
      rcases List.mem_append.mp mem with inT | inF
      · exact List.mem_append_left _ (ihT inT)
      · exact List.mem_append_right _ (ihF inF)
  | validIf cond value tpe => cases mem
  | uintLiteral value width => cases mem
  | sintLiteral value width => cases mem
  | doPrim1 op arg consts tpe ih => exact ih mem
  | doPrim2 op arg1 arg2 consts tpe ih1 ih2 =>
      rcases List.mem_append.mp mem with in1 | in2
      · exact List.mem_append_left _ (ih1 in1)
      · exact List.mem_append_right _ (ih2 in2)

/-- What an expression reads is data of it, or data of the select of a multiplexer in
it. -/
theorem mem_findNames_or_select {name : String} {expr : Expr} (plain : expr.plain = true)
    (mem : name ∈ expr.reads) :
    name ∈ findNames expr ∨ ∃ mux ∈ expr.muxes, name ∈ findNames mux.cond := by
  induction expr with
  | ref refName tpe => exact Or.inl mem
  | subField expr field tpe ih => exact ih plain mem
  | mux cond tval fval tpe ihC ihT ihF =>
      simp only [Expr.plain, Bool.and_eq_true] at plain
      rw [Expr.reads, List.append_assoc, List.mem_append, List.mem_append] at mem
      rw [Expr.muxes]
      rcases mem with inC | inT | inF
      · rcases ihC plain.1.1 inC with data | ⟨inner, isInner, data⟩
        · exact Or.inr ⟨_, List.mem_cons_self, data⟩
        · exact Or.inr ⟨inner, List.mem_cons_of_mem _ (by simp [isInner]), data⟩
      · rcases ihT plain.1.2 inT with data | ⟨inner, isInner, data⟩
        · exact Or.inl (List.mem_append_left _ data)
        · exact Or.inr ⟨inner, List.mem_cons_of_mem _ (by simp [isInner]), data⟩
      · rcases ihF plain.2 inF with data | ⟨inner, isInner, data⟩
        · exact Or.inl (List.mem_append_right _ data)
        · exact Or.inr ⟨inner, List.mem_cons_of_mem _ (by simp [isInner]), data⟩
  | validIf cond value tpe => cases plain
  | uintLiteral value width => cases mem
  | sintLiteral value width => cases mem
  | doPrim1 op arg consts tpe ih => exact ih plain mem
  | doPrim2 op arg1 arg2 consts tpe ih1 ih2 =>
      simp only [Expr.plain, Bool.and_eq_true] at plain
      rw [Expr.muxes]
      rcases List.mem_append.mp mem with in1 | in2
      · rcases ih1 plain.1 in1 with data | ⟨inner, isInner, data⟩
        · exact Or.inl (List.mem_append_left _ data)
        · exact Or.inr ⟨inner, List.mem_append_left _ isInner, data⟩
      · rcases ih2 plain.2 in2 with data | ⟨inner, isInner, data⟩
        · exact Or.inl (List.mem_append_right _ data)
        · exact Or.inr ⟨inner, List.mem_append_right _ isInner, data⟩

/-- The select of a multiplexer in an expression is a part of the expression. -/
theorem select_part {mux : Mux} {expr : Expr} (mem : mux ∈ expr.muxes) :
    mux.cond.muxes ⊆ expr.muxes ∧ mux.cond.reads ⊆ expr.reads ∧
      (expr.plain = true → mux.cond.plain = true) := by
  induction expr with
  | ref refName tpe => cases mem
  | subField expr field tpe ih => exact ih mem
  | mux cond tval fval tpe ihC ihT ihF =>
      simp only [Expr.muxes, List.mem_cons, List.mem_append] at mem
      simp only [Expr.muxes, Expr.reads, Expr.plain, Bool.and_eq_true]
      rcases mem with rfl | (inC | inT) | inF
      · exact ⟨fun _ inner => by simp [inner], fun _ inner => by simp [inner], fun plain => plain.1.1⟩
      · obtain ⟨muxes, reads, plains⟩ := ihC inC
        exact ⟨fun _ inner => by simp [muxes inner], fun _ inner => by simp [reads inner],
          fun plain => plains plain.1.1⟩
      · obtain ⟨muxes, reads, plains⟩ := ihT inT
        exact ⟨fun _ inner => by simp [muxes inner], fun _ inner => by simp [reads inner],
          fun plain => plains plain.1.2⟩
      · obtain ⟨muxes, reads, plains⟩ := ihF inF
        exact ⟨fun _ inner => by simp [muxes inner], fun _ inner => by simp [reads inner],
          fun plain => plains plain.2⟩
  | validIf cond value tpe ihC ihV =>
      simp only [Expr.muxes, List.mem_append] at mem
      simp only [Expr.muxes, Expr.reads, Expr.plain]
      rcases mem with inC | inV
      · obtain ⟨muxes, reads, _⟩ := ihC inC
        exact ⟨fun _ inner => by simp [muxes inner], fun _ inner => by simp [reads inner],
          fun plain => absurd plain Bool.false_ne_true⟩
      · obtain ⟨muxes, reads, _⟩ := ihV inV
        exact ⟨fun _ inner => by simp [muxes inner], fun _ inner => by simp [reads inner],
          fun plain => absurd plain Bool.false_ne_true⟩
  | uintLiteral value width => cases mem
  | sintLiteral value width => cases mem
  | doPrim1 op arg consts tpe ih => exact ih mem
  | doPrim2 op arg1 arg2 consts tpe ih1 ih2 =>
      simp only [Expr.muxes, List.mem_append] at mem
      simp only [Expr.muxes, Expr.reads, Expr.plain, Bool.and_eq_true]
      rcases mem with in1 | in2
      · obtain ⟨muxes, reads, plains⟩ := ih1 in1
        exact ⟨fun _ inner => by simp [muxes inner], fun _ inner => by simp [reads inner],
          fun plain => plains plain.1⟩
      · obtain ⟨muxes, reads, plains⟩ := ih2 in2
        exact ⟨fun _ inner => by simp [muxes inner], fun _ inner => by simp [reads inner],
          fun plain => plains plain.2⟩

/-! ## The search of a module -/

section Graph

variable {mod : Module}

theorem mem_muxes_iff {mux : Mux} :
    mux ∈ mod.muxes ↔ ∃ stmt ∈ mod.stmts, ∃ expr ∈ stmt.exprs, mux ∈ expr.muxes := by
  simp [Module.muxes]

theorem mem_keys_graphMap {name : String} :
    name ∈ mod.graphMap.keys ↔ name ∈ mod.decls.map Prod.fst :=
  Dict.mem_keys_ofList mod.decls name

theorem get?_graphMap (closed : mod.Closed) {name : String} {decl : Decl} :
    mod.graphMap.get? name = some decl ↔ (name, decl) ∈ mod.decls :=
  Dict.get?_ofList closed.distinct name decl

theorem passes_iff (closed : mod.Closed) {name : String} :
    mod.passes name = true ↔ ∃ decl, (name, decl) ∈ mod.decls ∧ decl.passed = true := by
  rw [Module.passes, Option.any_eq_true]
  constructor
  · rintro ⟨decl, held, passed⟩
    exact ⟨decl, (get?_graphMap closed).mp held, passed⟩
  · rintro ⟨decl, held, passed⟩
    exact ⟨decl, (get?_graphMap closed).mpr held, passed⟩

/-- A statement makes a wire or node a sink exactly when it computes it from data of
the name. -/
theorem sink_iff {stmt : Stmt} {name sink : String} (passed : ∀ reg, stmt = .defRegister reg →
      reg.name ≠ sink) :
    stmt.sink name = some sink ↔ ∃ expr, stmt.Computes sink expr ∧ name ∈ findNames expr := by
  cases stmt with
  | defNode node value =>
      simp only [Stmt.sink, Stmt.Computes, isUsed_iff]
      constructor
      · intro same
        split at same
        · rename_i used
          cases same
          exact ⟨value, ⟨rfl, rfl⟩, used⟩
        · cases same
      · rintro ⟨expr, ⟨rfl, rfl⟩, used⟩
        rw [if_pos used]
  | connect loc value =>
      simp only [Stmt.sink, Stmt.Computes, isUsed_iff]
      constructor
      · intro same
        split at same
        · rename_i used
          exact ⟨value, ⟨same, rfl⟩, used⟩
        · cases same
      · rintro ⟨expr, ⟨same, rfl⟩, used⟩
        rw [if_pos used, same]
  | defRegister reg =>
      simp only [Stmt.sink, Stmt.Computes, false_and, exists_false, iff_false]
      intro same
      split at same
      · cases same
        exact passed reg rfl rfl
      · cases same
  | defWire wire tpe => simp [Stmt.sink, Stmt.Computes]
  | defInstance inst => simp [Stmt.sink, Stmt.Computes]
  | defMemory mem => simp [Stmt.sink, Stmt.Computes]
  | isInvalid expr => simp [Stmt.sink, Stmt.Computes]
  | attach exprs => simp [Stmt.sink, Stmt.Computes]
  | stop ret clk en => simp [Stmt.sink, Stmt.Computes]
  | print string args clk en => simp [Stmt.sink, Stmt.Computes]
  | empty => simp [Stmt.sink, Stmt.Computes]

theorem mem_decls_of_stmt {stmt : Stmt} (mem : stmt ∈ mod.stmts) {entry : String × Decl}
    (declares : stmt.decl = some entry) : entry ∈ mod.decls :=
  List.mem_append_right _ (List.mem_filterMap.mpr ⟨stmt, mem, declares⟩)

/-- A name has one declaration. -/
theorem Module.Closed.unique (closed : mod.Closed) {name : String} {first second : Decl}
    (left : (name, first) ∈ mod.decls) (right : (name, second) ∈ mod.decls) : first = second :=
  Option.some.inj (((get?_graphMap closed).mpr left).symm.trans ((get?_graphMap closed).mpr right))

/-- An edge of the search, from a name that is passed to the data of its value. -/
theorem edge_iff (closed : mod.Closed) {name source : String} :
    Search.Edge mod.sources mod.passes name source ↔
      (∃ decl, (name, decl) ∈ mod.decls ∧ decl.passed = true) ∧
        ∃ stmt ∈ mod.stmts, ∃ expr, stmt.Computes name expr ∧ source ∈ findNames expr := by
  rw [Search.Edge, passes_iff closed]
  apply and_congr_right
  rintro ⟨decl, declared, passed⟩
  have noRegister : ∀ stmt ∈ mod.stmts, ∀ reg, stmt = .defRegister reg → reg.name ≠ name := by
    rintro stmt mem reg rfl rfl
    have same := closed.unique declared
      (@mem_decls_of_stmt mod _ mem (reg.name, .register reg) rfl)
    rw [same] at passed
    cases passed
  rw [Module.sources, List.mem_filter, decide_eq_true_eq, Module.sinks, List.mem_filterMap]
  constructor
  · rintro ⟨_, stmt, mem, sink⟩
    obtain ⟨expr, computes, data⟩ := (sink_iff (noRegister stmt mem)).mp sink
    exact ⟨stmt, mem, expr, computes, data⟩
  · rintro ⟨stmt, mem, expr, computes, data⟩
    refine ⟨?_, stmt, mem, (sink_iff (noRegister stmt mem)).mpr ⟨expr, computes, data⟩⟩
    apply mem_keys_graphMap.mpr
    apply closed.declared stmt mem expr _ source (mem_reads_of_mem_findNames data)
    cases stmt with
    | defNode node value =>
        rw [computes.2]
        exact List.mem_singleton_self expr
    | connect loc value =>
        rw [computes.2]
        exact List.mem_cons_of_mem _ (List.mem_singleton_self expr)
    | _ => exact computes.elim

/-- The search of one name ends and is exact. -/
theorem findSrcs_exact {sink : String} (declared : sink ∈ mod.decls.map Prod.fst) :
    ∃ found, mod.findSrcs sink = some found ∧
      ∀ other, other ∈ found ↔
        Search.Leads mod.sources mod.passes sink other ∧ mod.passes other = false := by
  have known : sink ∈ mod.graphMap.keys := mem_keys_graphMap.mpr declared
  obtain ⟨found, after, searched, exact⟩ := @Search.search_exact String mod.sources mod.passes _
    mod.graphMap.keys (fun _ _ => List.filter_subset_self _) sink known
  refine ⟨found, ?_, exact⟩
  rw [Module.findSrcs, if_pos known, searched]
  rfl

theorem findAllSrcs_exact {names : List String}
    (declared : ∀ name ∈ names, name ∈ mod.decls.map Prod.fst) :
    ∃ found, mod.findAllSrcs names = some found ∧
      ∀ other, other ∈ found ↔ ∃ name ∈ names,
        Search.Leads mod.sources mod.passes name other ∧ mod.passes other = false := by
  obtain ⟨lists, traversed⟩ := exists_mapM_eq_some fun name mem =>
    (findSrcs_exact (declared name mem)).imp fun _ searched => searched.1
  refine ⟨lists.flatten, ?_, ?_⟩
  · rw [Module.findAllSrcs, traversed]
    rfl
  · intro other
    rw [List.mem_flatten]
    constructor
    · rintro ⟨found, isFound, mem⟩
      obtain ⟨name, isName, searched⟩ := (mem_mapM_iff traversed found).mp isFound
      obtain ⟨found', searched', exact⟩ := findSrcs_exact (declared name isName)
      rw [searched] at searched'
      cases searched'
      exact ⟨name, isName, (exact other).mp mem⟩
    · rintro ⟨name, isName, leads⟩
      obtain ⟨found, searched, exact⟩ := findSrcs_exact (declared name isName)
      exact ⟨found, (mem_mapM_iff traversed found).mpr ⟨name, isName, searched⟩,
        (exact other).mpr leads⟩

theorem declared_of_select (closed : mod.Closed) {mux : Mux} (mem : mux ∈ mod.muxes) :
    ∀ name ∈ mux.cond.reads, name ∈ mod.decls.map Prod.fst := by
  obtain ⟨stmt, isStmt, expr, isExpr, inExpr⟩ := mem_muxes_iff.mp mem
  intro name read
  exact closed.declared stmt isStmt expr isExpr name ((select_part inExpr).2.1 read)

/-- The sources of each select are exact. -/
theorem muxSrcs_exact (closed : mod.Closed) :
    ∃ srcs, mod.muxSrcs = some srcs ∧
      ∀ mux list, (mux, list) ∈ srcs ↔
        mux ∈ mod.muxes ∧ mod.findAllSrcs (findNames mux.cond) = some list := by
  have defined : ∀ mux ∈ mod.muxes, ∃ entry, (mod.findAllSrcs (findNames mux.cond)).map
      (fun srcs => (mux, srcs)) = some entry := by
    intro mux mem
    obtain ⟨found, searched, _⟩ := findAllSrcs_exact fun name isName =>
      declared_of_select closed mem name (mem_reads_of_mem_findNames isName)
    exact ⟨(mux, found), by rw [searched]; rfl⟩
  obtain ⟨srcs, traversed⟩ := exists_mapM_eq_some defined
  refine ⟨srcs, traversed, ?_⟩
  intro mux list
  rw [mem_mapM_iff traversed]
  constructor
  · rintro ⟨mux', mem, computed⟩
    obtain ⟨list', searched, same⟩ := Option.map_eq_some_iff.mp computed
    cases same
    exact ⟨mem, searched⟩
  · rintro ⟨mem, searched⟩
    exact ⟨mux, mem, by rw [searched]; rfl⟩

theorem registerOf_eq_some_iff (closed : mod.Closed) {name : String} {reg : Register} :
    mod.registerOf name = some reg ↔ reg ∈ mod.registers ∧ reg.name = name := by
  have lookup : mod.registerOf name = some reg ↔ (name, Decl.register reg) ∈ mod.decls := by
    rw [← get?_graphMap closed, Module.registerOf]
    split
    · rename_i held graph
      rw [graph]
      simp
    · rename_i other
      constructor
      · intro same
        cases same
      · intro graph
        exact absurd graph (other reg)
  rw [lookup, Module.decls, List.mem_append, List.mem_map, List.mem_filterMap, Module.registers,
    List.mem_filterMap]
  constructor
  · rintro (⟨port, _, same⟩ | ⟨stmt, mem, declares⟩)
    · cases same
    · cases stmt <;> cases declares
      exact ⟨⟨_, mem, rfl⟩, rfl⟩
  · rintro ⟨⟨stmt, mem, declares⟩, rfl⟩
    refine Or.inr ⟨stmt, mem, ?_⟩
    cases stmt with
    | defRegister found =>
        cases declares
        rfl
    | _ => cases declares

/-! ## Data paths and all paths -/

/-- A name that some select leads to along data. -/
def Module.SelectLeadsTo (mod : Module) (name : String) : Prop :=
  ∃ mux ∈ mod.muxes, ∃ ctrl ∈ findNames mux.cond,
    Search.Leads mod.sources mod.passes ctrl name

/-- What a select reads anywhere leads on along data from some select. -/
theorem selectLeadsTo_of_reads {name read : String} {expr : Expr} (plain : expr.plain = true)
    (selects : expr.muxes ⊆ mod.muxes) (reads : read ∈ expr.reads)
    (leads : Search.Leads mod.sources mod.passes read name) :
    read ∈ findNames expr ∨ mod.SelectLeadsTo name := by
  rcases mem_findNames_or_select plain reads with data | ⟨mux, isMux, data⟩
  · exact Or.inl data
  · exact Or.inr ⟨mux, selects isMux, read, data, leads⟩

/-- A path that enters selects can be replaced by a data path from another select. -/
theorem leads_or_selectLeadsTo (closed : mod.Closed) (plain : mod.Plain) {name read : String}
    (path : Relation.ReflTransGen (mod.Step Decl.passed) read name) :
    Search.Leads mod.sources mod.passes read name ∨ mod.SelectLeadsTo name := by
  induction path using Relation.ReflTransGen.head_induction_on with
  | refl => exact Or.inl Relation.ReflTransGen.refl
  | head step _ ih =>
      obtain ⟨passed, stmt, mem, expr, computes, reads⟩ := step
      rcases ih with leads | found
      · have isExpr : expr ∈ stmt.exprs := by
          cases stmt with
          | defNode node value =>
              rw [computes.2]
              exact List.mem_singleton_self expr
          | connect loc value =>
              rw [computes.2]
              exact List.mem_cons_of_mem _ (List.mem_singleton_self expr)
          | _ => exact computes.elim
        have selects : expr.muxes ⊆ mod.muxes := fun mux inExpr =>
          mem_muxes_iff.mpr ⟨stmt, mem, expr, isExpr, inExpr⟩
        rcases selectLeadsTo_of_reads (plain stmt mem expr isExpr) selects reads leads with
          data | found
        · exact Or.inl (Relation.ReflTransGen.head
            ((edge_iff closed).mpr ⟨passed, stmt, mem, expr, computes, data⟩) leads)
        · exact Or.inr found
      · exact Or.inr found

/-- Following data only, from all selects, reaches what following everything does. -/
theorem selectDependsOn_passed_iff (closed : mod.Closed) (plain : mod.Plain) {name : String} :
    mod.SelectDependsOn Decl.passed name ↔ mod.SelectLeadsTo name := by
  constructor
  · rintro ⟨mux, isMux, read, reads, path⟩
    rcases leads_or_selectLeadsTo closed plain path with leads | found
    · obtain ⟨stmt, isStmt, expr, isExpr, inExpr⟩ := mem_muxes_iff.mp isMux
      have part := select_part inExpr
      have selects : mux.cond.muxes ⊆ mod.muxes := fun inner isInner =>
        mem_muxes_iff.mpr ⟨stmt, isStmt, expr, isExpr, part.1 isInner⟩
      rcases selectLeadsTo_of_reads (part.2.2 (plain stmt isStmt expr isExpr)) selects reads leads
        with data | found
      · exact ⟨mux, isMux, read, data, leads⟩
      · exact found
    · exact found
  · rintro ⟨mux, isMux, ctrl, data, leads⟩
    refine ⟨mux, isMux, ctrl, mem_reads_of_mem_findNames data, ?_⟩
    refine Relation.ReflTransGen.mono ?_ _ _ leads
    intro first second edge
    obtain ⟨passed, stmt, mem, expr, computes, inData⟩ := (edge_iff closed).mp edge
    exact ⟨passed, stmt, mem, expr, computes, mem_reads_of_mem_findNames inData⟩

/-- The registers that the graph reports. -/
theorem ctrlRegs_spec (closed : mod.Closed) (plain : mod.Plain) :
    ∃ regs, mod.ctrlRegs = some regs ∧
      ∀ reg, reg ∈ regs ↔ reg ∈ mod.registers ∧ mod.SelectDependsOn Decl.passed reg.name := by
  obtain ⟨srcs, computed, exact⟩ := muxSrcs_exact closed
  refine ⟨ctrlRegsOf mod srcs, by rw [Module.ctrlRegs, computed]; rfl, ?_⟩
  intro reg
  rw [selectDependsOn_passed_iff closed plain, ctrlRegsOf, List.mem_dedup, List.mem_filterMap]
  simp only [List.mem_flatMap, registerOf_eq_some_iff closed]
  constructor
  · rintro ⟨name, ⟨⟨mux, list⟩, inSrcs, inList⟩, isReg, rfl⟩
    obtain ⟨isMux, searched⟩ := (exact mux list).mp inSrcs
    obtain ⟨found, searched', all⟩ := findAllSrcs_exact fun name isName =>
      declared_of_select closed isMux name (mem_reads_of_mem_findNames isName)
    rw [searched] at searched'
    cases searched'
    obtain ⟨ctrl, data, leads, _⟩ := (all reg.name).mp inList
    exact ⟨isReg, mux, isMux, ctrl, data, leads⟩
  · rintro ⟨isReg, mux, isMux, ctrl, data, leads⟩
    obtain ⟨found, searched, all⟩ := findAllSrcs_exact fun name isName =>
      declared_of_select closed isMux name (mem_reads_of_mem_findNames isName)
    have stops : mod.passes reg.name = false := by
      rw [Bool.eq_false_iff]
      intro passes
      obtain ⟨decl, declared, passed⟩ := (passes_iff closed).mp passes
      have lookup := (registerOf_eq_some_iff closed).mpr ⟨isReg, rfl⟩
      rw [Module.registerOf, (get?_graphMap closed).mpr declared] at lookup
      cases decl with
      | register found => cases passed
      | _ => cases lookup
    exact ⟨reg.name, ⟨(mux, found), (exact mux found).mpr ⟨isMux, searched⟩,
      (all reg.name).mpr ⟨ctrl, data, leads, stops⟩⟩, isReg, rfl⟩

/-- The control registers are exact precisely when output ports hide none: each
register that a select depends on is one that a select depends on without passing a
port. -/
theorem ctrlRegs_exact_iff (closed : mod.Closed) (plain : mod.Plain) :
    mod.CtrlRegsExact ↔
      ∀ reg ∈ mod.registers, mod.SelectDependsOn Decl.combinational reg.name →
        mod.SelectDependsOn Decl.passed reg.name := by
  obtain ⟨regs, computed, exact⟩ := ctrlRegs_spec closed plain
  constructor
  · rintro ⟨regs', computed', all⟩ reg isReg depends
    rw [computed] at computed'
    cases computed'
    exact ((exact reg).mp ((all reg).mpr ⟨isReg, depends⟩)).2
  · intro noneHidden
    refine ⟨regs, computed, ?_⟩
    intro reg
    rw [exact]
    apply and_congr_right
    intro isReg
    constructor
    · rintro ⟨mux, isMux, read, reads, path⟩
      refine ⟨mux, isMux, read, reads, Relation.ReflTransGen.mono ?_ _ _ path⟩
      rintro first second ⟨⟨decl, declared, passed⟩, computes⟩
      refine ⟨⟨decl, declared, ?_⟩, computes⟩
      cases decl <;> first | rfl | cases passed
    · exact noneHidden reg isReg

end Graph

/-- A register of one bit that holds its value. -/
def bitRegister (name : String) : Register where
  info := []
  name := name
  tpe := .uint 1
  clock := .ref "clock" .clock
  reset := .uintLiteral 0 1
  init := .ref name (.uint 1)

/-- A reference to a signal of one bit. -/
def bit (name : String) : Expr := .ref name (.uint 1)

/-- The inputs `clock` and `in` and the outputs `valid` and `out`. -/
def bitPorts : List Port :=
  [⟨"clock", .input, .clock⟩, ⟨"in", .input, .uint 1⟩, ⟨"valid", .output, .uint 1⟩,
    ⟨"out", .output, .uint 1⟩]

/-- The register `full` selects directly. -/
def directSelect : Module where
  name := "DirectSelect"
  ports := bitPorts
  body :=
    [.stmt (.defRegister (bitRegister "full")), .stmt (.connect (bit "valid") (bit "full")),
      .stmt (.connect (bit "out") (.mux (bit "full") (bit "in") (bit "full") (.uint 1))),
      .stmt (.connect (bit "full") (bit "in"))]

theorem ctrlRegs_exact_directSelect :
    directSelect.CtrlRegsExact ∧ directSelect.ctrlRegs = some [bitRegister "full"] := by
  have closed : directSelect.Closed := ⟨by decide, by decide⟩
  have plain : directSelect.Plain := by
    unfold Module.Plain
    decide
  refine ⟨(ctrlRegs_exact_iff closed plain).mpr ?_, by rfl⟩
  intro reg isReg _
  have same : reg = bitRegister "full" := by
    have regs : directSelect.registers = [bitRegister "full"] := by rfl
    rw [regs] at isReg
    exact List.mem_singleton.mp isReg
  have select : (⟨bit "full", bit "in", bit "full", .uint 1⟩ : Mux) ∈ directSelect.muxes := by
    decide
  rw [same]
  exact ⟨_, select, "full", List.mem_singleton_self "full", Relation.ReflTransGen.refl⟩

/-- The select reads the register `full` back from the output port `valid`, as queues do. -/
def readBack : Module where
  name := "ReadBack"
  ports := bitPorts
  body :=
    [.stmt (.defRegister (bitRegister "full")), .stmt (.connect (bit "valid") (bit "full")),
      .stmt (.connect (bit "out") (.mux (bit "valid") (bit "in") (bit "full") (.uint 1))),
      .stmt (.connect (bit "full") (bit "in"))]

/-- The graph misses a register whose value a select reads back from an output port. -/
theorem ctrlRegs_miss_readBack :
    readBack.Closed ∧ readBack.Plain ∧ readBack.ctrlRegs = some [] ∧
      bitRegister "full" ∈ readBack.registers ∧
      readBack.SelectDependsOn Decl.combinational "full" ∧ ¬ readBack.CtrlRegsExact := by
  have closed : readBack.Closed := ⟨by decide, by decide⟩
  have plain : readBack.Plain := by
    unfold Module.Plain
    decide
  have none : readBack.ctrlRegs = some [] := by rfl
  have isReg : bitRegister "full" ∈ readBack.registers := by decide
  have select : (⟨bit "valid", bit "in", bit "full", .uint 1⟩ : Mux) ∈ readBack.muxes := by
    decide
  have port : ("valid", Decl.port ⟨"valid", .output, .uint 1⟩) ∈ readBack.decls := by
    decide
  have drives : Stmt.connect (bit "valid") (bit "full") ∈ readBack.stmts := by decide
  have depends : readBack.SelectDependsOn Decl.combinational "full" := by
    refine ⟨_, select, "valid", List.mem_singleton_self "valid", Relation.ReflTransGen.single ?_⟩
    exact ⟨⟨_, port, rfl⟩, _, drives, bit "full", ⟨rfl, rfl⟩, List.mem_singleton_self "full"⟩
  refine ⟨closed, plain, none, isReg, depends, ?_⟩
  rintro ⟨regs, computed, exact⟩
  rw [none] at computed
  cases computed
  exact absurd ((exact (bitRegister "full")).mpr ⟨isReg, depends⟩) List.not_mem_nil

end Difftest.Firrtl

import Difftest.Data.Xor
import Difftest.Firrtl.Passes

/-!
# Trees of gates

Both `makeXor` and `makeOr` halve a list of expressions until one or two are left and join
the halves by a gate with a wire of its own.  The wires are numbered like the nodes of a
heap, so no two of them have one number.
-/

namespace Difftest.Firrtl

/-- The wire of a node. -/
def gateWire (stem : String) (id : Nat) : String := stem ++ toString id

/-- Different nodes have wires of different names. -/
theorem gateWire_injective (stem : String) : Function.Injective (gateWire stem) := by
  intro id id' same
  have sameDigits : Nat.toDigits 10 id = Nat.toDigits 10 id' :=
    String.ofList_injective ((String.append_right_inj stem).mp same)
  rw [← @Nat.ofDigitChars_ten_toDigits id, sameDigits, Nat.ofDigitChars_ten_toDigits]

/-- A tree of gates of one width over a list of expressions, with the expression that
carries its value and the statements that make it. -/
inductive GateTree (op : PrimOp) (stem : String) (size : Nat) :
    Nat → List Expr → Expr → List Stmt → Prop
  | leaf (id : Nat) (expr : Expr) : GateTree op stem size id [expr] expr []
  | node {id : Nat} {exprs1 exprs2 : List Expr} {top1 top2 : Expr} {stmts1 stmts2 : List Stmt}
      (left : GateTree op stem size (2 * id + 1) exprs1 top1 stmts1)
      (right : GateTree op stem size (2 * id + 2) exprs2 top2 stmts2) :
      GateTree op stem size id (exprs1 ++ exprs2) (uref (gateWire stem id) size)
        (stmts1 ++ stmts2 ++ [.defWire (gateWire stem id) (.uint size),
          .connect (uref (gateWire stem id) size) (.doPrim2 op top1 top2 [] (.uint size))])

namespace GateTree

variable {op : PrimOp} {stem : String} {size id : Nat} {exprs : List Expr} {top : Expr}
  {stmts : List Stmt}

/-- Two expressions under one gate. -/
theorem pair (id : Nat) (first second : Expr) :
    GateTree op stem size id [first, second] (uref (gateWire stem id) size)
      [.defWire (gateWire stem id) (.uint size),
        .connect (uref (gateWire stem id) size) (.doPrim2 op first second [] (.uint size))] :=
  .node (.leaf _ first) (.leaf _ second)

/-- The tree drives wires of its own. -/
theorem target (tree : GateTree op stem size id exprs top stmts) {name : String} {tpe : Ty}
    {expr : Expr} (isConnect : .connect (.ref name tpe) expr ∈ stmts) :
    ∃ tpe, .defWire name tpe ∈ stmts := by
  induction tree with
  | leaf => cases isConnect
  | node _ _ ihLeft ihRight =>
      rcases List.mem_append.mp isConnect with halves | last
      · rcases List.mem_append.mp halves with inLeft | inRight
        · obtain ⟨wire, isWire⟩ := ihLeft inLeft
          exact ⟨wire, List.mem_append_left _ (List.mem_append_left _ isWire)⟩
        · obtain ⟨wire, isWire⟩ := ihRight inRight
          exact ⟨wire, List.mem_append_left _ (List.mem_append_right _ isWire)⟩
      · rcases List.mem_pair.mp last with isWire | same
        · cases isWire
        · cases same
          exact ⟨_, List.mem_append_right _ List.mem_cons_self⟩

/-- The wires have the numbers of different nodes below the root. -/
theorem names (tree : GateTree op stem size id exprs top stmts) :
    ∃ ids : List Nat, (stmts.filterMap Stmt.decl).map Prod.fst = ids.map (gateWire stem) ∧
      ids.Nodup ∧ ∀ node ∈ ids, Descends id node := by
  induction tree with
  | leaf => exact ⟨[], rfl, List.nodup_nil, List.forall_mem_nil _⟩
  | @node id _ _ _ _ _ _ _ _ ihLeft ihRight =>
      obtain ⟨ids1, names1, distinct1, below1⟩ := ihLeft
      obtain ⟨ids2, names2, distinct2, below2⟩ := ihRight
      refine ⟨ids1 ++ ids2 ++ [id], ?_, ?_, ?_⟩
      · rw [List.filterMap_append, List.filterMap_append, List.map_append, List.map_append, names1,
          names2, List.map_append, List.map_append]
        rfl
      · apply List.Nodup.append
        · apply distinct1.append distinct2
          intro node isLeft isRight
          exact (below1 node isLeft).disjoint (below2 node isRight)
        · exact List.nodup_singleton id
        · intro node isBelow isRoot
          rw [List.mem_singleton] at isRoot
          have below : 2 * id + 1 ≤ node := by
            rcases List.mem_append.mp isBelow with isLeft | isRight
            · exact (below1 node isLeft).le
            · exact (Nat.le_succ _).trans (below2 node isRight).le
          omega
      · intro node mem
        rcases List.mem_append.mp mem with isBelow | isRoot
        · rcases List.mem_append.mp isBelow with isLeft | isRight
          · exact (below1 node isLeft).of_left
          · exact (below2 node isRight).of_right
        · rw [List.mem_singleton.mp isRoot]
          exact Descends.refl id

theorem names_nodup (tree : GateTree op stem size id exprs top stmts) :
    ((stmts.filterMap Stmt.decl).map Prod.fst).Nodup := by
  obtain ⟨ids, names, distinct, _⟩ := tree.names
  rw [names]
  exact distinct.map (gateWire_injective stem)

end GateTree

/-! ## Halving -/

section Halves

variable {first second third : Expr} {rest : List Expr}

/-- The half of a list of at least three entries. -/
theorem half_lt : (first :: second :: third :: rest).length / 2 <
      (first :: second :: third :: rest).length :=
  Nat.div_lt_self (Nat.succ_pos _) Nat.one_lt_two

theorem half_pos : 0 < (first :: second :: third :: rest).length / 2 :=
  Nat.div_pos (Nat.le_add_left 2 _) Nat.two_pos

end Halves

/-- The numbers of the nodes of a tree over so many expressions; the first argument bounds
the depth. -/
def gateIds : Nat → Nat → Nat → List Nat
  | 0, _, _ => []
  | fuel + 1, leaves, id =>
      if leaves < 2 then []
      else gateIds fuel (leaves / 2) (2 * id + 1) ++
        gateIds fuel (leaves - leaves / 2) (2 * id + 2) ++ [id]

theorem gateIds_one (fuel id : Nat) : gateIds fuel 1 id = [] := by
  cases fuel with
  | zero => rfl
  | succ fuel => exact if_pos Nat.one_lt_two

/-- The names of the wires of a node and of its halves. -/
theorem names_node {stem : String} {fuel leaves id size : Nat} (several : 2 ≤ leaves)
    {stmts1 stmts2 : List Stmt} {expr : Expr}
    (names1 : (stmts1.filterMap Stmt.decl).map Prod.fst =
      (gateIds fuel (leaves / 2) (2 * id + 1)).map (gateWire stem))
    (names2 : (stmts2.filterMap Stmt.decl).map Prod.fst =
      (gateIds fuel (leaves - leaves / 2) (2 * id + 2)).map (gateWire stem)) :
    ((stmts1 ++ stmts2 ++ [Stmt.defWire (gateWire stem id) (.uint size),
        .connect (uref (gateWire stem id) size) expr]).filterMap Stmt.decl).map Prod.fst =
      (gateIds (fuel + 1) leaves id).map (gateWire stem) := by
  rw [gateIds, if_neg (Nat.not_lt.mpr several), List.filterMap_append, List.filterMap_append,
    List.map_append, List.map_append, List.map_append, List.map_append, names1, names2]
  rfl

/-- `makeXor` makes a tree of any references, when the bound is not below their number. -/
theorem exists_xorTree {mName : String} {size fuel id : Nat} {padRefs : List Expr}
    (nonempty : padRefs ≠ []) (enough : padRefs.length ≤ fuel) :
    ∃ top stmts, InstrCov.makeXor mName size fuel padRefs id = some (top, stmts) ∧
      GateTree .xor (mName ++ "_xor") size id padRefs top stmts ∧
      (stmts.filterMap Stmt.decl).map Prod.fst =
        (gateIds fuel padRefs.length id).map (gateWire (mName ++ "_xor")) := by
  have wire : ∀ id, mName ++ ("_xor" ++ toString id) = gateWire (mName ++ "_xor") id :=
    fun id => String.append_assoc.symm
  induction fuel generalizing padRefs id with
  | zero => exact absurd (List.length_eq_zero_iff.mp (Nat.le_zero.mp enough)) nonempty
  | succ fuel inductionHypothesis =>
      match padRefs, enough with
      | [], _ => exact absurd rfl nonempty
      | [single], _ => exact ⟨single, [], rfl, .leaf id single, rfl⟩
      | [first, second], _ =>
          refine ⟨_, _, rfl, ?_⟩
          rw [wire]
          refine ⟨.pair id first second, ?_⟩
          apply @names_node _ fuel 2 id _ le_rfl [] []
          · rw [gateIds_one]
            rfl
          · rw [gateIds_one]
            rfl
      | first :: second :: third :: rest, enough =>
          have shorter := @half_lt first second third rest
          have positive := @half_pos first second third rest
          obtain ⟨xor1, stmts1, made1, left, names1⟩ := @inductionHypothesis (2 * id + 1)
            ((first :: second :: third :: rest).take
              ((first :: second :: third :: rest).length / 2))
            (by simp) (by rw [List.length_take]; omega)
          obtain ⟨xor2, stmts2, made2, right, names2⟩ := @inductionHypothesis (2 * id + 2)
            ((first :: second :: third :: rest).drop
              ((first :: second :: third :: rest).length / 2))
            (by simpa using shorter) (by rw [List.length_drop]; omega)
          have tree := left.node right
          rw [List.take_append_drop] at tree
          rw [List.length_take_of_le shorter.le] at names1
          rw [List.length_drop] at names2
          refine ⟨_, _, ?_, tree, names_node (by simp) names1 names2⟩
          rw [← wire]
          simp only [InstrCov.makeXor, made1, made2, Option.bind_some, Option.map_some]

/-- What `makeXor` returns is a tree. -/
theorem xorTree_of_makeXor {mName : String} {size : Nat} {padRefs : List Expr} {top : Expr}
    {stmts : List Stmt}
    (made : InstrCov.makeXor mName size padRefs.length padRefs 0 = some (top, stmts)) :
    GateTree .xor (mName ++ "_xor") size 0 padRefs top stmts ∧
      (stmts.filterMap Stmt.decl).map Prod.fst =
        (gateIds padRefs.length padRefs.length 0).map (gateWire (mName ++ "_xor")) := by
  have nonempty : padRefs ≠ [] := by
    rintro rfl
    cases made
  obtain ⟨_, _, made', tree, names⟩ := @exists_xorTree mName size _ 0 padRefs nonempty le_rfl
  rw [made] at made'
  cases made'
  exact ⟨tree, names⟩

/-- `makeOr` makes a tree of any expressions, when the bound is not below their number. -/
theorem exists_orTree {mName : String} {fuel id : Nat} {stopEns : List Expr}
    (nonempty : stopEns ≠ []) (enough : stopEns.length ≤ fuel) :
    ∃ top stmts, InstrAssert.makeOr mName fuel stopEns id = (some top, stmts) ∧
      GateTree .or (mName ++ "_or") 1 id stopEns top stmts ∧
      (stmts.filterMap Stmt.decl).map Prod.fst =
        (gateIds fuel stopEns.length id).map (gateWire (mName ++ "_or")) := by
  have wire : ∀ id, mName ++ ("_or" ++ toString id) = gateWire (mName ++ "_or") id :=
    fun id => String.append_assoc.symm
  induction fuel generalizing stopEns id with
  | zero => exact absurd (List.length_eq_zero_iff.mp (Nat.le_zero.mp enough)) nonempty
  | succ fuel inductionHypothesis =>
      match stopEns, enough with
      | [], _ => exact absurd rfl nonempty
      | [single], _ => exact ⟨single, [], rfl, .leaf id single, rfl⟩
      | [first, second], _ =>
          refine ⟨_, _, rfl, ?_⟩
          rw [wire]
          refine ⟨.pair id first second, ?_⟩
          apply @names_node _ fuel 2 id _ le_rfl [] []
          · rw [gateIds_one]
            rfl
          · rw [gateIds_one]
            rfl
      | first :: second :: third :: rest, enough =>
          have shorter := @half_lt first second third rest
          have positive := @half_pos first second third rest
          obtain ⟨or1, stmts1, made1, left, names1⟩ := @inductionHypothesis (2 * id + 1)
            ((first :: second :: third :: rest).take
              ((first :: second :: third :: rest).length / 2))
            (by simp) (by rw [List.length_take]; omega)
          obtain ⟨or2, stmts2, made2, right, names2⟩ := @inductionHypothesis (2 * id + 2)
            ((first :: second :: third :: rest).drop
              ((first :: second :: third :: rest).length / 2))
            (by simpa using shorter) (by rw [List.length_drop]; omega)
          have tree := left.node right
          rw [List.take_append_drop] at tree
          rw [List.length_take_of_le shorter.le] at names1
          rw [List.length_drop] at names2
          refine ⟨_, _, ?_, tree, names_node (by simp) names1 names2⟩
          rw [← wire]
          simp only [InstrAssert.makeOr, made1, made2]

/-- Every node has a number of its own. -/
theorem gateIds_nodup (leaves : Nat) : (gateIds leaves leaves 0).Nodup := by
  cases leaves with
  | zero => exact List.nodup_nil
  | succ leaves =>
      obtain ⟨_, _, _, tree, names⟩ := @exists_orTree "" (leaves + 1) 0
        (List.replicate (leaves + 1) (.uintLiteral 0 1)) (by simp) (by simp)
      have distinct := tree.names_nodup
      rw [names, List.length_replicate] at distinct
      exact distinct.of_map

end Difftest.Firrtl

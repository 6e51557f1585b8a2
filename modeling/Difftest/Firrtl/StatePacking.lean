import Difftest.Data.Xor
import Difftest.Firrtl.Completeness
import Difftest.Firrtl.CovSum
import Difftest.Firrtl.GateTree

/-!
# Packing the state

Every tracked element gets an interval inside the state register, and the value wired to the
register is the exclusive or of all elements shifted to their intervals.  While the elements fit
side by side the intervals partition the register, so the value determines every element.
-/

namespace Difftest.Firrtl

open Difftest

/-! ## Elements -/

/-- Registers and selects that a module may track. -/
structure Tracks (regs : List Register) (ctrls : List Expr) : Prop where
  registers : regs.Nodup
  widths : ∀ reg ∈ regs, 1 ≤ regWidth reg ∧ regWidth reg < maxStateSize
  selects : ctrls.Nodup
  oneBit : ∀ cond ∈ ctrls, cond.tpe = .uint 1
  nonempty : regs ≠ [] ∨ ctrls ≠ []

/-- The elements of tracked registers and selects, in the order of `getRegState`. -/
def trackedElems (regs : List Register) (ctrls : List Expr) : List Elem :=
  regs.map Elem.register ++ ctrls.map Elem.ctrl

namespace Elem

/-- The value of an element. -/
def value (env : Env) : Elem → Int
  | register reg => env [reg.name]
  | ctrl cond => cond.eval env

/-- The type of an element. -/
def tpe : Elem → Ty
  | register reg => reg.tpe
  | ctrl _ => .uint 1

/-- The bits of an element. -/
def bits (env : Env) (elem : Elem) : Nat := lowBits elem.width (elem.value env)

/-- The value of an element is one of its type. -/
def Typed (env : Env) (elem : Elem) : Prop := elem.tpe.fit (elem.value env) = elem.value env

end Elem

theorem width_tpe (elem : Elem) : elem.tpe.width = elem.width := by
  cases elem with
  | register reg => rfl
  | ctrl cond => rfl

theorem lowBits_lt (width : Nat) (value : Int) : lowBits width value < 2 ^ width := by
  have positive : (0 : Int) < 2 ^ width := Int.pow_pos (by decide)
  have bound := Int.emod_lt_of_pos value positive
  have nonneg := Int.emod_nonneg value positive.ne'
  rw [lowBits, Int.toNat_lt nonneg, Nat.cast_pow]
  exact bound

/-- The low bits as a number. -/
theorem natCast_lowBits (width : Nat) (value : Int) :
    (lowBits width value : Int) = value % 2 ^ width :=
  Int.toNat_of_nonneg (Int.emod_nonneg value (Int.pow_pos (by decide)).ne')

/-- A value of a type is determined by its bits. -/
theorem eq_of_lowBits {tpe : Ty} {value value' : Int} (sized : 0 < tpe.width)
    (typed : tpe.fit value = value) (typed' : tpe.fit value' = value')
    (same : lowBits tpe.width value = lowBits tpe.width value') : value = value' := by
  have sameMod : value % 2 ^ tpe.width = value' % 2 ^ tpe.width := by
    rw [← natCast_lowBits, ← natCast_lowBits, same]
  cases tpe with
  | uint width =>
      rw [Ty.width] at sameMod
      rw [← typed, ← typed', Ty.fit, Ty.fit, sameMod]
  | sint width =>
      have modulus : ((2 ^ width : Nat) : Int) = 2 ^ width := Nat.cast_pow 2 width
      rw [Ty.width, ← modulus] at sameMod
      rw [← typed, ← typed', Ty.fit, Ty.fit, ← Int.emod_bmod, sameMod, Int.emod_bmod]
  | clock => cases sized
  | asyncReset => cases sized
  | analog width => cases sized
  | unknown => cases sized

namespace Tracks

variable {regs : List Register} {ctrls : List Expr}

theorem elem_cases {elem : Elem} (mem : elem ∈ trackedElems regs ctrls) :
    (∃ reg ∈ regs, elem = .register reg) ∨ ∃ cond ∈ ctrls, elem = .ctrl cond := by
  rcases List.mem_append.mp mem with isRegister | isCtrl
  · rcases List.mem_map.mp isRegister with ⟨reg, isReg, rfl⟩
    exact Or.inl ⟨reg, isReg, rfl⟩
  · rcases List.mem_map.mp isCtrl with ⟨cond, isCond, rfl⟩
    exact Or.inr ⟨cond, isCond, rfl⟩

/-- Elements have a bit at least and fit into the largest state. -/
theorem width_bounds (tracks : Tracks regs ctrls) :
    ∀ elem ∈ trackedElems regs ctrls, 0 < elem.width ∧ elem.width ≤ maxStateSize := by
  intro elem mem
  rcases elem_cases mem with ⟨reg, isReg, rfl⟩ | ⟨cond, _, rfl⟩
  · have bounds := tracks.widths reg isReg
    exact ⟨bounds.1, bounds.2.le⟩
  · rw [Elem.width]
    exact ⟨by decide, by decide⟩

theorem nodup_elems (tracks : Tracks regs ctrls) : (trackedElems regs ctrls).Nodup := by
  apply List.Nodup.append
  · exact tracks.registers.map fun reg reg' same => Elem.register.inj same
  · exact tracks.selects.map fun cond cond' same => Elem.ctrl.inj same
  · intro elem isRegister isCtrl
    rcases List.mem_map.mp isRegister with ⟨reg, _, rfl⟩
    rcases List.mem_map.mp isCtrl with ⟨cond, _, same⟩
    cases same

theorem elems_ne_nil (tracks : Tracks regs ctrls) : trackedElems regs ctrls ≠ [] := by
  intro empty
  rcases List.append_eq_nil_iff.mp empty with ⟨noRegs, noCtrls⟩
  rcases tracks.nonempty with hasRegs | hasCtrls
  · exact hasRegs (List.map_eq_nil_iff.mp noRegs)
  · exact hasCtrls (List.map_eq_nil_iff.mp noCtrls)

end Tracks

/-! ## Intervals -/

/-- The interval of an entry contains the bit. -/
def Occupies (entry : Elem × Nat) (bit : Nat) : Prop :=
  entry.2 ≤ bit ∧ bit < entry.2 + entry.1.width

theorem mem_packOffsets {elems : List Elem} {offset : Nat} {entry : Elem × Nat}
    (mem : entry ∈ packOffsets offset elems) :
    offset ≤ entry.2 ∧ entry.2 + entry.1.width ≤ offset + (elems.map Elem.width).sum := by
  induction elems generalizing offset with
  | nil => cases mem
  | cons elem elems inductionHypothesis =>
      rw [List.map_cons, List.sum_cons]
      rcases List.mem_cons.mp mem with rfl | later
      · constructor
        · exact le_rfl
        · dsimp only
          omega
      · have bounds := inductionHypothesis later
        constructor
        · omega
        · omega

/-- Elements side by side occupy every bit once. -/
theorem existsUnique_packOffsets {elems : List Elem} {offset bit : Nat} (low : offset ≤ bit)
    (high : bit < offset + (elems.map Elem.width).sum) :
    ∃! entry, entry ∈ packOffsets offset elems ∧ Occupies entry bit := by
  induction elems generalizing offset with
  | nil =>
      rw [List.map_nil, List.sum_nil] at high
      omega
  | cons elem elems inductionHypothesis =>
      rw [List.map_cons, List.sum_cons] at high
      by_cases inFirst : bit < offset + elem.width
      · refine ⟨(elem, offset), ⟨List.mem_cons_self, low, inFirst⟩, ?_⟩
        rintro entry ⟨mem, occupies⟩
        rcases List.mem_cons.mp mem with rfl | later
        · rfl
        · have bound := (mem_packOffsets later).1
          have start := occupies.1
          omega
      · have start : offset + elem.width ≤ bit := Nat.le_of_not_lt inFirst
        rcases inductionHypothesis start (by omega) with ⟨entry, ⟨mem, occupies⟩, unique⟩
        refine ⟨entry, ⟨List.mem_cons_of_mem _ mem, occupies⟩, ?_⟩
        rintro other ⟨mem, occupies⟩
        rcases List.mem_cons.mp mem with rfl | later
        · exact absurd occupies.2 inFirst
        · exact unique other ⟨later, occupies⟩

/-- Elements that are packed lie side by side. -/
theorem map_shift_packOffsets (value : Elem → Nat) (offset : Nat) (elems : List Elem) :
    (packOffsets offset elems).map (fun entry => value entry.1 <<< entry.2) =
      sideBySide Elem.width value offset elems := by
  induction elems generalizing offset with
  | nil => rfl
  | cons elem elems inductionHypothesis =>
      rw [packOffsets, List.map_cons, sideBySide, inductionHypothesis]

/-- Offsets drawn at random keep the elements inside. -/
theorem mem_drawOffsets {draws : List Nat} {elems : List Elem} {entry : Elem × Nat}
    (narrow : ∀ elem ∈ elems, elem.width ≤ maxStateSize) (mem : entry ∈ drawOffsets draws elems) :
    entry.2 + entry.1.width ≤ maxStateSize := by
  rcases List.mem_map.mp mem with ⟨⟨elem, i⟩, isIndexed, rfl⟩
  have bound := narrow elem (List.fst_mem_of_mem_zipIdx isIndexed)
  have drawn : draws.getD i 0 % (maxStateSize - elem.width + 1) < maxStateSize - elem.width + 1 :=
    Nat.mod_lt _ (Nat.succ_pos _)
  dsimp only
  omega

/-- The sum of positive widths is positive. -/
theorem sum_width_pos {elems : List Elem} (positive : ∀ elem ∈ elems, 0 < elem.width)
    (nonempty : elems ≠ []) : 0 < (elems.map Elem.width).sum := by
  cases elems with
  | nil => exact absurd rfl nonempty
  | cons elem elems =>
      rw [List.map_cons, List.sum_cons]
      exact Nat.add_pos_left (positive elem List.mem_cons_self) _

/-- What the offsets of `getRegState` are good for. -/
structure Packed (elems : List Elem) (size : Nat) (offsets : List (Elem × Nat)) : Prop where
  /-- Every element gets one offset. -/
  covers : ∀ elem ∈ elems, ∃! offset, (elem, offset) ∈ offsets
  /-- Nothing else gets one. -/
  only : offsets.map Prod.fst = elems
  /-- Every interval lies in the state. -/
  inside : ∀ entry ∈ offsets, entry.2 + entry.1.width ≤ size
  /-- Intervals of elements that fit side by side partition the state. -/
  partition : (elems.map Elem.width).sum ≤ maxStateSize →
    ∀ bit < size, ∃! entry, entry ∈ offsets ∧ Occupies entry bit
  /-- Different valuations of such elements give different states. -/
  injective : (elems.map Elem.width).sum ≤ maxStateSize → ∀ value value' : Elem → Nat,
    (∀ elem ∈ elems, value elem < 2 ^ elem.width) →
    (∀ elem ∈ elems, value' elem < 2 ^ elem.width) →
    xorAll (offsets.map fun entry => value entry.1 <<< entry.2) =
      xorAll (offsets.map fun entry => value' entry.1 <<< entry.2) →
    ∀ elem ∈ elems, value elem = value' elem

/-- An element of a list of pairs with distinct first components has one partner. -/
theorem existsUnique_of_map_fst {elems : List Elem} {offsets : List (Elem × Nat)}
    (only : offsets.map Prod.fst = elems) (distinct : elems.Nodup) :
    ∀ elem ∈ elems, ∃! offset, (elem, offset) ∈ offsets := by
  intro elem mem
  rw [← only] at mem distinct
  rcases List.mem_map.mp mem with ⟨⟨elem', offset⟩, isEntry, rfl⟩
  refine ⟨offset, isEntry, ?_⟩
  intro offset' isEntry'
  have same := List.inj_on_of_nodup_map distinct isEntry' isEntry rfl
  exact congrArg Prod.snd same

/-- The offsets of `getRegState` for every outcome of the draws. -/
theorem getRegState_packed {regs : List Register} {ctrls : List Expr}
    (tracks : Tracks regs ctrls) (draws : List Nat) :
    Packed (trackedElems regs ctrls) (getRegState draws (trackedElems regs ctrls)).1
      (getRegState draws (trackedElems regs ctrls)).2 := by
  have bounds := tracks.width_bounds
  have positive := sum_width_pos (fun elem mem => (bounds elem mem).1) tracks.elems_ne_nil
  have only := map_fst_getRegState draws fun elem mem => (bounds elem mem).1
  have small : ((trackedElems regs ctrls).map Elem.width).sum ≤ maxStateSize →
      getRegState draws (trackedElems regs ctrls) =
        (((trackedElems regs ctrls).map Elem.width).sum,
          packOffsets 0 (trackedElems regs ctrls)) := by
    intro fits
    rw [getRegState, if_neg positive.ne', if_pos fits]
  constructor
  case covers => exact existsUnique_of_map_fst only tracks.nodup_elems
  case only => exact only
  case inside =>
    intro entry mem
    by_cases fits : ((trackedElems regs ctrls).map Elem.width).sum ≤ maxStateSize
    · rw [small fits] at mem ⊢
      have bound := (mem_packOffsets mem).2
      rwa [Nat.zero_add] at bound
    · rw [getRegState, if_neg positive.ne', if_neg fits] at mem ⊢
      exact mem_drawOffsets (fun elem mem => (bounds elem mem).2) mem
  case partition =>
    intro fits bit high
    rw [small fits] at high ⊢
    exact existsUnique_packOffsets (Nat.zero_le bit) (by rwa [Nat.zero_add])
  case injective =>
    intro fits value value' bounded bounded' same
    rw [small fits, map_shift_packOffsets, map_shift_packOffsets] at same
    exact sideBySide_injective bounded bounded' same

/-! ## Wires -/

/-- The values of a cycle obey statements that connect no register. -/
def Settled (env : Env) (stmts : List Stmt) : Prop := ∀ stmt ∈ stmts, stmt.Holds [] env env

/-- The names that statements declare. -/
def declaredNames (stmts : List Stmt) : List String := (stmts.filterMap Stmt.decl).map Prod.fst

theorem Settled.append_iff {env : Env} {stmts stmts' : List Stmt} :
    Settled env (stmts ++ stmts') ↔ Settled env stmts ∧ Settled env stmts' :=
  List.forall_mem_append

/-- A connected wire has the value of the expression. -/
theorem Settled.connect {env : Env} {stmts : List Stmt} {name : String} {width : Nat} {expr : Expr}
    (settled : Settled env stmts) (mem : .connect (uref name width) expr ∈ stmts) :
    env [name] = (Ty.uint width).fit (expr.eval env) :=
  (settled _ mem).2 nofun

theorem lowBits_fit (width : Nat) (value : Int) :
    lowBits width ((Ty.uint width).fit value) = lowBits width value := by
  rw [lowBits, Ty.fit, Int.emod_emod_of_dvd _ dvd_rfl, lowBits]

theorem lowBits_natCast {width value : Nat} (small : value < 2 ^ width) :
    lowBits width (value : Int) = value := by
  have modulus : ((2 ^ width : Nat) : Int) = 2 ^ width := Nat.cast_pow 2 width
  rw [lowBits, ← modulus, ← Int.natCast_emod, Int.toNat_natCast, Nat.mod_eq_of_lt small]

namespace InstrCov

/-! ### Shifted elements -/

/-- The elements are read under their names with their own widths. -/
theorem widths_namedOffsets (offsets : List (Elem × Nat)) (i : Nat) :
    (namedOffsets i offsets).map (fun named => (named.1.2.width, named.2)) =
      offsets.map fun entry => (entry.1.width, entry.2) := by
  induction offsets generalizing i with
  | nil => rfl
  | cons entry offsets inductionHypothesis =>
      rcases entry with ⟨reg | cond, offset⟩
      · rw [namedOffsets, List.map_cons, inductionHypothesis, List.map_cons]
        rfl
      · rw [namedOffsets, List.map_cons, inductionHypothesis, List.map_cons]
        rfl

/-- What is read under the names are the bits of the elements. -/
theorem bits_namedOffsets {env : Env} {offsets : List (Elem × Nat)} {i : Nat}
    (settled : Settled env (condStmts i offsets)) :
    (namedOffsets i offsets).map
        (fun named => lowBits named.1.2.width (env [named.1.1]) <<< named.2) =
      offsets.map fun entry => entry.1.bits env <<< entry.2 := by
  induction offsets generalizing i with
  | nil => rfl
  | cons entry offsets inductionHypothesis =>
      rcases entry with ⟨reg | cond, offset⟩
      · rw [namedOffsets, List.map_cons, inductionHypothesis settled, List.map_cons]
        rfl
      · rw [condStmts, Settled.append_iff] at settled
        have select := settled.1.connect (List.mem_cons_of_mem _ List.mem_cons_self)
        have bits : lowBits 1 (env ["mux_cond_" ++ toString i]) = (Elem.ctrl cond).bits env := by
          rw [select, lowBits_fit]
          rfl
        rw [namedOffsets, List.map_cons, inductionHypothesis settled.2, List.map_cons, ← bits]
        rfl

/-- An element that ends inside the state can be padded. -/
theorem exists_padStmts {size : Nat} {named : (String × Ty) × Nat}
    (inside : named.1.2.width + named.2 ≤ size) :
    ∃ padded, padStmts size named = some padded := by
  rw [padStmts]
  simp only [if_neg (Nat.not_lt.mpr inside)]
  exact ⟨_, rfl⟩

/-- Shifting keeps the bits of an element that ends inside the state. -/
theorem shl_mod {width offset size : Nat} (inside : width + offset ≤ size) (value : Int) :
    (Ty.uint (width + offset)).fit ((Ty.uint size).fit (value * 2 ^ offset)) =
      (lowBits width value <<< offset : Nat) := by
  have positive : (0 : Int) < 2 ^ offset := Int.pow_pos (by decide)
  rw [Ty.fit, Ty.fit, Int.emod_emod_of_dvd _ (pow_dvd_pow 2 inside), Nat.add_comm width offset,
    Int.pow_add, Int.mul_comm value, Int.mul_emod_mul_of_pos _ _ positive, Nat.shiftLeft_eq,
    Nat.cast_mul, natCast_lowBits, Nat.cast_pow, Int.mul_comm]
  rfl

theorem lowBits_shift_lt (width offset : Nat) (value : Int) :
    lowBits width value <<< offset < 2 ^ (width + offset) := by
  rw [Nat.shiftLeft_eq, Nat.pow_add]
  exact Nat.mul_lt_mul_of_pos_right (lowBits_lt width value) (Nat.two_pow_pos offset)

/-- The padded wire of an element carries its bits at its offset. -/
theorem lowBits_padRef {env : Env} {size : Nat} {named : (String × Ty) × Nat} {padRef : Expr}
    {stmts : List Stmt} (padded : padStmts size named = some (padRef, stmts))
    (settled : Settled env stmts) :
    lowBits size (padRef.eval env) =
      lowBits named.1.2.width (env [named.1.1]) <<< named.2 := by
  rw [padStmts] at padded
  split at padded
  · cases padded
  · rename_i inside
    cases padded
    have shl := settled.connect (List.mem_cons_of_mem _ List.mem_cons_self)
    have pad := settled.connect
      (List.mem_cons_of_mem _ (List.mem_cons_of_mem _ (List.mem_cons_of_mem _ List.mem_cons_self)))
    have bound := lowBits_shift_lt named.1.2.width named.2 (env [named.1.1])
    have shifted : env [named.1.1 ++ "_shl"] =
        (lowBits named.1.2.width (env [named.1.1]) <<< named.2 : Nat) := by
      rw [shl]
      exact shl_mod (Nat.le_of_not_lt inside) _
    have wide := bound.trans_le (Nat.pow_le_pow_right (by decide) (Nat.le_of_not_lt inside))
    rw [uref, Expr.eval, pad, lowBits_fit]
    split
    · rw [uref, Expr.eval, shifted, lowBits_natCast wide]
    · have zeros : ∀ width pad, lowBits width ((Expr.uintLiteral 0 pad).eval env) = 0 := by
        intro width pad
        rw [Expr.eval, Ty.fit, Nat.cast_zero, Int.zero_emod]
        exact lowBits_natCast (Nat.two_pow_pos width)
      rw [Expr.eval, lowBits_fit, PrimOp.apply2, zeros, uref, Expr.eval, shifted, Expr.tpe, Ty.bits,
        lowBits_natCast bound, Nat.cast_zero, Int.zero_mul, Int.zero_add, lowBits_natCast wide]

/-- The offsets of a list of elements inside the state can be wired. -/
theorem exists_makeOffset {offsets : List (Elem × Nat)} {size : Nat}
    (inside : ∀ entry ∈ offsets, entry.2 + entry.1.width ≤ size) :
    ∃ padRefs stmts, makeOffset offsets size = some (padRefs, stmts) := by
  have returns : ∃ padded, (namedOffsets 0 offsets).mapM (padStmts size) = some padded := by
    apply exists_mapM_eq_some
    intro named mem
    have widths : (named.1.2.width, named.2) ∈
        offsets.map fun entry => (entry.1.width, entry.2) := by
      rw [← widths_namedOffsets offsets 0]
      exact List.mem_map_of_mem mem
    rcases List.mem_map.mp widths with ⟨entry, isEntry, same⟩
    apply exists_padStmts
    rw [← (Prod.mk.inj same).1, ← (Prod.mk.inj same).2, Nat.add_comm]
    exact inside entry isEntry
  rcases returns with ⟨padded, traversed⟩
  rw [makeOffset, traversed]
  exact ⟨_, _, rfl⟩

/-- The wires of the elements carry them at their offsets. -/
theorem lowBits_padRefs {env : Env} {offsets : List (Elem × Nat)} {size : Nat}
    {padRefs : List Expr} {stmts : List Stmt}
    (made : makeOffset offsets size = some (padRefs, stmts)) (settled : Settled env stmts) :
    padRefs.map (fun padRef => lowBits size (padRef.eval env)) =
      offsets.map fun entry => entry.1.bits env <<< entry.2 := by
  rcases Option.map_eq_some_iff.mp made with ⟨padded, traversed, same⟩
  cases same
  rw [Settled.append_iff] at settled
  rw [← bits_namedOffsets settled.1, List.map_map]
  have wired := settled.2
  clear settled made
  have pointwise := forall₂_of_mapM_eq_some traversed
  clear traversed
  generalize namedOffsets 0 offsets = nameds at pointwise
  induction pointwise with
  | nil => rfl
  | cons first rest inductionHypothesis =>
      rw [List.map_cons, List.flatten_cons, Settled.append_iff] at wired
      rw [List.map_cons, List.map_cons, inductionHypothesis wired.2]
      exact congrArg (· :: _) (lowBits_padRef first wired.1)

theorem length_padRefs {offsets : List (Elem × Nat)} {size : Nat} {padRefs : List Expr}
    {stmts : List Stmt} (made : makeOffset offsets size = some (padRefs, stmts)) :
    padRefs.length = offsets.length := by
  rcases Option.map_eq_some_iff.mp made with ⟨padded, traversed, same⟩
  cases same
  have widths := congrArg List.length (widths_namedOffsets offsets 0)
  rw [List.length_map, List.length_map] at widths
  rw [List.length_map, mapM_length traversed, widths]

/-! ### The tree -/

/-- What the tree made from some references computes. -/
structure XorTree (mName : String) (size : Nat) (padRefs : List Expr) (id : Nat) (top : Expr)
    (stmts : List Stmt) : Prop where
  /-- The top carries the exclusive or of the references. -/
  wired : ∀ env, Settled env stmts →
    lowBits size (top.eval env) = xorAll (padRefs.map fun padRef => lowBits size (padRef.eval env))
  /-- The wires have the numbers of different nodes below the root. -/
  named : ∃ ids : List Nat,
    declaredNames stmts = ids.map (fun id => mName ++ ("_xor" ++ toString id)) ∧
      ids.Nodup ∧ ∀ node ∈ ids, Descends id node

/-- A wire with the exclusive or of two expressions. -/
theorem lowBits_xor {env : Env} {name : String} {size : Nat} {first second : Expr}
    {stmts : List Stmt} (settled : Settled env stmts)
    (mem : .connect (uref name size) (.doPrim2 .xor first second [] (.uint size)) ∈ stmts) :
    lowBits size ((uref name size).eval env) =
      lowBits size (first.eval env) ^^^ lowBits size (second.eval env) := by
  have small := Nat.xor_lt_two_pow (lowBits_lt size (first.eval env))
    (lowBits_lt size (second.eval env))
  rw [uref, Expr.eval, settled.connect mem, lowBits_fit, Expr.eval, lowBits_fit, PrimOp.apply2,
    Ty.bits, lowBits_natCast small]

/-- A tree of exclusive ors computes the exclusive or of its leaves. -/
theorem XorTree.of_gateTree {mName : String} {size id : Nat} {padRefs : List Expr} {top : Expr}
    {stmts : List Stmt} (tree : GateTree .xor (mName ++ "_xor") size id padRefs top stmts) :
    XorTree mName size padRefs id top stmts := by
  constructor
  case wired =>
    intro env settled
    induction tree with
    | leaf => rw [List.map_singleton, xorAll_cons, xorAll_nil, Nat.xor_zero]
    | node _ _ ihLeft ihRight =>
        rw [Settled.append_iff, Settled.append_iff] at settled
        rw [lowBits_xor settled.2 (List.mem_cons_of_mem _ List.mem_cons_self),
          ihLeft settled.1.1, ihRight settled.1.2, List.map_append, xorAll_append]
  case named =>
    obtain ⟨ids, names, distinct, below⟩ := tree.names
    refine ⟨ids, ?_, distinct, below⟩
    rw [declaredNames, names]
    apply List.map_congr_left
    exact fun id _ => String.append_assoc

/-- `makeXor` makes a tree of any references, when the bound is not below their number. -/
theorem exists_makeXor {mName : String} {size fuel id : Nat} {padRefs : List Expr}
    (nonempty : padRefs ≠ []) (enough : padRefs.length ≤ fuel) :
    ∃ top stmts, makeXor mName size fuel padRefs id = some (top, stmts) ∧
      XorTree mName size padRefs id top stmts ∧ (declaredNames stmts).Nodup := by
  obtain ⟨top, stmts, made, tree, _⟩ := @exists_xorTree mName size fuel id padRefs nonempty enough
  exact ⟨top, stmts, made, .of_gateTree tree, tree.names_nodup⟩

/-! ## The state -/

/-- What the statements that feed the state register compute. -/
structure Carries (elems : List Elem) (size : Nat) (offsets : List (Elem × Nat))
    (offsetStmts xorStmts : List Stmt) (top : Expr) : Prop where
  /-- Every wire of the tree is named once. -/
  named : (declaredNames xorStmts).Nodup
  /-- The value is the exclusive or of all elements at their offsets. -/
  wired : ∀ env, Settled env (offsetStmts ++ xorStmts) →
    (Ty.uint size).fit (top.eval env) =
      (xorAll (offsets.map fun entry => entry.1.bits env <<< entry.2) : Nat)
  /-- Values of elements that fit side by side are determined by it. -/
  injective : (elems.map Elem.width).sum ≤ maxStateSize → ∀ env env',
    Settled env (offsetStmts ++ xorStmts) → Settled env' (offsetStmts ++ xorStmts) →
    (∀ elem ∈ elems, elem.Typed env) → (∀ elem ∈ elems, elem.Typed env') →
    (Ty.uint size).fit (top.eval env) = (Ty.uint size).fit (top.eval env') →
    ∀ elem ∈ elems, elem.value env = elem.value env'

/-- The offsets of `getRegState` lie inside the state, and the statements of `stateConnect` feed it
with the exclusive or of all elements, which determines them when they fit side by side. -/
theorem stateConnect_packs {regs : List Register} {ctrls : List Expr} (tracks : Tracks regs ctrls)
    (draws : List Nat) (mName regState : String) :
    let elems := trackedElems regs ctrls
    let size := (getRegState draws elems).1
    let offsets := (getRegState draws elems).2
    Packed elems size offsets ∧
      ∃ padRefs offsetStmts top xorStmts,
        makeOffset offsets size = some (padRefs, offsetStmts) ∧
          makeXor mName size padRefs.length padRefs 0 = some (top, xorStmts) ∧
          stateConnect mName regState offsets size =
            some (offsetStmts ++ xorStmts ++ [.connect (uref regState size) top]) ∧
          Carries elems size offsets offsetStmts xorStmts top := by
  intro elems size offsets
  have packed : Packed elems size offsets := getRegState_packed tracks draws
  rcases exists_makeOffset packed.inside with ⟨padRefs, offsetStmts, madeOffset⟩
  have nonempty : padRefs ≠ [] := by
    intro none
    have count := length_padRefs madeOffset
    rw [none, List.length_nil] at count
    have only : offsets.map Prod.fst = trackedElems regs ctrls := packed.only
    rw [List.length_eq_zero_iff.mp count.symm, List.map_nil] at only
    exact tracks.elems_ne_nil only.symm
  rcases @exists_makeXor mName size _ 0 padRefs nonempty le_rfl with
    ⟨top, xorStmts, madeXor, tree, distinct⟩
  have wired : ∀ env, Settled env (offsetStmts ++ xorStmts) →
      lowBits size (top.eval env) =
        xorAll (offsets.map fun entry => entry.1.bits env <<< entry.2) := by
    intro env settled
    rw [Settled.append_iff] at settled
    rw [tree.wired env settled.2, lowBits_padRefs madeOffset settled.1]
  refine ⟨packed, padRefs, offsetStmts, top, xorStmts, madeOffset, madeXor, ?_, ?_⟩
  · simp only [stateConnect, madeOffset, madeXor, Option.bind_some, Option.map_some]
  · constructor
    case named => exact distinct
    case wired =>
      intro env settled
      rw [← wired env settled, natCast_lowBits, Ty.fit]
    case injective =>
      intro fits env env' settled settled' typed typed' same elem mem
      rw [Ty.fit, Ty.fit, ← natCast_lowBits, ← natCast_lowBits, Nat.cast_inj, wired env settled,
        wired env' settled'] at same
      have sameBits := packed.injective fits (Elem.bits env) (Elem.bits env')
        (fun elem _ => lowBits_lt elem.width _) (fun elem _ => lowBits_lt elem.width _) same
        elem mem
      have sized : 0 < elem.tpe.width := by
        rw [width_tpe]
        exact (tracks.width_bounds elem mem).1
      apply eq_of_lowBits sized (typed elem mem) (typed' elem mem)
      rw [width_tpe]
      exact sameBits

/-! ### Three elements -/

/-- An unsigned and a signed register. -/
def code : Register := defRegister "code" "" "clock" 2

def delta : Register := { defRegister "delta" "" "clock" 3 with tpe := .sint 3 }

/-- A select. -/
def stall : Expr := uref "stall" 1

theorem tracks_three : Tracks [code, delta] [stall] := by
  constructor
  case registers => decide
  case widths => decide
  case selects => exact List.nodup_singleton stall
  case oneBit =>
    intro cond mem
    rw [List.mem_singleton.mp mem]
    rfl
  case nonempty => exact Or.inr (List.cons_ne_nil _ _)

/-- The values of one cycle, with `-3` in the signed register. -/
def threeEnv : Env := fun signal =>
  (List.lookup signal
    [(["code"], 1), (["delta"], -3), (["stall"], 1), (["mux_cond_0"], 1), (["code_shl"], 1),
      (["code_pad"], 1), (["delta_shl"], 20), (["delta_pad"], 20), (["mux_cond_0_shl"], 32),
      (["mux_cond_0_pad"], 32), (["Core_xor2"], 52), (["Core_xor0"], 53)]).getD 0

/-- The three elements lie side by side in six bits. -/
theorem stateConnect_packs_three :
    getRegState [] (trackedElems [code, delta] [stall]) =
        (6, [(.register code, 0), (.register delta, 2), (.ctrl stall, 5)]) ∧
      ∃ offsetStmts top xorStmts,
        stateConnect "Core" "Core_state"
            [(.register code, 0), (.register delta, 2), (.ctrl stall, 5)] 6 =
          some (offsetStmts ++ xorStmts ++ [.connect (uref "Core_state" 6) top]) ∧
          Settled threeEnv (offsetStmts ++ xorStmts) ∧
          (Ty.uint 6).fit (top.eval threeEnv) = 53 := by
  have packs := stateConnect_packs tracks_three [] "Core" "Core_state"
  have state : getRegState [] (trackedElems [code, delta] [stall]) =
      (6, [(.register code, 0), (.register delta, 2), (.ctrl stall, 5)]) := by rfl
  have check : ∀ stmts ∈ stateConnect "Core" "Core_state"
      [(.register code, 0), (.register delta, 2), (.ctrl stall, 5)] 6,
      ∀ stmt ∈ stmts.dropLast, stmt.Holds [] threeEnv threeEnv := by decide
  simp only [state] at packs
  rcases packs with ⟨_, _, offsetStmts, top, xorStmts, _, _, made, carries⟩
  have settled : Settled threeEnv (offsetStmts ++ xorStmts) := by
    have holds := check _ made
    rwa [List.dropLast_concat] at holds
  refine ⟨state, offsetStmts, top, xorStmts, made, settled, ?_⟩
  rw [carries.wired threeEnv settled]
  rfl

end InstrCov

namespace ModuleInfo

variable {info : ModuleInfo}

/-- Without elements of vectors the module is given the offsets of `getRegState`. -/
theorem allOffsets_of_no_firstElements (noVectors : info.firstElements = []) (draws : List Nat) :
    info.allOffsets draws = some (info.ctrlOffsets draws) := by
  have noFirst : ∀ entry ∈ info.firstVecRegs.entries, entry.2 = [] := by
    intro entry isEntry
    apply List.eq_nil_iff_forall_not_mem.mpr
    intro reg isFirst
    have mem := mem_firstElements_iff.mpr ⟨entry, isEntry, isFirst⟩
    rw [noVectors] at mem
    exact List.not_mem_nil mem
  have noOffsets : info.firstVecRegs.entries.mapM (info.elementOffsets draws) =
      some (info.firstVecRegs.entries.map fun _ => []) := by
    apply mapM_eq_some_map
    intro entry isEntry
    simp [elementOffsets, noFirst entry isEntry]
  have noNames : info.vecNameOffsets draws = some (Dict.ofList []) := by
    simp [vecNameOffsets, noOffsets]
  have scalars : info.scalaOffsets draws = info.ctrlOffsets draws := by
    apply List.filter_eq_self.mpr
    intro entry _
    cases isElem : entry.1 with
    | register reg => simp [isFirst, noVectors]
    | ctrl cond => simp [isFirst]
  rw [allOffsets, vectorOffsets, noNames, scalars]
  exact congrArg some (List.append_nil _)

end ModuleInfo

end Difftest.Firrtl

import Difftest.Firrtl.FreshNames

/-!
# When an instrumented module is well formed

Names are formed without asking what the module declares, and a register is cleared with an
unsigned literal whatever its type.  So the result is well formed exactly when none of the
names was taken and no connected register is signed.
-/

namespace Difftest.Firrtl

/-- The comparison of types when a module is checked; widths do not count. -/
def Ty.Same : Ty → Ty → Prop
  | uint _, uint _ => True
  | sint _, sint _ => True
  | clock, clock => True
  | asyncReset, asyncReset => True
  | _, _ => False

namespace Module

/-- A module that has passed the checks: names are declared once, connects drive declared
names, and what is connected to a register has the type of the register. -/
structure WellTyped (mod : Module) : Prop where
  names : (mod.decls.map Prod.fst).Nodup
  declared : ∀ name tpe expr, .connect (.ref name tpe) expr ∈ mod.stmts →
    name ∈ mod.decls.map Prod.fst
  registers : ∀ reg ∈ mod.registers, ∀ tpe expr, .connect (.ref reg.name tpe) expr ∈ mod.stmts →
    expr.tpe.Same reg.tpe

/-- Both arms of each multiplexer in front of a register have the type of the register. -/
def ResetsTyped (mod result : Module) : Prop :=
  ∀ reg ∈ mod.resetRegs, ∀ tpe tval fval muxTpe,
    .connect (.ref reg.name tpe) (.mux (uref "metaReset" 1) tval fval muxTpe) ∈ result.stmts →
      tval.tpe.Same reg.tpe ∧ fval.tpe.Same reg.tpe

/-- The registers of a module that are connected are unsigned. -/
def Unsigned (mod : Module) : Prop :=
  ∀ reg ∈ mod.registers, ∀ tpe expr, .connect (.ref reg.name tpe) expr ∈ mod.stmts →
    ∃ width, reg.tpe = .uint width

end Module

namespace Outcome

variable {choices : Choices} {extModules : List String} {mod result : Module} {info : ModuleInfo}
  {added : List Stmt} (outcome : Outcome choices extModules mod result info added)
  (names : (result.decls.map Prod.fst).Nodup)

include outcome names

/-- Connects of registers that are typed make registers unsigned. -/
theorem unsigned_of_resetsTyped (typed : mod.ResetsTyped result) : mod.Unsigned := by
  intro reg isReg tpe expr isStmt
  have isReset : reg ∈ mod.resetRegs := List.mem_append_left _ (List.mem_dedup.mpr isReg)
  have isResult := outcome.mem_stmts (List.mem_append_left _ (List.mem_append_left _ isStmt))
  rw [outcome.addMetaReset_reg names isReset] at isResult
  have same := (typed reg isReset _ _ _ _ isResult).1
  cases isTpe : reg.tpe with
  | uint width => exact ⟨width, rfl⟩
  | _ =>
      rw [isTpe] at same
      exact same.elim

/-- The multiplexers in front of unsigned registers are typed. -/
theorem resetsTyped_of_unsigned (typed : mod.WellTyped) (unsigned : mod.Unsigned) :
    mod.ResetsTyped result := by
  intro reg isReset tpe tval fval muxTpe isResult
  rcases outcome.exists_connect isResult with ⟨before, isBefore, turned⟩ | ⟨inst, _, same⟩
  · rw [outcome.addMetaReset_reg names isReset] at turned
    cases turned
    rw [List.append_assoc] at isBefore
    have both : (∃ width, reg.tpe = .uint width) ∧ fval.tpe.Same reg.tpe := by
      rcases List.mem_append.mp isReset with old | assert
      · have isReg := List.mem_dedup.mp old
        rcases List.mem_append.mp isBefore with inMod | inAdded
        · exact ⟨unsigned reg isReg tpe fval inMod, typed.registers reg isReg tpe fval inMod⟩
        · have isName : reg.name ∈ mod.decls.map Prod.fst :=
            List.mem_map_of_mem (Module.mem_decls_of_register isReg)
          exact absurd rfl (outcome.not_driven names isName inAdded)
      · obtain ⟨clock, top, clocked, isTop, rfl⟩ :=
          InstrAssert.moduleAssertReg_eq_some_iff.mp (Option.mem_toList.mp assert)
        rcases List.mem_append.mp isBefore with inMod | inAdded
        · exact absurd (typed.declared _ tpe fval inMod)
            (outcome.assertReg_not_declared names clocked isTop)
        · rw [(outcome.assertReg_driver names clocked isTop inAdded rfl).2]
          exact ⟨⟨1, rfl⟩, trivial⟩
    obtain ⟨⟨width, isUint⟩, same⟩ := both
    rw [isUint] at same ⊢
    exact ⟨trivial, same⟩
  · cases same

end Outcome

open RegCoverage

/-- An instrumented module declares every name once and clears every register with a value of
its type exactly when the module has none of the generated names, is not called `io`, and has
no connected register that is signed. -/
theorem wellFormed_iff {choices : Choices} {extModules : List String} {mod result : Module}
    {info : ModuleInfo} (isInfo : mod.info (choices.vecRegs mod.name) = some info)
    (typed : mod.WellTyped) (instrumented : instrument choices extModules mod = some result) :
    (result.decls.map Prod.fst).Nodup ∧ mod.ResetsTyped result ↔
      (mod.name ≠ "io" ∧ ∀ name ∈ mod.decls.map Prod.fst,
        name ∉ generatedNames info (choices.draws mod.name) extModules mod) ∧ mod.Unsigned := by
  obtain ⟨info', added, outcome⟩ := exists_outcome instrumented
  obtain rfl := Option.some.inj (isInfo.symm.trans outcome.isInfo)
  have unique := outcome.nodup_iff typed.names
  constructor
  · rintro ⟨names, resets⟩
    exact ⟨unique.mp names, outcome.unsigned_of_resetsTyped names resets⟩
  · rintro ⟨fresh, unsigned⟩
    have names := unique.mpr fresh
    exact ⟨names, outcome.resetsTyped_of_unsigned names typed unsigned⟩

theorem wellTyped_latch : latch.WellTyped := by
  constructor
  · decide +kernel
  · intro name tpe expr isStmt
    have both : name = "out" ∨ name = "flag" := by
      simp [Module.stmts, Tree.leavesAll, Tree.leaves, latch, uref] at isStmt
      exact isStmt.imp (fun same => same.1.1) fun same => same.1.1
    rcases both with rfl | rfl <;> decide +kernel
  · intro reg isReg tpe expr isStmt
    cases List.mem_singleton.mp isReg
    have value : expr = uref "in" 1 := by
      simp [Module.stmts, Tree.leavesAll, Tree.leaves, latch, flag, uref] at isStmt
      exact isStmt.2
    rw [value]
    trivial

/-- The latch has no generated name and no signed register. -/
theorem wellFormed_latch :
    ∃ result, instrument noChoices [] latch = some result ∧
      ((result.decls.map Prod.fst).Nodup ∧ latch.ResetsTyped result ↔
        (latch.name ≠ "io" ∧ ∀ name ∈ latch.decls.map Prod.fst,
          name ∉ generatedNames latchInfo [] [] latch) ∧ latch.Unsigned) := by
  have returns : (instrument noChoices [] latch).isSome = true := by decide +kernel
  obtain ⟨result, instrumented⟩ := Option.isSome_iff_exists.mp returns
  have isInfo : latch.info (noChoices.vecRegs latch.name) = some latchInfo := by decide +kernel
  exact ⟨result, instrumented, wellFormed_iff isInfo wellTyped_latch instrumented⟩

/-! ## A signed register -/

/-- A register of type `SInt`. -/
def signedReg : Register := { flag with tpe := .sint 3 }

/-- A module that keeps a signed number. -/
def signedModule : Module where
  name := "Signed"
  ports := [clockPort, ⟨"in", .input, .sint 3⟩]
  body :=
    [.stmt (.defRegister signedReg),
      .stmt (.connect (.ref "flag" (.sint 3)) (.ref "in" (.sint 3)))]

theorem not_wellFormed_signedModule :
    signedModule.WellTyped ∧ ∃ result, instrument noChoices [] signedModule = some result ∧
      ¬ ((result.decls.map Prod.fst).Nodup ∧ signedModule.ResetsTyped result) := by
  have stmts : signedModule.stmts = [.defRegister signedReg,
      .connect (.ref "flag" (.sint 3)) (.ref "in" (.sint 3))] := rfl
  have typed : signedModule.WellTyped := by
    constructor
    · decide +kernel
    · intro name tpe expr isStmt
      rw [stmts] at isStmt
      rcases List.mem_pair.mp isStmt with same | same
      · cases same
      · cases same
        decide +kernel
    · intro reg isReg tpe expr isStmt
      cases List.mem_singleton.mp isReg
      rw [stmts] at isStmt
      rcases List.mem_pair.mp isStmt with same | same
      · cases same
      · cases same
        trivial
  have resets : ∀ result ∈ instrument noChoices [] signedModule,
      .connect (.ref "flag" (.sint 3)) (.mux (uref "metaReset" 1) (.uintLiteral 0 3)
        (.ref "in" (.sint 3)) .unknown) ∈ result.stmts ∧ signedReg ∈ signedModule.resetRegs := by
    decide +kernel
  have returns : (instrument noChoices [] signedModule).isSome = true := by decide +kernel
  obtain ⟨result, instrumented⟩ := Option.isSome_iff_exists.mp returns
  refine ⟨typed, result, instrumented, ?_⟩
  rintro ⟨_, resetsTyped⟩
  obtain ⟨isStmt, isReset⟩ := resets result instrumented
  exact (resetsTyped signedReg isReset _ _ _ _ isStmt).1

end Difftest.Firrtl

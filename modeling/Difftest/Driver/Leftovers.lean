import Difftest.Driver.Run

/-!
# Verdicts and the files of earlier runs

A verdict of the driver is about this run only if the processes of this run wrote
the three files behind it.  The main result says for which leftovers and which
behaviours of the two processes every passing verdict is of that kind, whatever
the program and the contents of the files are.
-/

namespace Difftest.Driver

open Difftest.Text Difftest.Signature

/-- The three files behind a verdict were written by processes of this run. -/
structure Fresh (dir : Directory) : Prop where
  isaSig : ∃ file, dir.isaSig = some file ∧ file.fresh = true
  rtlSig : ∃ file, dir.rtlSig = some file ∧ file.fresh = true
  rtlResult : ∃ file, dir.rtlResult = some file ∧ file.fresh = true

/-- Which files an earlier run left, how the two processes end, and which files they
write. -/
structure Shape where
  isaSigLeft : Bool
  rtlSigLeft : Bool
  rtlResultLeft : Bool
  spikeExit : Option Int
  writesIsaSig : Bool
  makeExit : MakeExit
  writesRtlSig : Bool
  writesRtlResult : Bool

/-- A leftover file, with the mark that it has at the start of a run. -/
structure Leftover (file : Option File) (left : Bool) : Prop where
  present : file.isSome = left
  stale : ∀ found, file = some found → found.fresh = false

/-- The directory and the processes have the given shape. -/
structure Shape.Matches (shape : Shape) (dir : Directory) (spike : SpikeRun) (make : MakeRun) :
    Prop where
  isaSig : Leftover dir.isaSig shape.isaSigLeft
  rtlSig : Leftover dir.rtlSig shape.rtlSigLeft
  rtlResult : Leftover dir.rtlResult shape.rtlResultLeft
  spikeExit : spike.returncode = shape.spikeExit
  writesIsaSig : spike.isaSig.isSome = shape.writesIsaSig
  makeExit : make.exit = shape.makeExit
  writesRtlSig : make.rtlSig.isSome = shape.writesRtlSig
  writesRtlResult : make.rtlResult.isSome = shape.writesRtlResult

/-- Unless a process fails or one of the three files is neither left nor written, all
three are written. -/
def Shape.Clean (shape : Shape) : Prop :=
  shape.spikeExit = some 0 → shape.makeExit = .exited 0 →
  (shape.isaSigLeft || shape.writesIsaSig) = true →
  (shape.rtlSigLeft || shape.writesRtlSig) = true →
  (shape.rtlResultLeft || shape.writesRtlResult) = true →
    shape.writesIsaSig = true ∧ shape.writesRtlSig = true ∧ shape.writesRtlResult = true

/-- The comparison of the two signatures that the run produces. -/
def endToEnd : Mode := { rtlSigFile := none, isaOnly := false }

/-! ## What a passing verdict needs -/

theorem overwrite_isSome (old : Option File) (written : Option Text) :
    (overwrite old written).isSome = (old.isSome || written.isSome) := by
  cases written with
  | none => simp [overwrite]
  | some content => simp [overwrite]

theorem fresh_overwrite {old : Option File} {written : Option Text} (wrote : written.isSome = true) :
    ∃ file, overwrite old written = some file ∧ file.fresh = true := by
  obtain ⟨content, rfl⟩ := Option.isSome_iff_exists.mp wrote
  exact ⟨_, rfl, rfl⟩

theorem fresh_overwrite_iff {old : Option File} {written : Option Text} {left : Bool}
    (leftover : Leftover old left) :
    (∃ file, overwrite old written = some file ∧ file.fresh = true) ↔ written.isSome = true := by
  constructor
  · rintro ⟨file, found, marked⟩
    cases written with
    | none => exact absurd marked (by rw [leftover.stale file found]; exact Bool.false_ne_true)
    | some content => rfl
  · exact fresh_overwrite

/-- The simulation succeeds only with a zero exit code and a result file. -/
theorem of_runRtlSimulation_success {dir : Directory} {make : MakeRun}
    (success : (runRtlSimulation dir make).1 = SUCCESS) :
    make.exit = .exited 0 ∧ dir.rtlResult.isSome = true := by
  rw [runRtlSimulation] at success
  cases exit : make.exit with
  | timeoutExpired =>
      rw [exit] at success
      cases success
  | raised reason =>
      rw [exit] at success
      cases success
  | exited returncode =>
      rw [exit] at success
      dsimp only at success
      by_cases zero : returncode = 0
      · rw [if_neg (not_not.mpr zero)] at success
        refine ⟨congrArg MakeExit.exited zero, ?_⟩
        cases result : dir.rtlResult with
        | none =>
            rw [result] at success
            dsimp only at success
            split at success
            · cases success
            · cases success
        | some file => rfl
      · rw [if_pos zero] at success
        cases success

/-- A simulation whose verdict passes. -/
theorem of_afterSimulation_pass {prepared : Prepared} {isaSig : File} {dir : Directory}
    {make : MakeRun}
    (pass : (afterSimulation prepared isaSig dir (runRtlSimulation dir make)).status = .pass) :
    make.exit = .exited 0 ∧ dir.rtlSig.isSome = true ∧ dir.rtlResult.isSome = true := by
  rw [afterSimulation] at pass
  by_cases success : (runRtlSimulation dir make).1 = SUCCESS
  · rw [if_pos success] at pass
    obtain ⟨exit, result⟩ := of_runRtlSimulation_success success
    refine ⟨exit, ?_, result⟩
    cases rtlSig : dir.rtlSig with
    | none =>
        rw [rtlSig] at pass
        cases pass
    | some file => rfl
  · rw [if_neg success] at pass
    split at pass
    · cases pass
    · split at pass
      · cases pass
      · split at pass
        · cases pass
        · cases pass

/-- The RTL half of an end-to-end run that passes. -/
theorem of_runRtl_pass {prepared : Prepared} {isaSig : File} {dir : Directory} {make : MakeRun}
    (pass : (runRtl prepared endToEnd isaSig dir make).1.status = .pass) :
    (runRtl prepared endToEnd isaSig dir make).2 = dir.afterMake make ∧
      make.exit = .exited 0 ∧ (dir.afterMake make).rtlSig.isSome = true ∧
      (dir.afterMake make).rtlResult.isSome = true := by
  rw [runRtl] at pass ⊢
  dsimp only [endToEnd] at pass ⊢
  by_cases available : prepared.rtlAvailable = false
  · rw [if_pos available] at pass
    cases pass
  · rw [if_neg available] at pass ⊢
    cases bundle : prepared.bundleFailed with
    | some reason =>
        rw [bundle] at pass
        cases pass
    | none =>
        cases setUp : prepared.rtlNotSetUp with
        | some reason =>
            rw [bundle, setUp] at pass
            cases pass
        | none =>
            cases failed : prepared.rtlFailed with
            | some reason =>
                rw [bundle, setUp, failed] at pass
                cases pass
            | none =>
                rw [bundle, setUp, failed] at pass
                exact ⟨rfl, of_afterSimulation_pass pass⟩

/-- The steps of an end-to-end run that passes. -/
theorem of_pass {preparation : Except (EarlyStatus × Text) Prepared} {dir : Directory}
    {spike : SpikeRun} {make : MakeRun}
    (pass : (runSingleDifftest preparation endToEnd dir spike make).1.status = .pass) :
    (runSingleDifftest preparation endToEnd dir spike make).2 =
        (dir.afterSpike spike).afterMake make ∧
      spike.returncode = some 0 ∧ make.exit = .exited 0 ∧
      (dir.afterSpike spike).isaSig.isSome = true ∧
      ((dir.afterSpike spike).afterMake make).rtlSig.isSome = true ∧
      ((dir.afterSpike spike).afterMake make).rtlResult.isSome = true := by
  cases preparation with
  | error early =>
      obtain ⟨status, details⟩ := early
      cases status <;> cases pass
  | ok prepared =>
      unfold runSingleDifftest at pass ⊢
      dsimp only at pass ⊢
      cases missing : prepared.spikeMissing with
      | some reason =>
          rw [missing] at pass
          cases pass
      | none =>
          rw [missing] at pass
          dsimp only at pass ⊢
          by_cases zero : spike.returncode.getD (-1) = 0
          · have returned : spike.returncode = some 0 := by
              cases code : spike.returncode with
              | none =>
                  rw [code] at zero
                  cases zero
              | some returncode =>
                  rw [code] at zero
                  exact congrArg some zero
            rw [if_neg (not_not.mpr zero)] at pass ⊢
            cases isaSig : (dir.afterSpike spike).isaSig with
            | none =>
                rw [isaSig] at pass
                cases pass
            | some file =>
                rw [isaSig] at pass
                dsimp only at pass ⊢
                by_cases empty : file.content = []
                · rw [if_pos empty] at pass
                  cases pass
                · rw [if_neg empty, if_neg (show ¬ endToEnd.isaOnly = true by decide)] at pass ⊢
                  obtain ⟨left, exit, rtlSig, rtlResult⟩ := of_runRtl_pass pass
                  exact ⟨left, returned, exit, rfl, rtlSig, rtlResult⟩
          · rw [if_pos zero] at pass
            cases pass

/-! ## The condition -/

/-- A record of zeros, a signature that compares equal to itself. -/
def zeroSignature : Text := recordFile [(0, 0), (0, 0)]

/-- A run that gets as far as the processes let it. -/
def zeroPrepared : Prepared where
  wrappedSymbols := compactSymbols 0
  isaWidth := .rv64
  isWrapped := false
  spikeMissing := none
  rtlAvailable := true
  bundleFailed := none
  rtlNotSetUp := none
  rtlFailed := none

/-- The leftovers of a shape, with the contents of a run that passed. -/
def Shape.dir (shape : Shape) : Directory where
  isaSig := if shape.isaSigLeft then some ⟨zeroSignature, false⟩ else none
  rtlSig := if shape.rtlSigLeft then some ⟨zeroSignature, false⟩ else none
  rtlResult := if shape.rtlResultLeft then some ⟨['0'], false⟩ else none

/-- The Spike process of a shape. -/
def Shape.spike (shape : Shape) : SpikeRun where
  returncode := shape.spikeExit
  isaSig := if shape.writesIsaSig then some zeroSignature else none

/-- The make process of a shape. -/
def Shape.make (shape : Shape) : MakeRun where
  exit := shape.makeExit
  stdout := []
  stderr := []
  rtlSig := if shape.writesRtlSig then some zeroSignature else none
  rtlResult := if shape.writesRtlResult then some ['0'] else none

theorem Shape.matches_self (shape : Shape) : shape.Matches shape.dir shape.spike shape.make := by
  have leftover : ∀ (left : Bool) (content : Text),
      Leftover (if left then some ⟨content, false⟩ else none) left := by
    intro left content
    cases left with
    | false => exact ⟨rfl, fun _ found => absurd found (by simp)⟩
    | true =>
        refine ⟨rfl, fun file found => ?_⟩
        cases found
        rfl
  have writes : ∀ (wrote : Bool) (content : Text),
      (if wrote then some content else none).isSome = wrote := by
    intro wrote content
    cases wrote <;> rfl
  exact ⟨leftover _ _, leftover _ _, leftover _ _, rfl, writes _ _, rfl, writes _ _, writes _ _⟩

/-- A file that is left or written holds the content that both have. -/
theorem overwrite_same {left wrote : Bool} (present : (left || wrote) = true) (content : Text) :
    overwrite (if left then some ⟨content, false⟩ else none) (if wrote then some content else none) =
      some ⟨content, wrote⟩ := by
  cases wrote with
  | true => rfl
  | false =>
      rw [Bool.or_false] at present
      rw [present]
      rfl

/-- The run of a shape passes when nothing fails and no file is missing. -/
theorem Shape.passes {shape : Shape} (spikeExit : shape.spikeExit = some 0)
    (makeExit : shape.makeExit = .exited 0)
    (isaSig : (shape.isaSigLeft || shape.writesIsaSig) = true)
    (rtlSig : (shape.rtlSigLeft || shape.writesRtlSig) = true)
    (rtlResult : (shape.rtlResultLeft || shape.writesRtlResult) = true) :
    (runSingleDifftest (.ok zeroPrepared) endToEnd shape.dir shape.spike shape.make).1.status =
      .pass := by
  have isaFile : (shape.dir.afterSpike shape.spike).isaSig =
      some ⟨zeroSignature, shape.writesIsaSig⟩ := overwrite_same isaSig zeroSignature
  have rtlFile : ((shape.dir.afterSpike shape.spike).afterMake shape.make).rtlSig =
      some ⟨zeroSignature, shape.writesRtlSig⟩ := overwrite_same rtlSig zeroSignature
  have resultFile : ((shape.dir.afterSpike shape.spike).afterMake shape.make).rtlResult =
      some ⟨['0'], shape.writesRtlResult⟩ := overwrite_same rtlResult ['0']
  have checked : check ⟨some .rv64, false⟩ (compactSymbols 0) zeroSignature zeroSignature =
      some true := by
    decide +kernel
  have nonempty : zeroSignature ≠ [] := by decide
  have simulated : (runRtlSimulation ((shape.dir.afterSpike shape.spike).afterMake shape.make)
      shape.make).1 = SUCCESS := by
    rw [runRtlSimulation, resultFile, Shape.make, makeExit]
    rfl
  have spikeRc : shape.spike.returncode.getD (-1) = 0 := by
    rw [Shape.spike, spikeExit]
    rfl
  have compared : (afterSimulation zeroPrepared ⟨zeroSignature, shape.writesIsaSig⟩
      ((shape.dir.afterSpike shape.spike).afterMake shape.make)
      (runRtlSimulation ((shape.dir.afterSpike shape.spike).afterMake shape.make) shape.make)) =
        .compared true := by
    rw [afterSimulation, if_pos simulated, rtlFile]
    dsimp only
    rw [compareFiles]
    dsimp only [zeroPrepared]
    rw [checked]
  unfold runSingleDifftest
  dsimp only [zeroPrepared]
  rw [if_neg (not_not.mpr spikeRc), isaFile]
  dsimp only
  rw [if_neg nonempty, if_neg (show ¬ endToEnd.isaOnly = true by decide)]
  exact congrArg Outcome.status compared

/-- Every passing end-to-end verdict of a shape is about this run exactly when the
shape is clean. -/
theorem pass_fresh_iff (shape : Shape) :
    (∀ preparation dir spike make, shape.Matches dir spike make →
      (runSingleDifftest preparation endToEnd dir spike make).1.status = .pass →
        Fresh (runSingleDifftest preparation endToEnd dir spike make).2) ↔
      shape.Clean := by
  constructor
  · intro fresh spikeExit makeExit isaSig rtlSig rtlResult
    have pass := Shape.passes spikeExit makeExit isaSig rtlSig rtlResult
    have matched := shape.matches_self
    have marked := fresh _ _ _ _ matched pass
    rw [(of_pass pass).1] at marked
    refine ⟨?_, ?_, ?_⟩
    · rw [← matched.writesIsaSig]
      exact (fresh_overwrite_iff matched.isaSig).mp marked.isaSig
    · rw [← matched.writesRtlSig]
      exact (fresh_overwrite_iff matched.rtlSig).mp marked.rtlSig
    · rw [← matched.writesRtlResult]
      exact (fresh_overwrite_iff matched.rtlResult).mp marked.rtlResult
  · intro clean preparation dir spike make matched pass
    obtain ⟨left, spikeExit, makeExit, isaSig, rtlSig, rtlResult⟩ := of_pass pass
    have present : ∀ {old : Option File} {written : Option Text} {isLeft writes : Bool},
        Leftover old isLeft → written.isSome = writes → (overwrite old written).isSome = true →
          (isLeft || writes) = true := by
      intro old written isLeft writes leftover wrote found
      rwa [overwrite_isSome, leftover.present, wrote] at found
    obtain ⟨writesIsaSig, writesRtlSig, writesRtlResult⟩ :=
      clean (matched.spikeExit ▸ spikeExit) (matched.makeExit ▸ makeExit)
        (present matched.isaSig matched.writesIsaSig isaSig)
        (present matched.rtlSig matched.writesRtlSig rtlSig)
        (present matched.rtlResult matched.writesRtlResult rtlResult)
    rw [left]
    constructor
    · exact fresh_overwrite (matched.writesIsaSig.trans writesIsaSig)
    · exact fresh_overwrite (matched.writesRtlSig.trans writesRtlSig)
    · exact fresh_overwrite (matched.writesRtlResult.trans writesRtlResult)

/-- Both processes exit with zero and write nothing, and the files are those of an
earlier run. -/
def silent : Shape where
  isaSigLeft := true
  rtlSigLeft := true
  rtlResultLeft := true
  spikeExit := some 0
  writesIsaSig := false
  makeExit := .exited 0
  writesRtlSig := false
  writesRtlResult := false

/-- The verdict passes on leftovers alone. -/
theorem silent_passes :
    (runSingleDifftest (.ok zeroPrepared) endToEnd silent.dir silent.spike silent.make).1.status =
        .pass ∧
      ¬ Fresh (runSingleDifftest (.ok zeroPrepared) endToEnd silent.dir silent.spike
        silent.make).2 := by
  have pass : (runSingleDifftest (.ok zeroPrepared) endToEnd silent.dir silent.spike
      silent.make).1.status = .pass :=
    Shape.passes rfl rfl rfl rfl rfl
  refine ⟨pass, fun fresh => ?_⟩
  rw [(of_pass pass).1] at fresh
  obtain ⟨file, found, marked⟩ := fresh.isaSig
  cases found
  cases marked

end Difftest.Driver

import Difftest.Signature.Checker

/-!
# One run of the difftest driver

`run_single_difftest` starts Spike and then the RTL simulation, and compares the
signature files that they leave in the output directory.  Files survive between
runs in one directory.  Every file here carries whether a process of this run
wrote it; the driver itself never sees that mark.
-/

namespace Difftest.Driver

open Difftest.Text Difftest.Signature

/-! ## Files and processes -/

/-- A file in the output directory; `fresh` when a process of this run wrote it. -/
structure File where
  content : Text
  fresh : Bool
deriving DecidableEq, Repr

/-- The files that a verdict can depend on. -/
structure Directory where
  isaSig : Option File
  rtlSig : Option File
  rtlResult : Option File
deriving DecidableEq, Repr

/-- A file after a process that may have written it. -/
def overwrite (old : Option File) (written : Option Text) : Option File :=
  match written with
  | some content => some { content, fresh := true }
  | none => old

/-- What the Spike process does: its exit code, `none` when it runs into the timeout,
and the signature file that it writes, if any. -/
structure SpikeRun where
  returncode : Option Int
  isaSig : Option Text
deriving DecidableEq, Repr

/-- How the make process ends. -/
inductive MakeExit where
  | exited (returncode : Int)
  | timeoutExpired
  | raised (reason : Text)
deriving DecidableEq, Repr

/-- What the make process does. -/
structure MakeRun where
  exit : MakeExit
  stdout : Text
  stderr : Text
  rtlSig : Option Text
  rtlResult : Option Text
deriving DecidableEq, Repr

/-- The directory after the Spike process. -/
def Directory.afterSpike (dir : Directory) (spike : SpikeRun) : Directory :=
  { dir with isaSig := overwrite dir.isaSig spike.isaSig }

/-- The directory after the make process. -/
def Directory.afterMake (dir : Directory) (make : MakeRun) : Directory :=
  { dir with
    rtlSig := overwrite dir.rtlSig make.rtlSig
    rtlResult := overwrite dir.rtlResult make.rtlResult }

/-! ## The RTL runner -/

/-- Result codes of the RTL host. -/
def SUCCESS : Int := 0

def ASSERTION_FAIL : Int := 1

def TIME_OUT : Int := 2

def ILL_MEM : Int := -1

/-- What `run_rtl_simulation` returns next to the result code. -/
structure Diagnostics where
  makeExitCode : Option Int
  rtlResult : Option Int
  stdoutTail : Text
  stderrTail : Text
deriving DecidableEq, Repr

/-- `text[-n:]`. -/
def lastChars (n : Nat) (text : Text) : Text := text.drop (text.length - n)

/-- `text or otherwise`. -/
def orElse (text otherwise : Text) : Text := if text = [] then otherwise else text

/-- The number in the result file; `ASSERTION_FAIL` when it cannot be read. -/
def readResult (file : File) : Int := (parseInt 10 (strip file.content)).getD ASSERTION_FAIL

/-- `run_rtl_simulation` from the start of the process on; `dir` is the directory
that the process leaves. -/
def runRtlSimulation (dir : Directory) (make : MakeRun) : Int × Diagnostics :=
  let stdoutTail := lastChars 500 make.stdout
  let stderrTail := lastChars 500 make.stderr
  match make.exit with
  | .timeoutExpired =>
      (TIME_OUT, { makeExitCode := none, rtlResult := none, stdoutTail := [],
                   stderrTail := "Timeout".toList })
  | .raised reason =>
      (ASSERTION_FAIL, { makeExitCode := none, rtlResult := none, stdoutTail := [],
                         stderrTail := reason })
  | .exited returncode =>
      if returncode ≠ 0 then
        (ASSERTION_FAIL, { makeExitCode := some returncode, rtlResult := none, stdoutTail,
                           stderrTail := orElse stderrTail "Make failed".toList })
      else
        match dir.rtlResult with
        | some file =>
            (readResult file, { makeExitCode := some returncode, rtlResult := some (readResult file),
                                stdoutTail, stderrTail })
        | none =>
            if dir.rtlSig = none then
              (ASSERTION_FAIL, { makeExitCode := some returncode, rtlResult := none, stdoutTail,
                                 stderrTail := orElse stderrTail "No signature or result file".toList })
            else
              (ASSERTION_FAIL, { makeExitCode := some returncode, rtlResult := some ASSERTION_FAIL,
                                 stdoutTail, stderrTail })

/-! ## The driver -/

/-- What an early return before Spike reports. -/
inductive EarlyStatus where
  | error
  | unsupported
  | wrapFail
deriving DecidableEq, Repr

/-- The `status` of a result. -/
inductive Status where
  | pass
  | mismatch
  | spikeFail
  | wrapFail
  | unsupported
  | error
deriving DecidableEq, Repr

/-- The places at which `run_single_difftest` returns. -/
inductive Outcome where
  | early (status : EarlyStatus) (details : Text)
  | spikeMissing (reason : Text)
  | spikeExit (code : Int)
  | noIsaSignature
  | isaOnly
  | noGivenSignature
  | rtlUnavailable
  | bundleFailed (reason : Text)
  | rtlTimeout (diagnostics : Diagnostics)
  | rtlAssertion (diagnostics : Diagnostics)
  | rtlIllegalMemory
  | rtlCode (code : Int)
  | rtlNotSetUp (reason : Text)
  | rtlFailed (reason : Text)
  | noRtlSignature
  | compared (isMatch : Bool)
  | comparisonFailed
deriving DecidableEq, Repr

/-- `result['status']`. -/
def Outcome.status : Outcome → Status
  | .early .error _ => .error
  | .early .unsupported _ => .unsupported
  | .early .wrapFail _ => .wrapFail
  | .spikeExit _ => .spikeFail
  | .noIsaSignature => .spikeFail
  | .isaOnly => .pass
  | .compared true => .pass
  | .compared false => .mismatch
  | .spikeMissing _ => .error
  | .noGivenSignature => .error
  | .rtlUnavailable => .error
  | .bundleFailed _ => .error
  | .rtlTimeout _ => .error
  | .rtlAssertion _ => .error
  | .rtlIllegalMemory => .error
  | .rtlCode _ => .error
  | .rtlNotSetUp _ => .error
  | .rtlFailed _ => .error
  | .noRtlSignature => .error
  | .comparisonFailed => .error

/-- What is known when Spike is about to start.  A `some` reason is the exception that
the next call raises before it starts a process. -/
structure Prepared where
  wrappedSymbols : Symbols
  isaWidth : IsaWidth
  isWrapped : Bool
  spikeMissing : Option Text
  rtlAvailable : Bool
  bundleFailed : Option Text
  rtlNotSetUp : Option Text
  rtlFailed : Option Text

/-- The arguments that select what is compared: `rtl_sig_file`, `none` when it is not
given and `some none` when it does not exist, and `isa_only`. -/
structure Mode where
  rtlSigFile : Option (Option File)
  isaOnly : Bool

/-- The comparison at the end: `sigChecker` on the two files. -/
def compareFiles (prepared : Prepared) (isaSig rtlSig : File) : Outcome :=
  match check ⟨some prepared.isaWidth, prepared.isWrapped⟩ prepared.wrappedSymbols
      isaSig.content rtlSig.content with
  | some isMatch => .compared isMatch
  | none => .comparisonFailed

/-- The result code and the comparison after the RTL simulation. -/
def afterSimulation (prepared : Prepared) (isaSig : File) (dir : Directory)
    (simulated : Int × Diagnostics) : Outcome :=
  if simulated.1 = SUCCESS then
    match dir.rtlSig with
    | some rtlSig => compareFiles prepared isaSig rtlSig
    | none => .noRtlSignature
  else if simulated.1 = TIME_OUT then .rtlTimeout simulated.2
  else if simulated.1 = ASSERTION_FAIL then .rtlAssertion simulated.2
  else if simulated.1 = ILL_MEM then .rtlIllegalMemory
  else .rtlCode simulated.1

/-- The RTL half: the simulation, or the comparison with a given signature. -/
def runRtl (prepared : Prepared) (mode : Mode) (isaSig : File) (dir : Directory) (make : MakeRun) :
    Outcome × Directory :=
  match mode.rtlSigFile with
  | some none => (.noGivenSignature, dir)
  | some (some rtlSig) => (compareFiles prepared isaSig rtlSig, dir)
  | none =>
      if prepared.rtlAvailable = false then (.rtlUnavailable, dir)
      else
        match prepared.bundleFailed, prepared.rtlNotSetUp, prepared.rtlFailed with
        | some reason, _, _ => (.bundleFailed reason, dir)
        | none, some reason, _ => (.rtlNotSetUp reason, dir)
        | none, none, some reason => (.rtlFailed reason, dir)
        | none, none, none =>
            let dir := dir.afterMake make
            (afterSimulation prepared isaSig dir (runRtlSimulation dir make), dir)

/-- `run_single_difftest`, with the directory that it leaves.  `preparation` is the
part before Spike is started: an early return, or what is known then. -/
def runSingleDifftest (preparation : Except (EarlyStatus × Text) Prepared) (mode : Mode)
    (dir : Directory) (spike : SpikeRun) (make : MakeRun) : Outcome × Directory :=
  match preparation with
  | .error (status, details) => (.early status details, dir)
  | .ok prepared =>
      match prepared.spikeMissing with
      | some reason => (.spikeMissing reason, dir)
      | none =>
          let dir := dir.afterSpike spike
          let spikeRc := spike.returncode.getD (-1)
          if spikeRc ≠ 0 then (.spikeExit spikeRc, dir)
          else
            match dir.isaSig with
            | none => (.noIsaSignature, dir)
            | some isaSig =>
                if isaSig.content = [] then (.noIsaSignature, dir)
                else if mode.isaOnly then (.isaOnly, dir)
                else runRtl prepared mode isaSig dir make

end Difftest.Driver

import Difftest.Data.Dict
import Difftest.Data.Semaphore
import Difftest.Data.Sequence
import Difftest.Text.Line

/-!
# Coverage maps of the fuzzing processes

A process that ends merges its coverage maps into the shared ones: `store_covmap` reads the
shared map of each of its files, joins the digits and writes the result back, all under the
semaphore of the coverage maps.
-/

namespace Difftest.Fuzzer

open Difftest.Text

/-! ## One file -/

/-- `file.readline()`. -/
def readline (content : Text) : Text := (readlines content).headD []

/-- `int(line[n])`; raises past the end of the line and for other characters than digits. -/
def digitAt (text : Text) (n : Nat) : Option Nat := text[n]?.bind (digitValue 10)

/-- The shared map before the own digits are joined: zeros when the file does not exist. -/
def restored (shared : Option Text) (size : Nat) : Option (List Nat) :=
  match shared with
  | none => some (List.replicate size 0)
  | some content => (List.range size).mapM (digitAt (readline content))

/-- The joined digits of the shared map and of an own map. -/
def joined (shared : Option Text) (own : Text) : Option (List Nat) :=
  (restored shared own.length).bind fun covMap =>
    ((List.range own.length).mapM (digitAt (readline own))).map fun line =>
      List.zipWith (· ||| ·) covMap line

/-- `''.join(str(e) for e in cov_map)`. -/
def covString (covMap : List Nat) : Text := covMap.flatMap (numeral 10 1)

/-- The merge of one file into the shared directory; adds its digits to the sum. -/
def storeFile (state : Dict Text Text × Nat) (file : Text × Text) :
    Option (Dict Text Text × Nat) :=
  (joined (state.1.get? file.1) file.2).map fun covMap =>
    (state.1.set file.1 (covString covMap), state.2 + covMap.sum)

/-! ## Processes -/

/-- A call of `store_covmap`: the own files in the order in which they are listed, the time
and the number of iterations that are logged. -/
structure Call where
  files : List (Text × Text)
  elapsed : Text
  iter : Nat
deriving DecidableEq

/-- An entry of the log of the coverage. -/
structure LogEntry where
  elapsed : Text
  iter : Nat
  covSum : Nat
deriving DecidableEq

/-- Where a process stands in `store_covmap`. -/
inductive Storing where
  | outside
  | merging (call : Call) (rest : List (Text × Text)) (covSum : Nat)
  | logged (call : Call)
  | raised
deriving DecidableEq

/-- The shared directory and the log with the semaphore that guards them, the processes and
the calls that returned. -/
structure CovMaps (π : Type*) where
  covMapSem : Nat
  covmap : Dict Text Text
  log : List LogEntry
  control : π → Storing
  calls : List Call

namespace CovMaps

variable {π : Type*} [DecidableEq π]

/-- The manager with a shared directory, before any call. -/
def init (covmap : Dict Text Text) : CovMaps π := ⟨1, covmap, [], fun _ => .outside, []⟩

/-- The next step of a process, which makes the given call when it is in none. -/
def step (maps : CovMaps π) (process : π) (call : Call) : Option (CovMaps π) :=
  match maps.control process with
  | .outside =>
      if 0 < maps.covMapSem then
        some { maps with
          covMapSem := maps.covMapSem - 1
          control := Function.update maps.control process (.merging call call.files 0) }
      else none
  | .merging own (file :: rest) covSum =>
      match storeFile (maps.covmap, covSum) file with
      | none => some { maps with control := Function.update maps.control process .raised }
      | some (covmap, covSum) => some { maps with
          covmap
          control := Function.update maps.control process (.merging own rest covSum) }
  | .merging own [] covSum => some { maps with
      log := maps.log ++ [⟨own.elapsed, own.iter, covSum⟩]
      control := Function.update maps.control process (.logged own) }
  | .logged own => some { maps with
      covMapSem := maps.covMapSem + 1
      control := Function.update maps.control process .outside
      calls := maps.calls ++ [own] }
  | .raised => none

/-- Any process takes its next step; the calls have some property. -/
def Step (Valid : Call → Prop) (maps maps' : CovMaps π) : Prop :=
  ∃ process call, Valid call ∧ maps.step process call = some maps'

/-- Any interleaving of the processes. -/
def Run (Valid : Call → Prop) : CovMaps π → CovMaps π → Prop :=
  Relation.ReflTransGen (Step Valid)

end CovMaps

/-! ## Maps of digits -/

/-- A coverage map: one line of `0` and `1`. -/
structure IsMap (width : Nat) (content : Text) : Prop where
  length : content.length = width
  digits : ∀ c ∈ content, c = '0' ∨ c = '1'

/-- Whether a point of a map is covered. -/
def covered (content : Text) (n : Nat) : Bool := decide (content[n]? = some '1')

/-- The map that covers the given points. -/
def spelled (width : Nat) (points : Nat → Bool) : Text :=
  (List.range width).map fun n => if points n = true then '1' else '0'

theorem isMap_spelled (width : Nat) (points : Nat → Bool) : IsMap width (spelled width points) := by
  constructor
  · simp [spelled]
  · intro c mem
    rcases List.mem_map.mp mem with ⟨n, _, rfl⟩
    split
    · exact Or.inr rfl
    · exact Or.inl rfl

theorem covered_spelled {width n : Nat} (inside : n < width) (points : Nat → Bool) :
    covered (spelled width points) n = points n := by
  cases point : points n <;> simp [covered, spelled, inside, point]

theorem spelled_congr {width : Nat} {points points' : Nat → Bool}
    (same : ∀ n < width, points n = points' n) : spelled width points = spelled width points' := by
  apply List.map_congr_left
  intro n mem
  rw [same n (List.mem_range.mp mem)]

/-- A map is spelled by the points that it covers. -/
theorem spelled_covered {width : Nat} {content : Text} (isMap : IsMap width content) :
    spelled width (covered content) = content := by
  apply List.ext_getElem
  · rw [(isMap_spelled width _).length, isMap.length]
  · intro n inSpelled inContent
    have isDigit := isMap.digits _ (List.getElem_mem inContent)
    simp only [spelled, List.getElem_map, List.getElem_range, covered,
      List.getElem?_eq_getElem inContent, Option.some.injEq, decide_eq_true_eq]
    rcases isDigit with zero | one
    · rw [zero, if_neg (by decide)]
    · rw [one, if_pos rfl]

theorem readline_eq_self {content : Text} (plain : '\n' ∉ content) : readline content = content := by
  induction content with
  | nil => rfl
  | cons c rest inductionHypothesis =>
      rw [List.mem_cons, not_or] at plain
      have later := inductionHypothesis plain.2
      rw [readline] at later ⊢
      rw [readlines, if_neg (Ne.symm plain.1)]
      cases lines : readlines rest with
      | nil =>
          rw [lines] at later
          rw [← later]
          rfl
      | cons first more =>
          rw [lines] at later
          exact congrArg (c :: ·) later

/-- The digits of a map. -/
theorem digits_of_isMap {width : Nat} {content : Text} (isMap : IsMap width content) :
    (List.range width).mapM (digitAt (readline content)) =
      some ((List.range width).map fun n => (covered content n).toNat) := by
  have plain : '\n' ∉ content := by
    intro mem
    rcases isMap.digits _ mem with same | same <;> cases same
  rw [readline_eq_self plain]
  apply mapM_eq_some_map
  intro n mem
  have inside : n < content.length := isMap.length ▸ List.mem_range.mp mem
  rw [digitAt, covered, List.getElem?_eq_getElem inside, Option.bind_some]
  rcases isMap.digits _ (List.getElem_mem inside) with zero | one
  · rw [zero]
    decide
  · rw [one]
    decide

/-! ## Merging -/

/-- The points that some of the maps cover. -/
def anyCovered (maps : List Text) (n : Nat) : Bool := maps.any fun map => covered map n

/-- The bitwise or of maps, when there is one. -/
def orOf (width : Nat) (maps : List Text) : Option Text :=
  if maps = [] then none else some (spelled width (anyCovered maps))

theorem anyCovered_append (first second : List Text) (n : Nat) :
    anyCovered (first ++ second) n = (anyCovered first n || anyCovered second n) :=
  List.any_append

/-- The bitwise or does not depend on order and repetitions. -/
theorem orOf_congr {width : Nat} {maps maps' : List Text}
    (same : ∀ map, map ∈ maps ↔ map ∈ maps') : orOf width maps = orOf width maps' := by
  have points : anyCovered maps = anyCovered maps' := by
    funext n
    rw [anyCovered, anyCovered, Bool.eq_iff_iff, List.any_eq_true, List.any_eq_true]
    simp only [same]
  have empty : maps = [] ↔ maps' = [] := by
    simp only [List.eq_nil_iff_forall_not_mem, same]
  rw [orOf, orOf, points]
  simp only [empty]

/-- The number of covered points. -/
def ones (content : Text) : Nat := content.count '1'

/-- Joining a map with the bitwise or of others. -/
theorem joined_orOf {width : Nat} {own : Text} (isMap : IsMap width own) (maps : List Text) :
    joined (orOf width maps) own =
      some ((List.range width).map fun n => (anyCovered (maps ++ [own]) n).toNat) := by
  have before : restored (orOf width maps) width =
      some ((List.range width).map fun n => (anyCovered maps n).toNat) := by
    rw [orOf]
    split
    · rename_i empty
      simp [restored, empty, anyCovered, List.map_const']
    · rw [restored, digits_of_isMap (isMap_spelled width _)]
      apply congrArg some
      apply List.map_congr_left
      intro n mem
      rw [covered_spelled (List.mem_range.mp mem)]
  rw [joined, isMap.length, before, digits_of_isMap isMap, Option.bind_some, Option.map_some,
    List.zipWith_map, List.zipWith_self]
  apply congrArg some
  apply List.map_congr_left
  intro n _
  have single : anyCovered [own] n = covered own n := by simp [anyCovered]
  rw [anyCovered_append, single]
  cases anyCovered maps n <;> cases covered own n <;> rfl

theorem covString_points (width : Nat) (points : Nat → Bool) :
    covString ((List.range width).map fun n => (points n).toNat) = spelled width points := by
  rw [covString, List.flatMap_map, spelled, List.map_eq_flatMap]
  congr 1
  funext n
  cases points n <;> decide

theorem sum_points (width : Nat) (points : Nat → Bool) :
    ((List.range width).map fun n => (points n).toNat).sum = ones (spelled width points) := by
  rw [ones, spelled]
  induction List.range width with
  | nil => rfl
  | cons n list inductionHypothesis =>
      rw [List.map_cons, List.sum_cons, List.map_cons, List.count_cons, inductionHypothesis,
        Nat.add_comm]
      cases points n <;> rfl

/-! ## Files of calls -/

/-- The maps that are stored under a name. -/
def mapsUnder (name : Text) (files : List (Text × Text)) : List Text :=
  (files.filter fun file => file.1 = name).map Prod.snd

theorem mapsUnder_append (name : Text) (first second : List (Text × Text)) :
    mapsUnder name (first ++ second) = mapsUnder name first ++ mapsUnder name second := by
  rw [mapsUnder, List.filter_append, List.map_append]
  rfl

theorem mapsUnder_eq_nil {name : Text} {files : List (Text × Text)}
    (absent : name ∉ files.map Prod.fst) : mapsUnder name files = [] := by
  rw [mapsUnder, List.map_eq_nil_iff, List.filter_eq_nil_iff]
  intro file mem same
  exact absent (List.mem_map.mpr ⟨file, mem, of_decide_eq_true same⟩)

/-- The maps of a name: its initial content and what was stored. -/
def mapsOf (initial : Dict Text Text) (stored : List (Text × Text)) (name : Text) : List Text :=
  (initial.get? name).toList ++ mapsUnder name stored

/-- The files of a process are maps of a length that depends on their names only. -/
def Call.Valid (width : Text → Nat) (call : Call) : Prop :=
  (call.files.map Prod.fst).Nodup ∧ ∀ file ∈ call.files, IsMap (width file.1) file.2

/-- The shared directory holds the bitwise or of all maps of each name. -/
def Merged (width : Text → Nat) (initial : Dict Text Text) (stored : List (Text × Text))
    (covmap : Dict Text Text) : Prop :=
  ∀ name, covmap.get? name = orOf (width name) (mapsOf initial stored name)

/-- The covered points of the maps with the given names. -/
def total (width : Text → Nat) (initial : Dict Text Text) (stored : List (Text × Text))
    (names : List Text) : Nat :=
  (names.map fun name =>
    ones (spelled (width name) (anyCovered (mapsOf initial stored name)))).sum

variable {width : Text → Nat} {initial : Dict Text Text}

/-- Files of other names do not change the maps of a name. -/
theorem mapsOf_append (stored : List (Text × Text)) {files : List (Text × Text)} {name : Text}
    (absent : name ∉ files.map Prod.fst) :
    mapsOf initial (stored ++ files) name = mapsOf initial stored name := by
  rw [mapsOf, mapsUnder_append, mapsUnder_eq_nil absent, List.append_nil]
  rfl

/-- One more file is merged. -/
theorem storeFile_merged {stored : List (Text × Text)} {covmap : Dict Text Text}
    (merged : Merged width initial stored covmap) {file : Text × Text}
    (isMap : IsMap (width file.1) file.2) (covSum : Nat) :
    ∃ covmap', storeFile (covmap, covSum) file =
        some (covmap', covSum + total width initial (stored ++ [file]) [file.1]) ∧
      Merged width initial (stored ++ [file]) covmap' := by
  have maps : mapsOf initial (stored ++ [file]) file.1 =
      mapsOf initial stored file.1 ++ [file.2] := by
    simp [mapsOf, mapsUnder]
  refine ⟨covmap.set file.1
    (spelled (width file.1) (anyCovered (mapsOf initial (stored ++ [file]) file.1))), ?_, ?_⟩
  · rw [storeFile, merged file.1, joined_orOf isMap, ← maps, Option.map_some, covString_points,
      sum_points, total, List.map_singleton, List.sum_singleton]
  · intro name
    rw [Dict.get?_set]
    by_cases same : name = file.1
    · rw [if_pos same, same, orOf, if_neg (by simp [maps])]
    · have others : mapsOf initial (stored ++ [file]) name = mapsOf initial stored name :=
        mapsOf_append stored (by simpa using same)
      rw [if_neg same, others, merged name]

theorem total_append {stored files : List (Text × Text)} {names : List Text}
    (others : ∀ name ∈ names, name ∉ files.map Prod.fst) :
    total width initial (stored ++ files) names = total width initial stored names := by
  rw [total, total]
  congr 1
  apply List.map_congr_left
  intro name mem
  rw [mapsOf_append stored (others name mem)]

theorem ones_mono {width : Nat} {points points' : Nat → Bool}
    (covers : ∀ n, points n = true → points' n = true) :
    ones (spelled width points) ≤ ones (spelled width points') := by
  rw [← sum_points, ← sum_points]
  apply List.sum_le_sum
  intro n _
  cases point : points n with
  | false => exact Nat.zero_le _
  | true => rw [covers n point]

/-- More files cover more points. -/
theorem total_mono (stored files : List (Text × Text)) (names : List Text) :
    total width initial stored names ≤ total width initial (stored ++ files) names := by
  apply List.sum_le_sum
  intro name _
  apply ones_mono
  intro n isCovered
  rw [mapsOf, mapsUnder_append, ← List.append_assoc, anyCovered_append]
  exact Bool.or_eq_true_iff.mpr (Or.inl isCovered)

/-! ## Totals of calls -/

/-- The names of the files of a call. -/
def Call.names (call : Call) : List Text := call.files.map Prod.fst

/-- The files of calls. -/
def storedBy (calls : List Call) : List (Text × Text) := calls.flatMap Call.files

/-- The sums that are logged for calls after some files are stored. -/
def totals (width : Text → Nat) (initial : Dict Text Text) :
    List (Text × Text) → List Call → List Nat
  | _, [] => []
  | stored, call :: calls => total width initial (stored ++ call.files) call.names ::
      totals width initial (stored ++ call.files) calls

theorem totals_concat (stored : List (Text × Text)) (calls : List Call) (call : Call) :
    totals width initial stored (calls ++ [call]) = totals width initial stored calls ++
      [total width initial (stored ++ storedBy calls ++ call.files) call.names] := by
  induction calls generalizing stored with
  | nil =>
      rw [storedBy, List.flatMap_nil, List.append_nil]
      rfl
  | cons first calls inductionHypothesis =>
      have later := inductionHypothesis (stored ++ first.files)
      have stores : storedBy (first :: calls) = first.files ++ storedBy calls := List.flatMap_cons
      rw [List.cons_append, totals, totals, later, List.cons_append, stores, ← List.append_assoc]

/-- The totals of calls with the same names do not decrease. -/
theorem totals_sorted {names : List Text} {calls : List Call}
    (same : ∀ call ∈ calls, call.names.Perm names) (stored : List (Text × Text)) :
    (totals width initial stored calls).Pairwise (· ≤ ·) ∧
      ∀ count ∈ totals width initial stored calls, total width initial stored names ≤ count := by
  induction calls generalizing stored with
  | nil => exact ⟨List.Pairwise.nil, fun _ mem => by cases mem⟩
  | cons call calls inductionHypothesis =>
      rcases inductionHypothesis (fun other mem => same other (List.mem_cons_of_mem call mem))
        (stored ++ call.files) with ⟨sorted, above⟩
      have first : total width initial (stored ++ call.files) call.names =
          total width initial (stored ++ call.files) names :=
        ((same call List.mem_cons_self).map _).sum_eq
      have more := @total_mono width initial stored call.files names
      rw [totals, first]
      constructor
      · exact List.pairwise_cons.mpr ⟨above, sorted⟩
      · intro count mem
        rcases List.mem_cons.mp mem with rfl | mem
        · exact more
        · exact more.trans (above count mem)

/-! ## Runs -/

/-- What the semaphore of the coverage maps guards. -/
structure Store where
  covmap : Dict Text Text
  log : List LogEntry
  calls : List Call

/-- The state of a process in a call. -/
def Storing.within : Storing → Option Storing
  | .outside => none
  | control => some control

/-- A call of `store_covmap` as a process goes through it. -/
def storing (Valid : Call → Prop) : Semaphore.Protocol Store Storing where
  enter control := ∃ call, Valid call ∧ control = .merging call call.files 0
  work control store control' store' :=
    (∃ call file rest covSum covmap covSum', control = .merging call (file :: rest) covSum ∧
      storeFile (store.covmap, covSum) file = some (covmap, covSum') ∧
      control' = .merging call rest covSum' ∧ store' = { store with covmap }) ∨
    (∃ call file rest covSum, control = .merging call (file :: rest) covSum ∧
      storeFile (store.covmap, covSum) file = none ∧ control' = .raised ∧ store' = store) ∨
    (∃ call covSum, control = .merging call [] covSum ∧ control' = .logged call ∧
      store' = { store with log := store.log ++ [⟨call.elapsed, call.iter, covSum⟩] })
  leave control store store' :=
    ∃ call, control = .logged call ∧ store' = { store with calls := store.calls ++ [call] }

/-- The shared directory and the log after whole calls. -/
def Stored (width : Text → Nat) (initial : Dict Text Text) (store : Store) : Prop :=
  (∀ call ∈ store.calls, call.Valid width) ∧
    Merged width initial (storedBy store.calls) store.covmap ∧
    store.log.map LogEntry.covSum = totals width initial [] store.calls

/-- What the process in a call knows of the shared directory and the log. -/
def Storing.Knows (width : Text → Nat) (initial : Dict Text Text) : Storing → Store → Prop
  | .merging call rest covSum, store => (∀ call ∈ store.calls, call.Valid width) ∧
      call.Valid width ∧ store.log.map LogEntry.covSum = totals width initial [] store.calls ∧
      ∃ front, call.files = front ++ rest ∧
        Merged width initial (storedBy store.calls ++ front) store.covmap ∧
        covSum = total width initial (storedBy store.calls ++ front) (front.map Prod.fst)
  | .logged call, store => (∀ call ∈ store.calls, call.Valid width) ∧ call.Valid width ∧
      Merged width initial (storedBy store.calls ++ call.files) store.covmap ∧
      store.log.map LogEntry.covSum = totals width initial [] (store.calls ++ [call])
  | _, _ => False

/-- The next file of a call is merged. -/
theorem knows_storeFile {call : Call} {file : Text × Text} {rest : List (Text × Text)}
    {covSum : Nat} {store : Store}
    (knows : (Storing.merging call (file :: rest) covSum).Knows width initial store) :
    ∃ covmap covSum', storeFile (store.covmap, covSum) file = some (covmap, covSum') ∧
      (Storing.merging call rest covSum').Knows width initial { store with covmap } := by
  rcases knows with ⟨earlier, valid, logged, front, files, merged, isSum⟩
  have isMap : IsMap (width file.1) file.2 := valid.2 file (by simp [files])
  have new : file.1 ∉ front.map Prod.fst := by
    have distinct := valid.1
    rw [files, List.map_append, List.map_cons] at distinct
    exact fun mem => (List.nodup_append.mp distinct).2.2 _ mem _ List.mem_cons_self rfl
  rcases storeFile_merged merged isMap covSum with ⟨covmap, isStored, isMerged⟩
  refine ⟨covmap, _, isStored, earlier, valid, logged, front ++ [file], by simp [files], ?_, ?_⟩
  · rw [← List.append_assoc]
    exact isMerged
  · have others : total width initial (storedBy store.calls ++ front ++ [file])
        (front.map Prod.fst) =
        total width initial (storedBy store.calls ++ front) (front.map Prod.fst) := by
      apply total_append
      intro name mem same
      rw [List.map_singleton, List.mem_singleton] at same
      exact new (same ▸ mem)
    rw [isSum, ← others, ← List.append_assoc, List.map_append, total, total, total,
      ← List.sum_append, ← List.map_append]
    rfl

theorem storing_keeps : (storing (Call.Valid width)).Keeps (Stored width initial)
    (Storing.Knows width initial) where
  enter enters isStored := by
    rcases enters with ⟨call, valid, rfl⟩
    refine ⟨isStored.1, valid, isStored.2.2, [], rfl, ?_, rfl⟩
    rw [List.append_nil]
    exact isStored.2.1
  work knows works := by
    rcases works with ⟨call, file, rest, covSum, covmap, covSum', rfl, isStored, rfl, rfl⟩ |
      ⟨call, file, rest, covSum, rfl, raises, rfl, rfl⟩ | ⟨call, covSum, rfl, rfl, rfl⟩
    · rcases knows_storeFile knows with ⟨covmap', covSum'', isStored', knows'⟩
      cases isStored.symm.trans isStored'
      exact knows'
    · rcases knows_storeFile knows with ⟨covmap', covSum'', isStored', _⟩
      cases raises.symm.trans isStored'
    · rcases knows with ⟨earlier, valid, logged, front, files, merged, isSum⟩
      rw [List.append_nil] at files
      subst files
      refine ⟨earlier, valid, merged, ?_⟩
      rw [List.map_append, logged, totals_concat, List.nil_append, isSum]
      rfl
  leave knows leaves := by
    rcases leaves with ⟨call, rfl, rfl⟩
    rcases knows with ⟨earlier, valid, merged, logged⟩
    refine ⟨?_, ?_, logged⟩
    · intro other mem
      rcases List.mem_append.mp mem with mem | mem
      · exact earlier other mem
      · exact List.mem_singleton.mp mem ▸ valid
    · rw [storedBy, List.flatMap_append, List.flatMap_singleton]
      exact merged

namespace CovMaps

variable {π : Type*} [DecidableEq π]

/-- The manager as the semaphore of the coverage maps sees it. -/
def guarded (maps : CovMaps π) : Semaphore.Guarded π Store Storing :=
  ⟨maps.covMapSem, ⟨maps.covmap, maps.log, maps.calls⟩, fun process =>
    (maps.control process).within⟩

/-- A step of a process changes its own state only. -/
theorem guarded_update {maps : CovMaps π} {process : π} {next : Storing} {value : Nat}
    {store : Store} :
    guarded ⟨value, store.covmap, store.log, Function.update maps.control process next,
      store.calls⟩ =
      ⟨value, store, Function.update maps.guarded.inside process next.within⟩ := by
  rw [guarded]
  congr 1
  exact Function.comp_update Storing.within maps.control process next

/-- Every step is a step in a call. -/
theorem step_guarded {Valid : Call → Prop} {maps maps' : CovMaps π}
    (stepped : Step Valid maps maps') :
    Semaphore.Step (storing Valid) maps.guarded maps'.guarded := by
  rcases stepped with ⟨process, call, valid, isStep⟩
  have inside : ∀ {control : Storing}, maps.control process = control →
      maps.guarded.inside process = control.within :=
    fun isControl => congrArg Storing.within isControl
  cases isControl : maps.control process with
  | outside =>
      simp only [step, isControl, Option.ite_none_right_eq_some, Option.some.injEq] at isStep
      rcases isStep with ⟨positive, rfl⟩
      rw [@guarded_update _ _ maps process _ _ ⟨maps.covmap, maps.log, maps.calls⟩]
      exact .acquire (inside isControl) positive ⟨call, valid, rfl⟩
  | merging own rest covSum =>
      cases rest with
      | nil =>
          simp only [step, isControl, Option.some.injEq] at isStep
          rw [← isStep, @guarded_update _ _ maps process _ _ ⟨maps.covmap, _, maps.calls⟩]
          exact .work (inside isControl) (.inr (.inr ⟨own, covSum, rfl, rfl, rfl⟩))
      | cons file rest =>
          cases isStored : storeFile (maps.covmap, covSum) file with
          | none =>
              simp only [step, isControl, isStored, Option.some.injEq] at isStep
              rw [← isStep,
                @guarded_update _ _ maps process _ _ ⟨maps.covmap, maps.log, maps.calls⟩]
              exact .work (inside isControl)
                (.inr (.inl ⟨own, file, rest, covSum, rfl, isStored, rfl, rfl⟩))
          | some result =>
              simp only [step, isControl, isStored, Option.some.injEq] at isStep
              rw [← isStep,
                @guarded_update _ _ maps process _ _ ⟨result.1, maps.log, maps.calls⟩]
              exact .work (inside isControl)
                (.inl ⟨own, file, rest, covSum, result.1, result.2, rfl, isStored, rfl, rfl⟩)
  | logged own =>
      simp only [step, isControl, Option.some.injEq] at isStep
      rw [← isStep, @guarded_update _ _ maps process _ _ ⟨maps.covmap, maps.log, _⟩]
      exact .release (inside isControl) ⟨own, rfl, rfl⟩
  | raised =>
      simp only [step, isControl, reduceCtorEq] at isStep

/-- What the semaphore guarantees in every state that the processes reach. -/
theorem excludes_of_run {maps : CovMaps π}
    (initialMaps : ∀ name content, initial.get? name = some content → IsMap (width name) content)
    (run : Run (Call.Valid width) (init initial) maps) :
    Semaphore.Excludes (Stored width initial) (Storing.Knows width initial) maps.guarded := by
  have start : Stored width initial ⟨initial, [], []⟩ := by
    refine ⟨fun call mem => (List.not_mem_nil mem).elim, fun name => ?_, rfl⟩
    rw [mapsOf, mapsUnder, storedBy, List.flatMap_nil, List.filter_nil, List.map_nil,
      List.append_nil]
    cases content : initial.get? name with
    | none => rfl
    | some text =>
        have points : anyCovered (some text).toList = covered text := by
          funext n
          simp [anyCovered]
        rw [orOf, if_neg (by simp), points, spelled_covered (initialMaps name text content)]
  have excludes : Semaphore.Excludes (Stored width initial) (Storing.Knows width initial)
      (init initial : CovMaps π).guarded := .free rfl (fun _ => rfl) start
  unfold Run at run
  induction run with
  | refl => exact excludes
  | tail _ stepped inductionHypothesis =>
      exact inductionHypothesis.step storing_keeps (step_guarded stepped)

/-- No call raises, and when all calls have returned the shared map of each name is the bitwise
or of its initial content and of all maps that were stored under the name, whatever the order
and the repetitions; the totals in the log do not decrease when all calls have the same names. -/
theorem covmap_merged {π' : Type*} [DecidableEq π'] {maps : CovMaps π}
    (initialMaps : ∀ name content, initial.get? name = some content → IsMap (width name) content)
    (run : Run (Call.Valid width) (init initial) maps) :
    (∀ process, maps.control process ≠ .raised) ∧
      ((∀ process, maps.control process = .outside) →
        (∀ name, maps.covmap.get? name = orOf (width name)
          ((initial.get? name).toList ++ mapsUnder name (storedBy maps.calls))) ∧
        (∀ maps' : CovMaps π', Run (Call.Valid width) (init initial) maps' →
          (∀ process, maps'.control process = .outside) →
          (∀ name map, map ∈ mapsUnder name (storedBy maps.calls) ↔
            map ∈ mapsUnder name (storedBy maps'.calls)) →
          ∀ name, maps.covmap.get? name = maps'.covmap.get? name) ∧
        ((∀ call ∈ maps.calls, ∀ other ∈ maps.calls, ∀ name,
            name ∈ call.names ↔ name ∈ other.names) →
          (maps.log.map LogEntry.covSum).Pairwise (· ≤ ·))) := by
  have excludes := excludes_of_run initialMaps run
  constructor
  · intro process isRaised
    have inside : maps.guarded.inside process = some .raised :=
      congrArg Storing.within isRaised
    exact (excludes.of_inside inside).2
  · intro allOutside
    have isStored := excludes.of_outside fun process => congrArg Storing.within (allOutside process)
    refine ⟨isStored.2.1, ?_, ?_⟩
    · intro maps' run' allOutside' same name
      have excludes' := excludes_of_run initialMaps run'
      have isStored' := excludes'.of_outside fun process =>
        congrArg Storing.within (allOutside' process)
      refine (isStored.2.1 name).trans (Eq.trans ?_ (isStored'.2.1 name).symm)
      apply orOf_congr
      intro map
      rw [mapsOf, mapsOf, List.mem_append, List.mem_append]
      exact or_congr_right (same name map)
    · intro same
      have logged : maps.log.map LogEntry.covSum = totals width initial [] maps.calls :=
        isStored.2.2
      rw [logged]
      cases calls : maps.calls with
      | nil => exact List.Pairwise.nil
      | cons first rest =>
          have isFirst : first ∈ maps.calls := by simp [calls]
          apply And.left
          apply @totals_sorted _ _ first.names
          intro call mem
          have isCall : call ∈ maps.calls := by simpa [calls] using mem
          exact (List.perm_ext_iff_of_nodup (isStored.1 call isCall).1
            (isStored.1 first isFirst).1).mpr (same call isCall first isFirst)

/-- Steps that are given one after the other are a run. -/
theorem run_of_steps {Valid : Call → Prop} {moves : List (π × Call)} {maps maps' : CovMaps π}
    (valid : ∀ move ∈ moves, Valid move.2)
    (steps : moves.foldlM (fun maps move => maps.step move.1 move.2) maps = some maps') :
    Run Valid maps maps' := by
  induction moves generalizing maps with
  | nil =>
      cases steps
      exact .refl
  | cons move moves inductionHypothesis =>
      rw [List.foldlM_cons] at steps
      rcases Option.bind_eq_some_iff.mp steps with ⟨middle, first, rest⟩
      have isStep : Step Valid maps middle :=
        ⟨move.1, move.2, valid move List.mem_cons_self, first⟩
      exact .head isStep
        (inductionHypothesis (fun other mem => valid other (List.mem_cons_of_mem move mem)) rest)

/-- Two processes that store a map of the same name. -/
theorem covmap_merged_two : ∃ maps : CovMaps Bool,
    Run (Call.Valid fun _ => 3) (init (Dict.empty.set "ICache_cov.dat".toList "100".toList)) maps ∧
      (∀ process, maps.control process = .outside) ∧
      maps.covmap.get? "ICache_cov.dat".toList = some "111".toList ∧
      maps.log.map LogEntry.covSum = [2, 3] ∧
      (maps.log.map LogEntry.covSum).Pairwise (· ≤ ·) := by
  let first : Call := ⟨[("ICache_cov.dat".toList, "010".toList)], "1.5".toList, 5000⟩
  let second : Call := ⟨[("ICache_cov.dat".toList, "001".toList)], "2.5".toList, 5000⟩
  let moves : List (Bool × Call) :=
    [(true, first), (true, first), (true, first), (true, first), (false, second),
      (false, second), (false, second), (false, second)]
  have states : ((moves.foldlM (fun (maps : CovMaps Bool) move => maps.step move.1 move.2)
      (init (Dict.empty.set "ICache_cov.dat".toList "100".toList))).map
        fun maps => decide (maps.control true = .outside ∧ maps.control false = .outside ∧
          maps.calls = [first, second] ∧
          maps.covmap.get? "ICache_cov.dat".toList = some "111".toList ∧
          maps.log.map LogEntry.covSum = [2, 3])) = some true := by
    decide +kernel
  rcases Option.map_eq_some_iff.mp states with ⟨maps, steps, isState⟩
  rcases of_decide_eq_true isState with ⟨isTrue, isFalse, calls, covmap, log⟩
  have isMap : ∀ text ∈ ["100".toList, "010".toList, "001".toList], IsMap 3 text := by
    intro text mem
    constructor
    · revert text
      decide
    · revert text
      decide
  have valid : ∀ move ∈ moves, Call.Valid (fun _ => 3) move.2 := by
    have firstValid : Call.Valid (fun _ => 3) first := by
      refine ⟨by decide, fun file mem => ?_⟩
      cases List.mem_singleton.mp mem
      exact isMap _ (by decide)
    have secondValid : Call.Valid (fun _ => 3) second := by
      refine ⟨by decide, fun file mem => ?_⟩
      cases List.mem_singleton.mp mem
      exact isMap _ (by decide)
    intro move mem
    have either : move.2 = first ∨ move.2 = second := by
      revert move
      decide
    rcases either with same | same
    · exact same ▸ firstValid
    · exact same ▸ secondValid
  have initialMaps : ∀ name content,
      (Dict.empty.set "ICache_cov.dat".toList "100".toList).get? name = some content →
        IsMap 3 content := by
    intro name content found
    rw [Dict.get?_set] at found
    split at found
    · cases found
      exact isMap _ (by decide)
    · cases found
  have run := run_of_steps valid steps
  have outside : ∀ process, maps.control process = .outside := by
    intro process
    cases process with
    | true => exact isTrue
    | false => exact isFalse
  have names : ∀ call ∈ maps.calls, ∀ other ∈ maps.calls, ∀ name,
      name ∈ call.names ↔ name ∈ other.names := by
    have same : ∀ call ∈ maps.calls, call.names = first.names := by
      rw [calls]
      decide
    intro call isCall other isOther name
    rw [same call isCall, same other isOther]
  exact ⟨maps, run, outside, covmap, log,
    ((@covmap_merged _ _ _ _ Bool _ maps initialMaps run).2 outside).2.2 names⟩

end CovMaps

end Difftest.Fuzzer

import Difftest.Firrtl.Completeness
import Difftest.Text.Decimal
import Mathlib.Data.Char
import Mathlib.Data.List.Lex
import Mathlib.Data.List.TakeWhile

/-!
# Vectors of registers

`findVecRegs` takes the control registers that were defined at one place in the sources for a
vector when their names have a common beginning, behind which stand the indices from zero on, each
with the same endings.  Such endings are empty or start with an underscore, so the name of an
element shows its index.
-/

namespace Difftest.Firrtl

open Decimal

/-! ## Detection -/

/-- `getClass.getSimpleName`: the class of the object `NoInfo` has a dollar in its name. -/
def Info.simpleName : Info → String
  | [] => "NoInfo$"
  | [_] => "FileInfo"
  | _ => "MultiInfo"

/-- The sorted names of the registers with some information. -/
def namesAt (ctrlRegs : List Register) (info : Info) : List (List Char) :=
  ((ctrlRegs.filter fun reg => reg.info = info).map fun reg => reg.name.toList).insertionSort
    (· ≤ ·)

/-- The beginnings that all names share. -/
def commonInits : List (List Char) → List (List Char)
  | [] => []
  | head :: names =>
      (head :: names).foldl (fun set name => name.inits.filter (· ∈ set)) head.inits

/-- `maxBy(_.length)`. -/
def longest (inits : List (List Char)) : List Char :=
  inits.foldl (fun best init => if best.length < init.length then init else best) []

/-- `prefix`. -/
def commonPrefix (names : List (List Char)) : List Char := longest (commonInits names)

/-- `toInt`; `none` is a `NumberFormatException`. -/
def toInt (text : List Char) : Option Nat :=
  if text ≠ [] ∧ Digits text ∧ value text < 2 ^ 31 then some (value text) else none

/-- `idx`: the number in front of the first underscore. -/
def bodyIndex (body : List Char) : Option Nat := toInt (body.takeWhile (· ≠ '_'))

/-- What is left of a body behind its index. -/
def bodyRest (idx : Nat) (body : List Char) : List Char := body.drop (toString idx).length

/-- One turn of the loop that fills `vElements`. -/
def addElement (elements : Dict Nat (List (List Char))) (body : List Char) :
    Option (Dict Nat (List (List Char))) :=
  (bodyIndex body).map fun idx => elements.set idx (elements.getD idx [] ++ [bodyRest idx body])

/-- `vElements`. -/
def vElements (bodies : List (List Char)) : Option (Dict Nat (List (List Char))) :=
  bodies.foldlM addElement Dict.empty

/-- How many keys are followed by the next number. -/
def countSteps : List Nat → Nat
  | first :: second :: keys =>
      (if first + 1 = second then 1 else 0) + countSteps (second :: keys)
  | _ => 0

/-- The vector that the elements make, if they do.  A single key has a window without a second
entry, and `firstKey` is the key that comes first when the map is traversed. -/
def vecOf (firstKey : List Nat → Nat) (namePrefix : List Char)
    (elements : Dict Nat (List (List Char))) : Option (Option VecRegs) :=
  let keys := elements.keys
  let bodies := elements.getD (firstKey keys) []
  if keys.length = 1 then none
  else if countSteps (keys.insertionSort (· ≤ ·)) = keys.length - 1 ∧ firstKey keys = 0 ∧
      ∀ key ∈ keys, elements.getD key [] ⊆ bodies ∧ bodies ⊆ elements.getD key [] then
    some (some ⟨keys.length, String.ofList namePrefix, bodies.dedup.map String.ofList⟩)
  else some none

/-- What the names of the registers at one place make. -/
def vecAt (firstKey : List Nat → Nat) (names : List (List Char)) : Option (Option VecRegs) :=
  let namePrefix := commonPrefix names
  let bodies := names.map fun name => name.drop namePrefix.length
  if namePrefix = [] then some none
  else if bodies.all fun body => body.head?.any Char.isDigit then
    (vElements bodies).bind (vecOf firstKey namePrefix)
  else some none

/-- The places with several registers. -/
def infosOf (ctrlRegs : List Register) : List Info :=
  (ctrlRegs.map Register.info).dedup.filter fun info =>
    info.simpleName ≠ "NoInfo" ∧ 2 ≤ (namesAt ctrlRegs info).length

/-- `findVecRegs`.  A module without nodes has no control registers either. -/
def findVecRegs (firstKey : List Nat → Nat) (ctrlRegs : List Register) : Option (List VecRegs) :=
  ((infosOf ctrlRegs).mapM fun info => vecAt firstKey (namesAt ctrlRegs info)).map fun vecs =>
    (vecs.filterMap id).dedup

/-- `moduleInfo` made from the graph.  What `findVecRegs` reports is a set, which may be traversed
in any order. -/
structure Module.IsInfo (firstKey : List Nat → Nat) (mod : Module) (info : ModuleInfo) : Prop where
  isInfo : mod.info info.vecRegs = some info
  reported : ∃ found, findVecRegs firstKey info.ctrlRegs = some found ∧ info.vecRegs.Perm found

/-- The name of element `i` with one of the bodies. -/
def VecRegs.elementName (vec : VecRegs) (i : Nat) (body : String) : String :=
  vec.namePrefix ++ (toString i ++ body)

/-! ## Common beginnings -/

theorem mem_foldl_inits {names : List (List Char)} {set : List (List Char)} {init : List Char}
    (mem : init ∈ names.foldl (fun set name => name.inits.filter (· ∈ set)) set) :
    ∀ name ∈ names, init <+: name := by
  induction names using List.reverseRecOn generalizing init with
  | nil => exact List.forall_mem_nil _
  | append_singleton names last inductionHypothesis =>
      rw [List.foldl_append, List.foldl_cons, List.foldl_nil] at mem
      rcases List.mem_filter.mp mem with ⟨isInit, inSet⟩
      rw [decide_eq_true_eq] at inSet
      rw [List.forall_mem_append]
      constructor
      · exact inductionHypothesis inSet
      · exact List.forall_mem_singleton.mpr ((List.mem_inits _ _).mp isInit)

theorem longest_mem (inits : List (List Char)) : longest inits ∈ inits ∨ longest inits = [] := by
  induction inits using List.reverseRecOn with
  | nil => exact Or.inr rfl
  | append_singleton inits last inductionHypothesis =>
      rw [longest, List.foldl_append, List.foldl_cons, List.foldl_nil, ← longest]
      split
      · exact Or.inl (List.mem_append_right _ (List.mem_singleton_self last))
      · exact inductionHypothesis.imp_left (List.mem_append_left _)

/-- The chosen beginning is one of every name. -/
theorem commonPrefix_isPrefix {names : List (List Char)} {name : List Char} (mem : name ∈ names) :
    commonPrefix names <+: name := by
  rw [commonPrefix]
  rcases longest_mem (commonInits names) with inits | empty
  · cases names with
    | nil => cases mem
    | cons head names => exact mem_foldl_inits inits name mem
  · rw [empty]
    exact List.nil_prefix

/-! ## Elements by index -/

section Elements

variable {bodies : List (List Char)} {elements result : Dict Nat (List (List Char))}

theorem getD_addElement {body : List Char} (added : addElement elements body = some result)
    (idx : Nat) :
    result.getD idx [] = elements.getD idx [] ++
      if bodyIndex body = some idx then [bodyRest idx body] else [] := by
  rcases Option.map_eq_some_iff.mp added with ⟨key, isKey, rfl⟩
  rw [Dict.getD_set, isKey]
  by_cases same : idx = key
  · rw [if_pos same, if_pos (congrArg some same.symm), same]
  · rw [if_neg same, if_neg (fun equal => same (Option.some.inj equal).symm), List.append_nil]

theorem mem_keys_addElement {body : List Char} (added : addElement elements body = some result)
    (idx : Nat) : idx ∈ result.keys ↔ idx ∈ elements.keys ∨ bodyIndex body = some idx := by
  rcases Option.map_eq_some_iff.mp added with ⟨key, isKey, rfl⟩
  rw [Dict.mem_keys_set, isKey, Option.some.injEq, or_comm, eq_comm]

/-- The entry of an index lists what is left of the bodies with that index. -/
theorem getD_foldlM_addElement (filled : bodies.foldlM addElement elements = some result)
    (idx : Nat) :
    result.getD idx [] = elements.getD idx [] ++
      (bodies.filter fun body => bodyIndex body = some idx).map (bodyRest idx) := by
  induction bodies generalizing elements with
  | nil =>
      cases filled
      rw [List.filter_nil, List.map_nil, List.append_nil]
  | cons body bodies inductionHypothesis =>
      rw [List.foldlM_cons] at filled
      rcases Option.bind_eq_some_iff.mp filled with ⟨next, added, filled⟩
      rw [inductionHypothesis filled, getD_addElement added, List.filter_cons, List.append_assoc]
      split
      · rename_i isIndex
        rw [if_pos (decide_eq_true isIndex)]
        rfl
      · rename_i other
        rw [if_neg (by rwa [decide_eq_true_eq])]
        rfl

theorem mem_keys_foldlM_addElement (filled : bodies.foldlM addElement elements = some result)
    (idx : Nat) :
    idx ∈ result.keys ↔ idx ∈ elements.keys ∨ ∃ body ∈ bodies, bodyIndex body = some idx := by
  induction bodies generalizing elements with
  | nil =>
      cases filled
      simp
  | cons body bodies inductionHypothesis =>
      rw [List.foldlM_cons] at filled
      rcases Option.bind_eq_some_iff.mp filled with ⟨next, added, filled⟩
      rw [inductionHypothesis filled, mem_keys_addElement added, or_assoc]
      simp

theorem mem_getD_vElements (filled : vElements bodies = some elements) {idx : Nat}
    {rest : List Char} : rest ∈ elements.getD idx [] ↔
      ∃ body ∈ bodies, bodyIndex body = some idx ∧ bodyRest idx body = rest := by
  rw [getD_foldlM_addElement filled]
  simp [Dict.getD, and_assoc]

theorem mem_keys_vElements (filled : vElements bodies = some elements) {idx : Nat} :
    idx ∈ elements.keys ↔ ∃ body ∈ bodies, bodyIndex body = some idx := by
  rw [mem_keys_foldlM_addElement filled]
  simp [Dict.keys, Dict.empty]

end Elements

/-! ## Indices without gaps -/

theorem countSteps_le (keys : List Nat) : countSteps keys ≤ keys.length - 1 := by
  induction keys with
  | nil => exact Nat.le_refl 0
  | cons first keys inductionHypothesis =>
      cases keys with
      | nil => exact Nat.le_refl 0
      | cons second keys =>
          rw [countSteps]
          rw [List.length_cons, Nat.add_sub_cancel] at inductionHypothesis ⊢
          rw [List.length_cons]
          split
          · omega
          · omega

/-- When every window is a step, the keys count up. -/
theorem isChain_of_countSteps {keys : List Nat} (all : countSteps keys = keys.length - 1) :
    keys.IsChain fun first second => first + 1 = second := by
  induction keys with
  | nil => exact List.isChain_nil
  | cons first keys inductionHypothesis =>
      cases keys with
      | nil => exact List.isChain_singleton first
      | cons second keys =>
          have rest := countSteps_le (second :: keys)
          rw [countSteps] at all
          rw [List.length_cons, Nat.add_sub_cancel] at all rest
          rw [List.length_cons] at all
          apply List.isChain_cons_cons.mpr
          split at all
          · rename_i step
            refine ⟨step, inductionHypothesis ?_⟩
            rw [List.length_cons]
            omega
          · omega

theorem eq_range'_of_isChain {first : Nat} {keys : List Nat}
    (chain : (first :: keys).IsChain fun first second => first + 1 = second) :
    first :: keys = List.range' first (keys.length + 1) := by
  induction keys generalizing first with
  | nil => rfl
  | cons second keys inductionHypothesis =>
      rcases List.isChain_cons_cons.mp chain with ⟨step, rest⟩
      rw [List.length_cons, List.range'_succ, step, ← inductionHypothesis rest]

/-- Keys that count up and contain zero are those below their number. -/
theorem mem_of_countSteps {keys : List Nat}
    (all : countSteps (keys.insertionSort (· ≤ ·)) = keys.length - 1) (zero : 0 ∈ keys) {i : Nat}
    (below : i < keys.length) : i ∈ keys := by
  have same : ∀ key, key ∈ keys.insertionSort (· ≤ ·) ↔ key ∈ keys := fun key =>
    List.mem_insertionSort (· ≤ ·)
  have length : (keys.insertionSort (· ≤ ·)).length = keys.length :=
    List.length_insertionSort (· ≤ ·) keys
  rw [← length] at all below
  rw [← same] at zero ⊢
  have chain := isChain_of_countSteps all
  generalize keys.insertionSort (· ≤ ·) = sorted at zero chain below
  cases sorted with
  | nil => cases zero
  | cons first sorted =>
      rw [eq_range'_of_isChain chain] at zero ⊢
      rw [List.mem_range'_1] at zero ⊢
      rw [List.length_cons] at below
      omega

/-! ## Bodies -/

theorem bodyIndex_eq_some {body : List Char} {idx : Nat} (isIndex : bodyIndex body = some idx) :
    body.takeWhile (· ≠ '_') ≠ [] ∧ Digits (body.takeWhile (· ≠ '_')) ∧
      value (body.takeWhile (· ≠ '_')) = idx := by
  rw [bodyIndex, toInt] at isIndex
  split at isIndex
  · rename_i readable
    exact ⟨readable.1, readable.2.1, Option.some.inj isIndex⟩
  · cases isIndex

theorem length_toString (idx : Nat) : (toString idx).length = (Nat.toDigits 10 idx).length :=
  String.length_ofList

/-- The first character of a body belongs to its index. -/
theorem exists_cons_of_bodyIndex {body : List Char} {idx : Nat}
    (isIndex : bodyIndex body = some idx) :
    ∃ c rest, body = c :: rest ∧ value (c :: rest.takeWhile (· ≠ '_')) = idx := by
  rcases bodyIndex_eq_some isIndex with ⟨nonempty, _, isValue⟩
  cases body with
  | nil => exact absurd rfl nonempty
  | cons c rest =>
      rw [List.takeWhile_cons] at nonempty isValue
      split at nonempty
      · rename_i plain
        rw [if_pos plain] at isValue
        exact ⟨c, rest, rfl, isValue⟩
      · exact absurd rfl nonempty

/-- What is left of bodies with the indices zero and one does not continue the index. -/
theorem head_of_rests {body body' rest : List Char} (zero : bodyIndex body = some 0)
    (isRest : bodyRest 0 body = rest) (one : bodyIndex body' = some 1)
    (isRest' : bodyRest 1 body' = rest) : ∀ c ∈ rest.head?, c = '_' := by
  rcases exists_cons_of_bodyIndex zero with ⟨c, tail, rfl, isZero⟩
  rcases exists_cons_of_bodyIndex one with ⟨c', tail', rfl, isOne⟩
  have isTail : tail = rest := isRest
  have isTail' : tail' = rest := isRest'
  rw [isTail] at isZero
  rw [isTail'] at isOne
  have nothing := eq_nil_of_value_cons isZero isOne
  intro d isHead
  cases rest with
  | nil => cases isHead
  | cons first rest =>
      rw [← Option.some.inj isHead]
      rw [List.takeWhile_cons] at nothing
      split at nothing
      · cases nothing
      · rename_i underscore
        simpa using underscore

/-- Such a body is its index and what is left. -/
theorem body_eq {body : List Char} {idx : Nat} (isIndex : bodyIndex body = some idx)
    (ends : ∀ c ∈ (bodyRest idx body).head?, c = '_') :
    body = Nat.toDigits 10 idx ++ bodyRest idx body := by
  rcases bodyIndex_eq_some isIndex with ⟨nonempty, digits, isValue⟩
  have long := length_toDigits_le nonempty digits
  rw [bodyRest, length_toString] at ends ⊢
  rw [isValue] at long
  generalize isWord : body.takeWhile (· ≠ '_') = word at nonempty digits isValue long
  have parts : body = word ++ body.dropWhile (· ≠ '_') := by
    rw [← isWord, List.takeWhile_append_dropWhile]
  have length : word.length = (Nat.toDigits 10 idx).length := by
    by_contra longer
    have behind : word.drop (Nat.toDigits 10 idx).length ≠ [] := by
      rw [Ne, List.drop_eq_nil_iff]
      omega
    rcases List.exists_cons_of_ne_nil behind with ⟨c, more, shape⟩
    rw [parts, List.drop_append_of_le_length long, shape] at ends
    have inWord : c ∈ word := List.mem_of_mem_drop (shape ▸ List.mem_cons_self)
    rw [← isWord] at inWord
    have plain := List.mem_takeWhile_imp inWord
    rw [ends c rfl] at plain
    exact absurd plain (by decide)
  have isDigits := eq_toDigits digits (by rw [isValue, length])
  rw [isValue] at isDigits
  rw [parts, ← length, List.drop_left, isDigits]

/-! ## Reported vectors -/

namespace VecRegs

/-- The elements of a vector are registers that were defined at one place. -/
structure At (ctrlRegs : List Register) (info : Info) (vec : VecRegs) : Prop where
  size : 2 ≤ vec.size
  ends : ∀ body ∈ vec.bodies, ∀ c ∈ body.toList.head?, c = '_'
  elements : ∀ i < vec.size, ∀ body ∈ vec.bodies,
    ∃ reg ∈ ctrlRegs, reg.info = info ∧ reg.name = vec.elementName i body

theorem toList_elementName (vec : VecRegs) (i : Nat) (body : String) :
    (vec.elementName i body).toList =
      vec.namePrefix.toList ++ (Nat.toDigits 10 i ++ body.toList) := by
  have digits : (toString i).toList = Nat.toDigits 10 i := String.toList_ofList
  rw [elementName, String.toList_append, String.toList_append, digits]

/-- The name of an element shows its index and its body. -/
theorem elementName_inj {vec : VecRegs} {i i' : Nat} {body body' : String}
    (ends : ∀ c ∈ body.toList.head?, c = '_') (ends' : ∀ c ∈ body'.toList.head?, c = '_')
    (same : vec.elementName i body = vec.elementName i' body') : i = i' ∧ body = body' := by
  have takes : ∀ (n : Nat) (rest : List Char), (∀ c ∈ rest.head?, c = '_') →
      (Nat.toDigits 10 n ++ rest).takeWhile Char.isDigit = Nat.toDigits 10 n := by
    intro n rest isEnd
    rw [List.takeWhile_append_of_pos (digits_toDigits n)]
    cases rest with
    | nil => rw [List.takeWhile_nil, List.append_nil]
    | cons c rest =>
        rw [isEnd c rfl, List.takeWhile_cons_of_neg (by decide), List.append_nil]
  have lists := congrArg String.toList same
  rw [toList_elementName, toList_elementName, List.append_cancel_left_eq] at lists
  have numbers := congrArg (List.takeWhile Char.isDigit) lists
  rw [takes i _ ends, takes i' _ ends'] at numbers
  rw [numbers, List.append_cancel_left_eq] at lists
  have values := congrArg value numbers
  rw [value_toDigits, value_toDigits] at values
  exact ⟨values, String.toList_inj.mp lists⟩

end VecRegs

theorem exists_bodyIndex {bodies : List (List Char)} {elements result : Dict Nat (List (List Char))}
    (filled : bodies.foldlM addElement elements = some result) :
    ∀ body ∈ bodies, ∃ idx, bodyIndex body = some idx := by
  induction bodies generalizing elements with
  | nil => exact List.forall_mem_nil _
  | cons body bodies inductionHypothesis =>
      rw [List.foldlM_cons] at filled
      rcases Option.bind_eq_some_iff.mp filled with ⟨next, added, filled⟩
      rw [List.forall_mem_cons]
      constructor
      · rcases Option.map_eq_some_iff.mp added with ⟨idx, isIndex, _⟩
        exact ⟨idx, isIndex⟩
      · exact inductionHypothesis filled

theorem mem_namesAt_iff {ctrlRegs : List Register} {info : Info} {name : List Char} :
    name ∈ namesAt ctrlRegs info ↔
      ∃ reg ∈ ctrlRegs, reg.info = info ∧ reg.name.toList = name := by
  rw [namesAt, List.mem_insertionSort]
  simp [and_assoc]

/-- What the elements of a reported vector have in common. -/
structure Regular (elements : Dict Nat (List (List Char))) (rests : List (List Char)) : Prop where
  size : 2 ≤ elements.keys.length
  present : ∀ i < elements.keys.length, ∀ rest ∈ rests, rest ∈ elements.getD i []

/-- The elements that make a vector. -/
theorem regular_of_vecOf {firstKey : List Nat → Nat} {namePrefix : List Char}
    {bodies : List (List Char)} {elements : Dict Nat (List (List Char))} {vec : VecRegs}
    (nonempty : bodies ≠ []) (filled : vElements bodies = some elements)
    (isVec : vecOf firstKey namePrefix elements = some (some vec)) :
    ∃ rests, Regular elements rests ∧
      vec = ⟨elements.keys.length, String.ofList namePrefix, rests.dedup.map String.ofList⟩ := by
  rw [vecOf] at isVec
  split at isVec
  · cases isVec
  · rename_i notOne
    split at isVec
    · rename_i regular
      rcases regular with ⟨steps, isFirst, sameSets⟩
      rcases List.exists_mem_of_ne_nil _ nonempty with ⟨body, isBody⟩
      rcases exists_bodyIndex filled body isBody with ⟨idx, isIndex⟩
      have isKey := (mem_keys_vElements filled).mpr ⟨body, isBody, isIndex⟩
      have several : 2 ≤ elements.keys.length := by
        have positive := List.length_pos_of_mem isKey
        omega
      have isRest := (mem_getD_vElements filled).mpr ⟨body, isBody, isIndex, rfl⟩
      have atFirst := (sameSets idx isKey).1 isRest
      rw [isFirst] at atFirst
      rcases (mem_getD_vElements filled).mp atFirst with ⟨body', isBody', isZero, _⟩
      have zero := (mem_keys_vElements filled).mpr ⟨body', isBody', isZero⟩
      refine ⟨elements.getD (firstKey elements.keys) [], ⟨several, ?_⟩, ?_⟩
      · intro i below rest isElement
        exact (sameSets i (mem_of_countSteps steps zero below)).2 isElement
      · exact (Option.some.inj (Option.some.inj isVec)).symm
    · cases isVec

/-- A vector that names make has an element for each index and each body. -/
theorem at_of_vecAt {firstKey : List Nat → Nat} {ctrlRegs : List Register} {info : Info}
    {vec : VecRegs} (several : 2 ≤ (namesAt ctrlRegs info).length)
    (isVec : vecAt firstKey (namesAt ctrlRegs info) = some (some vec)) :
    vec.At ctrlRegs info := by
  rw [vecAt] at isVec
  split at isVec
  · cases isVec
  · split at isVec
    · rcases Option.bind_eq_some_iff.mp isVec with ⟨elements, filled, isVec⟩
      have nonempty : (namesAt ctrlRegs info).map
          (fun name => name.drop (commonPrefix (namesAt ctrlRegs info)).length) ≠ [] := by
        intro empty
        rw [List.map_eq_nil_iff.mp empty] at several
        exact absurd several (by decide)
      rcases regular_of_vecOf nonempty filled isVec with ⟨rests, regular, rfl⟩
      have ends : ∀ rest ∈ rests, ∀ c ∈ rest.head?, c = '_' := by
        intro rest isRest
        have zero := regular.present 0 (Nat.zero_lt_of_lt regular.size) rest isRest
        have one := regular.present 1 regular.size rest isRest
        rcases (mem_getD_vElements filled).mp zero with ⟨body, _, isZero, isRest⟩
        rcases (mem_getD_vElements filled).mp one with ⟨body', _, isOne, isRest'⟩
        exact head_of_rests isZero isRest isOne isRest'
      constructor
      case size => exact regular.size
      case ends =>
        intro body isBody
        rcases List.mem_map.mp isBody with ⟨rest, isRest, rfl⟩
        rw [String.toList_ofList]
        exact ends rest (List.mem_dedup.mp isRest)
      case elements =>
        intro i below body isBody
        rcases List.mem_map.mp isBody with ⟨rest, isRest, rfl⟩
        have isElement := List.mem_dedup.mp isRest
        rcases (mem_getD_vElements filled).mp (regular.present i below rest isElement) with
          ⟨body, inBodies, isIndex, rfl⟩
        rcases List.mem_map.mp inBodies with ⟨name, isName, rfl⟩
        rcases mem_namesAt_iff.mp isName with ⟨reg, isReg, isInfo, rfl⟩
        refine ⟨reg, isReg, isInfo, ?_⟩
        rcases commonPrefix_isPrefix isName with ⟨behind, parts⟩
        have isBehind : reg.name.toList.drop (commonPrefix (namesAt ctrlRegs info)).length =
            behind := by
          rw [← parts, List.drop_left]
        rw [isBehind] at isIndex isElement ⊢
        apply String.toList_inj.mp
        rw [VecRegs.toList_elementName, String.toList_ofList, String.toList_ofList, ← parts,
          ← body_eq isIndex (ends _ isElement)]
    · cases isVec

/-- What is reported comes from the names at some place. -/
theorem mem_findVecRegs {firstKey : List Nat → Nat} {ctrlRegs : List Register}
    {found : List VecRegs} (reported : findVecRegs firstKey ctrlRegs = some found) {vec : VecRegs}
    (mem : vec ∈ found) : ∃ info, 2 ≤ (namesAt ctrlRegs info).length ∧
      vecAt firstKey (namesAt ctrlRegs info) = some (some vec) := by
  rcases Option.map_eq_some_iff.mp reported with ⟨vecs, traversed, rfl⟩
  rcases List.mem_filterMap.mp (List.mem_dedup.mp mem) with ⟨entry, isEntry, isVec⟩
  have isSome : entry = some vec := isVec
  rw [isSome] at isEntry
  rcases (mem_mapM_iff traversed _).mp isEntry with ⟨info, isInfo, made⟩
  have several := (List.mem_filter.mp isInfo).2
  rw [decide_eq_true_eq] at several
  exact ⟨info, several.2, made⟩

/-- Control registers with one name are one register. -/
theorem Module.ctrlRegs_unique {mod : Module} {vecRegs : List VecRegs} {info : ModuleInfo}
    (isInfo : mod.info vecRegs = some info) {reg reg' : Register} (mem : reg ∈ info.ctrlRegs)
    (mem' : reg' ∈ info.ctrlRegs) (same : reg.name = reg'.name) : reg = reg' := by
  have named : ∀ reg ∈ info.ctrlRegs, mod.registerOf reg.name = some reg := by
    obtain ⟨srcs, _, found⟩ := Option.bind_eq_some_iff.mp isInfo
    obtain ⟨dirInRegs, _, rfl⟩ := Option.map_eq_some_iff.mp found
    intro reg isCtrl
    obtain ⟨name, _, isReg⟩ := List.mem_filterMap.mp (List.mem_dedup.mp isCtrl)
    rw [(of_registerOf isReg).1, isReg]
  have found := named reg mem
  rw [same, named reg' mem'] at found
  exact (Option.some.inj found).symm

/-- What the instrumentation relies on: control registers have different names, and no two
elements of the reported vectors have one name. -/
structure ModuleInfo.Vectors (info : ModuleInfo) : Prop where
  distinct : info.ctrlRegs.Nodup
  unique : ∀ reg ∈ info.ctrlRegs, ∀ reg' ∈ info.ctrlRegs, reg.name = reg'.name → reg = reg'
  size : ∀ vec ∈ info.vecRegs, 0 < vec.size
  apart : ∀ vec ∈ info.vecRegs, ∀ vec' ∈ info.vecRegs, ∀ i < vec.size, ∀ i' < vec'.size,
    ∀ body ∈ vec.bodies, ∀ body' ∈ vec'.bodies,
      vec.elementName i body = vec'.elementName i' body' → vec = vec' ∧ i = i' ∧ body = body'

/-- What the graph reports is as the instrumentation relies on. -/
theorem Module.IsInfo.vectors {firstKey : List Nat → Nat} {mod : Module} {info : ModuleInfo}
    (graph : mod.IsInfo firstKey info) : info.Vectors := by
  have unique : ∀ reg ∈ info.ctrlRegs, ∀ reg' ∈ info.ctrlRegs, reg.name = reg'.name → reg = reg' :=
    fun _ mem _ mem' same => ctrlRegs_unique graph.isInfo mem mem' same
  have places : ∀ vec ∈ info.vecRegs, ∃ place, vec.At info.ctrlRegs place ∧
      vecAt firstKey (namesAt info.ctrlRegs place) = some (some vec) := by
    intro vec mem
    rcases graph.reported with ⟨found, reported, sameSet⟩
    rcases mem_findVecRegs reported (sameSet.mem_iff.mp mem) with ⟨place, several, made⟩
    exact ⟨place, at_of_vecAt several made, made⟩
  constructor
  case distinct => exact nodup_ctrlRegs graph.isInfo
  case unique => exact unique
  case size =>
    intro vec mem
    rcases places vec mem with ⟨_, isAt, _⟩
    exact Nat.zero_lt_of_lt isAt.size
  case apart =>
    intro vec mem vec' mem' i below i' below' body isBody body' isBody' same
    rcases places vec mem with ⟨place, isAt, made⟩
    rcases places vec' mem' with ⟨place', isAt', made'⟩
    rcases isAt.elements i below body isBody with ⟨reg, isReg, isPlace, isName⟩
    rcases isAt'.elements i' below' body' isBody' with ⟨reg', isReg', isPlace', isName'⟩
    have sameReg := unique reg isReg reg' isReg' (by rw [isName, isName', same])
    have samePlace : place = place' := by rw [← isPlace, ← isPlace', sameReg]
    have sameVec : vec = vec' := by
      rw [← samePlace, made] at made'
      exact Option.some.inj (Option.some.inj made')
    rw [← sameVec] at same isBody'
    exact ⟨sameVec, VecRegs.elementName_inj (isAt.ends body isBody) (isAt.ends body' isBody') same⟩

end Difftest.Firrtl

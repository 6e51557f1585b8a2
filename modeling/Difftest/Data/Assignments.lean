import Difftest.Data.Dict
import Difftest.Data.Struct

/-!
# Assignments in a row

A loop that assigns to one key of a dictionary at each turn, where the value may raise.  The
last assignment to a key decides, and the loop raises what the first turn without a value
raises.
-/

namespace Difftest

universe u v w

namespace Dict

variable {κ : Type u} {ν : Type v} [DecidableEq κ]

theorem find_append (key : κ) (first second : List (κ × ν)) :
    find key (first ++ second) = (find key first).or (find key second) := by
  induction first with
  | nil => rfl
  | cons entry rest ih =>
      rw [List.cons_append, find, find]
      split
      · rfl
      · exact ih

/-- The assignments in order. -/
def setAll (dict : Dict κ ν) (entries : List (κ × ν)) : Dict κ ν :=
  entries.foldl (fun dict entry => dict.set entry.1 entry.2) dict

/-- What the last assignment to a key assigns. -/
def lastOf (key : κ) (entries : List (κ × ν)) : Option ν := find key entries.reverse

theorem lastOf_append (key : κ) (first second : List (κ × ν)) :
    lastOf key (first ++ second) = (lastOf key second).or (lastOf key first) := by
  rw [lastOf, List.reverse_append, find_append]
  rfl

theorem lastOf_cons (key : κ) (entry : κ × ν) (entries : List (κ × ν)) :
    lastOf key (entry :: entries) =
      (lastOf key entries).or (if entry.1 = key then some entry.2 else none) := by
  rw [← List.singleton_append, lastOf_append]
  rfl

theorem lastOf_eq_none_iff {key : κ} {entries : List (κ × ν)} :
    lastOf key entries = none ↔ key ∉ entries.map Prod.fst := by
  rw [lastOf, find_eq_none_iff, List.map_reverse, List.mem_reverse]

theorem mem_of_lastOf {key : κ} {value : ν} {entries : List (κ × ν)}
    (last : lastOf key entries = some value) : (key, value) ∈ entries :=
  List.mem_reverse.mp (mem_of_find last)

/-- The last assignment decides. -/
theorem get?_setAll (dict : Dict κ ν) (entries : List (κ × ν)) (key : κ) :
    (dict.setAll entries).get? key = (lastOf key entries).or (dict.get? key) := by
  induction entries generalizing dict with
  | nil => rfl
  | cons entry entries ih =>
      have rest := ih (dict.set entry.1 entry.2)
      rw [setAll] at rest
      rw [setAll, List.foldl_cons, rest, get?_set, lastOf_cons]
      by_cases same : key = entry.1
      · rw [if_pos same, if_pos same.symm]
        cases lastOf key entries <;> rfl
      · rw [if_neg same, if_neg (Ne.symm same), Option.or_none]

theorem getD_setAll (dict : Dict κ ν) (entries : List (κ × ν)) (key : κ) (default : ν) :
    (dict.setAll entries).getD key default = (lastOf key entries).getD (dict.getD key default) := by
  rw [getD, get?_setAll, getD]
  cases lastOf key entries <;> rfl

theorem mem_keys_setAll (dict : Dict κ ν) (entries : List (κ × ν)) (key : κ) :
    key ∈ (dict.setAll entries).keys ↔ key ∈ entries.map Prod.fst ∨ key ∈ dict.keys :=
  mem_keys_foldl_set entries dict key

theorem setAll_append (dict : Dict κ ν) (first second : List (κ × ν)) :
    dict.setAll (first ++ second) = (dict.setAll first).setAll second :=
  List.foldl_append

/-- Assignments of a function of the key. -/
theorem lastOf_map {list : List κ} {key : κ} (mem : key ∈ list) (value : κ → ν) :
    lastOf key (list.map fun k => (k, value k)) = some (value key) := by
  cases last : lastOf key (list.map fun k => (k, value k)) with
  | none =>
      rw [lastOf_eq_none_iff] at last
      exact absurd (by simpa using mem) last
  | some found =>
      rcases List.mem_map.mp (mem_of_lastOf last) with ⟨k, _, same⟩
      cases same
      rfl

end Dict

/-! ## Loops -/

section Loop

variable {α : Type w} {κ : Type u} {ν : Type u} {ε : Type v} [DecidableEq κ]
  {step : Dict κ ν → α → Except ε (Dict κ ν)} {key : α → κ} {value : α → Except ε ν}

/-- A loop whose values are all there. -/
theorem foldlM_set {list : List α} {held : α → ν}
    (assigns : ∀ dict a, step dict a = (value a).map (dict.set (key a)))
    (values : ∀ a ∈ list, value a = .ok (held a)) (dict : Dict κ ν) :
    list.foldlM step dict = .ok (dict.setAll (list.map fun a => (key a, held a))) := by
  have steps : ∀ dict, ∀ a ∈ list, step dict a = .ok (dict.set (key a) (held a)) := by
    intro dict a mem
    rw [assigns, values a mem]
    rfl
  rw [foldlM_eq_ok steps, Dict.setAll, List.foldl_map]

/-- A loop raises what one of its turns raises, or all its values are there. -/
theorem foldlM_set_cases (list : List α)
    (assigns : ∀ dict a, step dict a = (value a).map (dict.set (key a))) (dict : Dict κ ν) :
    (∀ a ∈ list, ∃ held, value a = .ok held) ∨
      ∃ a ∈ list, ∃ raised, value a = .error raised ∧ list.foldlM step dict = .error raised := by
  induction list generalizing dict with
  | nil => exact Or.inl fun a mem => by cases mem
  | cons a list ih =>
      cases held : value a with
      | error raised =>
          refine Or.inr ⟨a, List.mem_cons_self, raised, held, ?_⟩
          rw [List.foldlM_cons, assigns, held]
          rfl
      | ok value =>
          rcases ih (dict.set (key a) value) with all | ⟨b, mem, raised, raises, result⟩
          · left
            intro b mem
            rcases List.mem_cons.mp mem with rfl | mem
            · exact ⟨value, held⟩
            · exact all b mem
          · refine Or.inr ⟨b, List.mem_cons_of_mem a mem, raised, raises, ?_⟩
            rw [List.foldlM_cons, assigns, held]
            exact result

end Loop

/-- A loop whose turns add keys: the keys at the end are the ones at the start and the ones that
the turns add. -/
theorem mem_keys_foldlM {σ : Type u} {α : Type w} {κ : Type u} {ε : Type v}
    {step : σ → α → Except ε σ} {keys : σ → List κ} {added : α → List κ}
    (adds : ∀ s a s', step s a = .ok s' → ∀ key, key ∈ keys s' ↔ key ∈ keys s ∨ key ∈ added a)
    {list : List α} {s s' : σ} (folded : list.foldlM step s = .ok s') (key : κ) :
    key ∈ keys s' ↔ key ∈ keys s ∨ key ∈ list.flatMap added := by
  induction list generalizing s with
  | nil =>
      cases folded
      simp
  | cons a list inductionHypothesis =>
      rw [List.foldlM_cons] at folded
      cases first : step s a with
      | error raised =>
          rw [first] at folded
          cases folded
      | ok next =>
          rw [first] at folded
          rw [inductionHypothesis folded, adds s a next first, List.flatMap_cons,
            List.mem_append, or_assoc]

/-- A loop that assigns to one key at each turn. -/
theorem mem_keys_foldlM_set {α : Type w} {κ : Type u} {ν : Type u} {ε : Type v} [DecidableEq κ]
    {step : Dict κ ν → α → Except ε (Dict κ ν)} {key : α → κ} {value : α → Except ε ν}
    (assigns : ∀ dict a, step dict a = (value a).map (dict.set (key a))) {list : List α}
    {dict dict' : Dict κ ν} (folded : list.foldlM step dict = .ok dict') (other : κ) :
    other ∈ dict'.keys ↔ other ∈ dict.keys ∨ other ∈ list.map key := by
  have adds : ∀ dict a dict', step dict a = .ok dict' →
      ∀ other, other ∈ dict'.keys ↔ other ∈ dict.keys ∨ other ∈ [key a] := by
    intro dict a dict' stepped other
    rw [assigns] at stepped
    cases isValue : value a with
    | error raised =>
        rw [isValue] at stepped
        cases stepped
    | ok held =>
        rw [isValue] at stepped
        cases stepped
        rw [Dict.mem_keys_set, List.mem_singleton, or_comm]
  rw [mem_keys_foldlM adds folded, List.map_eq_flatMap]

end Difftest

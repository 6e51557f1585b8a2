import Mathlib.Data.List.Nodup
import Mathlib.Data.List.TakeWhile

/-!
# Names told apart by their endings

A name formed from a stem and a fixed suffix, or from a stem and a number, shows how it was
formed: the last letters before any digits are those of the suffix or of the stem.  Lists of
names that were formed differently have no name in common.
-/

namespace Difftest

/-! ## Lists of different kinds -/

/-- Names without repetition, of the given kinds. -/
structure Tidy {α κ : Type*} (kind : α → κ) (names : List α) (kinds : List κ) : Prop where
  nodup : names.Nodup
  kinds : ∀ name ∈ names, kind name ∈ kinds

namespace Tidy

variable {α β κ : Type*} {kind : α → κ} {first second : List α} {kinds1 kinds2 : List κ}

theorem nil : Tidy kind [] ([] : List κ) := ⟨List.nodup_nil, List.forall_mem_nil _⟩

theorem singleton (name : α) : Tidy kind [name] [kind name] :=
  ⟨List.nodup_singleton name, List.forall_mem_singleton.mpr (List.mem_singleton_self _)⟩

theorem mono {names : List α} (tidy : Tidy kind names kinds1) (inside : kinds1 ⊆ kinds2) :
    Tidy kind names kinds2 :=
  ⟨tidy.nodup, fun name isName => inside (tidy.kinds name isName)⟩

theorem perm (tidy : Tidy kind first kinds1) (same : first.Perm second) :
    Tidy kind second kinds1 :=
  ⟨same.nodup_iff.mp tidy.nodup, fun name isName => tidy.kinds name (same.mem_iff.mpr isName)⟩

/-- Lists of different kinds one after the other. -/
theorem append (isFirst : Tidy kind first kinds1) (isSecond : Tidy kind second kinds2)
    (apart : ∀ k ∈ kinds1, k ∉ kinds2) : Tidy kind (first ++ second) (kinds1 ++ kinds2) := by
  constructor
  · apply isFirst.nodup.append isSecond.nodup
    intro name inFirst inSecond
    exact apart _ (isFirst.kinds name inFirst) (isSecond.kinds name inSecond)
  · rw [List.forall_mem_append]
    constructor
    · exact fun name inFirst => List.mem_append_left _ (isFirst.kinds name inFirst)
    · exact fun name inSecond => List.mem_append_right _ (isSecond.kinds name inSecond)

/-- Names of one kind, formed from different things. -/
theorem map {f : β → α} {k : κ} {list : List β} (injective : Function.Injective f)
    (isKind : ∀ b, kind (f b) = k) (nodup : list.Nodup) : Tidy kind (list.map f) [k] := by
  constructor
  · exact nodup.map injective
  · intro name isName
    obtain ⟨b, _, rfl⟩ := List.mem_map.mp isName
    rw [isKind]
    exact List.mem_singleton_self _

end Tidy

/-! ## Endings -/

/-- The last three characters before the digits at the end, the last one first. -/
def ending (name : String) : List Char := (name.toList.reverse.dropWhile Char.isDigit).take 3

/-- A suffix shows. -/
theorem ending_append {suffix : String} (long : (ending suffix).length = 3) (stem : String) :
    ending (stem ++ suffix) = ending suffix := by
  rw [ending, List.length_take] at long
  have notDigits : (suffix.toList.reverse.dropWhile Char.isDigit).isEmpty = false := by
    rw [List.isEmpty_eq_false_iff]
    intro empty
    rw [empty] at long
    cases long
  rw [ending, String.toList_append, List.reverse_append, List.dropWhile_append, notDigits,
    if_neg Bool.false_ne_true, List.take_append_of_le_length (by omega), ending]

/-- A number does not show. -/
theorem ending_number (stem : String) (n : Nat) : ending (stem ++ toString n) = ending stem := by
  have digits : (toString n).toList = Nat.toDigits 10 n := String.toList_ofList
  rw [ending, String.toList_append, digits, List.reverse_append, List.dropWhile_append_of_pos,
    ending]
  intro digit isDigit
  exact Nat.isDigit_of_mem_toDigits (by decide) le_rfl (List.mem_reverse.mp isDigit)

end Difftest

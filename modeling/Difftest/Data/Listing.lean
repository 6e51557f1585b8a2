import Mathlib.Data.List.Nodup
import Mathlib.Data.List.Perm.Basic

/-!
# Listings

A listing is a sequence of data and of moves of the location counter.  Assembling it places the
data one after another; a move goes to a place further on and never back.
-/

namespace Difftest.Listing

variable {β : Type}

/-- One item of a listing. -/
inductive Item (β : Type) where
  | data (values : List β)
  | move (target : Nat)

/-- Data from a location on, each with its place. -/
def placedFrom : Nat → List β → List (Nat × β)
  | _, [] => []
  | location, value :: rest => (location, value) :: placedFrom (location + 1) rest

/-- The placed data of a listing; `none` is a move backwards. -/
def assemble : Nat → List (Item β) → Option (List (Nat × β))
  | _, [] => some []
  | location, .data values :: rest =>
      (assemble (location + values.length) rest).map (placedFrom location values ++ ·)
  | location, .move target :: rest => if location ≤ target then assemble target rest else none

/-- The data of an item. -/
def Item.values : Item β → List β
  | .data values => values
  | .move _ => []

theorem placedFrom_append (location : Nat) (first second : List β) :
    placedFrom location (first ++ second) =
      placedFrom location first ++ placedFrom (location + first.length) second := by
  induction first generalizing location with
  | nil => rfl
  | cons value rest inductionHypothesis =>
      rw [List.cons_append, placedFrom, placedFrom, inductionHypothesis, List.length_cons,
        Nat.add_assoc, Nat.add_comm 1, List.cons_append]

theorem map_snd_placedFrom (location : Nat) (values : List β) :
    (placedFrom location values).map Prod.snd = values := by
  induction values generalizing location with
  | nil => rfl
  | cons value rest inductionHypothesis =>
      rw [placedFrom, List.map_cons, inductionHypothesis]

theorem mem_placedFrom {location : Nat} {values : List β} {entry : Nat × β}
    (mem : entry ∈ placedFrom location values) :
    location ≤ entry.1 ∧ entry.1 < location + values.length := by
  induction values generalizing location with
  | nil => cases mem
  | cons value rest inductionHypothesis =>
      rw [List.length_cons]
      rcases List.mem_cons.mp mem with rfl | mem
      · exact ⟨Nat.le_refl _, by simp⟩
      · have bounds := inductionHypothesis mem
        omega

theorem pairwise_placedFrom (location : Nat) (values : List β) :
    (placedFrom location values).Pairwise fun first second => first.1 < second.1 := by
  induction values generalizing location with
  | nil => exact List.Pairwise.nil
  | cons value rest inductionHypothesis =>
      refine List.Pairwise.cons ?_ (inductionHypothesis (location + 1))
      exact fun entry mem => (mem_placedFrom mem).1

/-- The first place of data that are not empty. -/
theorem location_eq {location location' : Nat} {values values' : List β}
    {rest rest' : List (Nat × β)} (nonempty : values ≠ []) (nonempty' : values' ≠ [])
    (same : placedFrom location values ++ rest = placedFrom location' values' ++ rest') :
    location = location' := by
  rcases List.exists_cons_of_ne_nil nonempty with ⟨value, others, rfl⟩
  rcases List.exists_cons_of_ne_nil nonempty' with ⟨value', others', rfl⟩
  exact congrArg Prod.fst (List.cons.inj same).1

/-- Nothing is placed before the start, and every place is used once. -/
theorem pairwise_assemble {location : Nat} {items : List (Item β)} {placed : List (Nat × β)}
    (assembled : assemble location items = some placed) :
    (∀ entry ∈ placed, location ≤ entry.1) ∧
      placed.Pairwise fun first second => first.1 < second.1 := by
  induction items generalizing location placed with
  | nil =>
      cases assembled
      exact ⟨nofun, List.Pairwise.nil⟩
  | cons item items inductionHypothesis =>
      cases item with
      | data values =>
          rcases Option.map_eq_some_iff.mp assembled with ⟨rest, isRest, rfl⟩
          rcases inductionHypothesis isRest with ⟨later, sorted⟩
          constructor
          · intro entry mem
            rcases List.mem_append.mp mem with mem | mem
            · exact (mem_placedFrom mem).1
            · exact Nat.le_of_add_right_le (later entry mem)
          · rw [List.pairwise_append]
            refine ⟨pairwise_placedFrom location values, sorted, ?_⟩
            intro first isFirst second isSecond
            exact Nat.lt_of_lt_of_le (mem_placedFrom isFirst).2 (later second isSecond)
      | move target =>
          rw [assemble] at assembled
          split at assembled
          · rename_i forward
            rcases inductionHypothesis assembled with ⟨later, sorted⟩
            exact ⟨fun entry mem => Nat.le_trans forward (later entry mem), sorted⟩
          · cases assembled

/-- All data are placed, in their order. -/
theorem map_snd_assemble {location : Nat} {items : List (Item β)} {placed : List (Nat × β)}
    (assembled : assemble location items = some placed) :
    placed.map Prod.snd = items.flatMap Item.values := by
  induction items generalizing location placed with
  | nil =>
      cases assembled
      rfl
  | cons item items inductionHypothesis =>
      cases item with
      | data values =>
          rcases Option.map_eq_some_iff.mp assembled with ⟨rest, isRest, rfl⟩
          rw [List.map_append, map_snd_placedFrom, inductionHypothesis isRest, List.flatMap_cons,
            Item.values]
      | move target =>
          rw [assemble] at assembled
          split at assembled
          · rw [inductionHypothesis assembled, List.flatMap_cons, Item.values, List.nil_append]
          · cases assembled

/-- Items without moves place their data one after another. -/
theorem assemble_data {location : Nat} {first rest : List (Item β)}
    (noMove : ∀ item ∈ first, ∀ target, item ≠ .move target) :
    assemble location (first ++ rest) =
      (assemble (location + (first.flatMap Item.values).length) rest).map
        (placedFrom location (first.flatMap Item.values) ++ ·) := by
  induction first generalizing location with
  | nil =>
      cases assembled : assemble location rest <;> simp [placedFrom, assembled]
  | cons item items inductionHypothesis =>
      have others := fun item mem => noMove item (List.mem_cons_of_mem _ mem)
      cases item with
      | data values =>
          rw [List.cons_append, assemble, inductionHypothesis others, List.flatMap_cons,
            Item.values, List.length_append, Nat.add_assoc, Option.map_map, placedFrom_append]
          simp only [Function.comp_def, List.append_assoc]
      | move target => exact absurd rfl (noMove _ List.mem_cons_self target)

/-- Placed data with increasing places are determined by their entries. -/
theorem eq_of_pairwise {placed placed' : List (Nat × β)}
    (sorted : placed.Pairwise fun first second => first.1 < second.1)
    (sorted' : placed'.Pairwise fun first second => first.1 < second.1)
    (same : ∀ entry, entry ∈ placed ↔ entry ∈ placed') : placed = placed' := by
  have nodup : ∀ {list : List (Nat × β)},
      list.Pairwise (fun first second => first.1 < second.1) → list.Nodup := by
    intro list isSorted
    exact isSorted.imp fun before equal => Nat.ne_of_lt before (congrArg Prod.fst equal)
  have perm := (List.perm_ext_iff_of_nodup (nodup sorted) (nodup sorted')).mpr same
  refine perm.eq_of_pairwise ?_ sorted sorted'
  intro first second _ _ before after
  exact absurd before (Nat.lt_asymm after)

theorem nodup_places {placed : List (Nat × β)}
    (sorted : placed.Pairwise fun first second => first.1 < second.1) :
    (placed.map Prod.fst).Nodup := by
  rw [List.Nodup, List.pairwise_map]
  exact sorted.imp fun before => Nat.ne_of_lt before

end Difftest.Listing

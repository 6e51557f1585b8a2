import Difftest.Data.ByteMemory

/-!
# Copying bytes into a byte memory

Bytes are copied to consecutive addresses.  Copies one after the other are one copy, a
copy of what is there changes nothing, and so a copy into the middle of a block can be made
by reading the block, replacing its middle and copying the whole block back.
-/

namespace Difftest

namespace ByteMemory

/-- The bytes at `len` addresses from `addr` on. -/
def slice (memory : ByteMemory) (addr len : Nat) : List Nat :=
  (List.range len).map fun j => memory (addr + j)

/-- Copy bytes to the addresses from `addr` on. -/
def overwrite (memory : ByteMemory) (addr : Nat) (bytes : List Nat) : ByteMemory :=
  fun place =>
    if addr ≤ place ∧ place < addr + bytes.length then bytes.getD (place - addr) 0
    else memory place

variable {memory : ByteMemory} {addr place : Nat} {bytes : List Nat}

@[simp]
theorem length_slice (memory : ByteMemory) (addr len : Nat) :
    (memory.slice addr len).length = len := by
  simp [slice]

theorem getD_slice {len j : Nat} (inside : j < len) :
    (memory.slice addr len).getD j 0 = memory (addr + j) := by
  simp [slice, inside]

theorem overwrite_inside {j : Nat} (inside : j < bytes.length) :
    memory.overwrite addr bytes (addr + j) = bytes.getD j 0 := by
  rw [overwrite, if_pos ⟨Nat.le_add_right addr j, Nat.add_lt_add_left inside addr⟩,
    Nat.add_sub_cancel_left]

theorem overwrite_outside (outside : ¬ (addr ≤ place ∧ place < addr + bytes.length)) :
    memory.overwrite addr bytes place = memory place := if_neg outside

@[simp]
theorem overwrite_nil : memory.overwrite addr [] = memory := by
  funext place
  apply overwrite_outside
  rw [List.length_nil]
  omega

/-- One copy after the other. -/
theorem overwrite_append (memory : ByteMemory) (addr : Nat) (first second : List Nat) :
    memory.overwrite addr (first ++ second) =
      (memory.overwrite addr first).overwrite (addr + first.length) second := by
  funext place
  by_cases inFirst : addr ≤ place ∧ place < addr + first.length
  · obtain ⟨j, rfl⟩ := Nat.exists_eq_add_of_le inFirst.1
    have inside : j < first.length := by omega
    have both : j < (first ++ second).length := by
      rw [List.length_append]
      omega
    rw [overwrite_inside both, overwrite_outside (by omega), overwrite_inside inside,
      List.getD_append _ _ _ _ inside]
  · by_cases inSecond : addr + first.length ≤ place ∧
        place < addr + first.length + second.length
    · obtain ⟨j, rfl⟩ := Nat.exists_eq_add_of_le inSecond.1
      have inside : j < second.length := by omega
      have both : first.length + j < (first ++ second).length := by
        rw [List.length_append]
        omega
      rw [overwrite_inside inside, Nat.add_assoc, overwrite_inside both,
        List.getD_append_right _ _ _ _ (Nat.le_add_right _ _), Nat.add_sub_cancel_left]
    · rw [overwrite_outside inSecond, overwrite_outside inFirst, overwrite_outside]
      rw [List.length_append]
      omega

/-- Bytes that are there can be copied to their place. -/
theorem overwrite_slice (memory : ByteMemory) (addr len : Nat) :
    memory.overwrite addr (memory.slice addr len) = memory := by
  funext place
  by_cases inside : addr ≤ place ∧ place < addr + (memory.slice addr len).length
  · obtain ⟨j, rfl⟩ := Nat.exists_eq_add_of_le inside.1
    rw [length_slice] at inside
    have below : j < len := by omega
    rw [overwrite_inside (by rwa [length_slice]), getD_slice below]
  · exact overwrite_outside inside

/-- Copies to places that are apart. -/
theorem overwrite_comm {other : Nat} {otherBytes : List Nat}
    (apart : addr + bytes.length ≤ other) :
    (memory.overwrite other otherBytes).overwrite addr bytes =
      (memory.overwrite addr bytes).overwrite other otherBytes := by
  funext place
  by_cases inside : addr ≤ place ∧ place < addr + bytes.length
  · rw [@overwrite_outside (memory.overwrite addr bytes) other place otherBytes (by omega),
      overwrite, if_pos inside, overwrite, if_pos inside]
  · rw [overwrite_outside inside, overwrite, overwrite, overwrite_outside inside]

theorem slice_add (memory : ByteMemory) (addr m n : Nat) :
    memory.slice addr (m + n) = memory.slice addr m ++ memory.slice (addr + m) n := by
  simp [slice, List.range_add, Nat.add_assoc]

/-- A copy does not change the bytes behind it. -/
theorem slice_overwrite_of_le {next len : Nat} (behind : addr + bytes.length ≤ next) :
    (memory.overwrite addr bytes).slice next len = memory.slice next len := by
  rw [slice, slice]
  apply List.map_congr_left
  intro j _
  apply overwrite_outside
  omega

/-- Copy into the middle of a block by copying the block. -/
theorem overwrite_block {before after : Nat} :
    memory.overwrite addr (memory.slice addr before ++ bytes ++
        memory.slice (addr + before + bytes.length) after) =
      memory.overwrite (addr + before) bytes := by
  rw [overwrite_append, overwrite_append, overwrite_slice, length_slice, List.length_append,
    length_slice, ← Nat.add_assoc]
  rw [← @slice_overwrite_of_le memory (addr + before) bytes _ after (Nat.le_refl _),
    overwrite_slice]

theorem overwrite_lt (small : ∀ place, memory place < 256) (bytesSmall : ∀ byte ∈ bytes, byte < 256)
    (place : Nat) : memory.overwrite addr bytes place < 256 := by
  by_cases inside : addr ≤ place ∧ place < addr + bytes.length
  · obtain ⟨j, rfl⟩ := Nat.exists_eq_add_of_le inside.1
    have below : j < bytes.length := by omega
    rw [overwrite_inside below, List.getD_eq_getElem _ _ below]
    exact bytesSmall _ (List.getElem_mem below)
  · rw [overwrite_outside inside]
    exact small place

end ByteMemory

end Difftest

import Difftest.Data.ByteMemory
import Difftest.Data.Sequence

/-!
# Reading target memory in chunks

The simulator's memory interface reads aligned chunks of eight bytes.  A read of
any length at any address takes the part of a chunk before the first boundary,
whole chunks, and the part of a chunk after the last one.  The result is the
bytes at the addresses of the range, which wrap around at the end of the address
space.
-/

namespace Difftest.Spike

/-- `chunk_align` and `chunk_max_size`. -/
def chunkAlign : Nat := 8

/-- The bytes at `len` addresses from `addr` on. -/
def bytesFrom (memory : ByteMemory) (addr len : Nat) : List Nat :=
  (List.range len).map fun j => memory ((addr + j) % 2 ^ 64)

/-- `read_chunk` at an aligned address. -/
def readChunk (memory : ByteMemory) (addr : Nat) : List Nat := bytesFrom memory addr chunkAlign

/-- `memif_t::read`: the bytes that it stores. -/
def memifRead (memory : ByteMemory) (addr len : Nat) : List Nat :=
  let first := if len ≠ 0 ∧ addr % chunkAlign ≠ 0 then min len (chunkAlign - addr % chunkAlign) else 0
  let head := ((readChunk memory (addr - addr % chunkAlign)).drop (addr % chunkAlign)).take first
  let addr := addr + first
  let len := len - first
  let last := len % chunkAlign
  let start := len - last
  let tail := (readChunk memory (addr + start)).take last
  let body := (stepRange 0 start chunkAlign).flatMap fun pos => readChunk memory (addr + pos)
  head ++ body ++ tail

section Bytes

variable (memory : ByteMemory)

theorem length_bytesFrom (addr len : Nat) : (bytesFrom memory addr len).length = len := by
  simp [bytesFrom]

theorem bytesFrom_add (addr m n : Nat) :
    bytesFrom memory addr (m + n) = bytesFrom memory addr m ++ bytesFrom memory (addr + m) n := by
  simp [bytesFrom, List.range_add, Nat.add_assoc]

theorem take_bytesFrom (addr : Nat) {m n : Nat} (le : m ≤ n) :
    (bytesFrom memory addr n).take m = bytesFrom memory addr m := by
  obtain ⟨k, rfl⟩ := Nat.exists_eq_add_of_le le
  rw [bytesFrom_add, List.take_left' (length_bytesFrom memory addr m)]

theorem drop_bytesFrom (addr : Nat) {m n : Nat} (le : m ≤ n) :
    (bytesFrom memory addr n).drop m = bytesFrom memory (addr + m) (n - m) := by
  obtain ⟨k, rfl⟩ := Nat.exists_eq_add_of_le le
  rw [bytesFrom_add, List.drop_left' (length_bytesFrom memory addr m), Nat.add_sub_cancel_left]

theorem getElem?_bytesFrom {addr len j : Nat} (inside : j < len) :
    (bytesFrom memory addr len)[j]? = some (memory ((addr + j) % 2 ^ 64)) := by
  rw [bytesFrom, List.getElem?_map, List.getElem?_range inside]
  rfl

/-- Whole chunks one after another. -/
theorem flatMap_readChunk (addr count : Nat) :
    ((List.range' 0 count chunkAlign).flatMap fun pos => readChunk memory (addr + pos)) =
      bytesFrom memory addr (chunkAlign * count) := by
  induction count with
  | zero => rfl
  | succ count ih =>
      rw [List.range'_concat, List.flatMap_append, ih, List.flatMap_singleton, Nat.zero_add,
        Nat.mul_succ, bytesFrom_add, readChunk]

/-- A chunked read returns the bytes of the range. -/
theorem memifRead_eq (addr len : Nat) : memifRead memory addr len = bytesFrom memory addr len := by
  have aligned : ∀ addr len : Nat,
      ((stepRange 0 (len - len % chunkAlign) chunkAlign).flatMap fun pos =>
          readChunk memory (addr + pos)) ++
        (readChunk memory (addr + (len - len % chunkAlign))).take (len % chunkAlign) =
      bytesFrom memory addr len := by
    intro addr len
    have whole : len - len % chunkAlign = 0 + chunkAlign * (len / chunkAlign) := by
      have split := Nat.div_add_mod len chunkAlign
      omega
    have rest : len % chunkAlign ≤ chunkAlign := (Nat.mod_lt len (by decide)).le
    rw [whole, stepRange_add_mul 0 chunkAlign _ (by decide), flatMap_readChunk, readChunk,
      take_bytesFrom memory _ rest, Nat.zero_add, ← bytesFrom_add, Nat.div_add_mod]
  rw [memifRead]
  by_cases unaligned : len ≠ 0 ∧ addr % chunkAlign ≠ 0
  · have offset : addr % chunkAlign < chunkAlign := Nat.mod_lt addr (by decide)
    have below := Nat.mod_le addr chunkAlign
    simp only [if_pos unaligned]
    generalize first_eq : min len (chunkAlign - addr % chunkAlign) = first
    have firstLe : first ≤ chunkAlign - addr % chunkAlign := first_eq ▸ Nat.min_le_right _ _
    have inLen : first ≤ len := first_eq ▸ Nat.min_le_left _ _
    rw [readChunk, drop_bytesFrom memory _ offset.le, take_bytesFrom memory _ firstLe,
      Nat.sub_add_cancel below, List.append_assoc, aligned, ← bytesFrom_add,
      Nat.add_sub_cancel' inLen]
  · simp only [if_neg unaligned, List.take_zero, List.nil_append, Nat.add_zero, Nat.sub_zero]
    exact aligned addr len

end Bytes

end Difftest.Spike

import Difftest.Data.Bytes

/-!
# Binary records

Integers in a byte string, as `struct.unpack_from` reads them, and loops of steps
that can raise.
-/

namespace Difftest

universe u v w

/-- The order of the bytes of an integer. -/
inductive ByteOrder where
  | little
  | big
deriving DecidableEq, Repr

/-- The byte at an index; past the end it reads as zero. -/
def byteOf (data : List UInt8) (index : Nat) : Nat := (data.getD index 0).toNat

/-- The unsigned integer of `width` bytes at an offset. -/
def unpack (order : ByteOrder) (width : Nat) (data : List UInt8) (offset : Nat) : Nat :=
  ofBytes width fun i =>
    match order with
    | .little => byteOf data (offset + i)
    | .big => byteOf data (offset + (width - 1 - i))

/-- `struct.unpack_from` for one unsigned integer. -/
def unpackFrom (order : ByteOrder) (width : Nat) (data : List UInt8) (offset : Nat) :
    Except String Nat :=
  if offset + width ≤ data.length then .ok (unpack order width data offset)
  else
    .error s!"unpack_from requires a buffer of at least {offset + width} bytes for unpacking {width} bytes at offset {offset} (actual buffer size is {data.length})"

theorem byteOf_lt (data : List UInt8) (index : Nat) : byteOf data index < 256 :=
  UInt8.toNat_lt _

@[simp]
theorem byteOf_nil (index : Nat) : byteOf [] index = 0 := rfl

theorem byteOf_append (first second : List UInt8) (index : Nat) :
    byteOf (first ++ second) index =
      if index < first.length then byteOf first index else byteOf second (index - first.length) := by
  unfold byteOf
  split
  · rename_i inside
    rw [List.getD_append _ _ _ _ inside]
  · rename_i outside
    rw [List.getD_append_right _ _ _ _ (Nat.not_lt.mp outside)]

@[simp]
theorem byteOf_replicate_zero (count index : Nat) : byteOf (List.replicate count 0) index = 0 := by
  rw [byteOf, List.getD_eq_getElem?_getD, List.getElem?_replicate]
  split <;> rfl

/-- A slice of a byte string inside it. -/
theorem byteOf_take_drop {data : List UInt8} {offset size index : Nat} (inside : index < size) :
    byteOf ((data.drop offset).take size) index = byteOf data (offset + index) := by
  simp [byteOf, List.getD_eq_getElem?_getD, inside]

theorem unpackFrom_eq_ok {order : ByteOrder} {width offset : Nat} {data : List UInt8}
    (inside : offset + width ≤ data.length) :
    unpackFrom order width data offset = .ok (unpack order width data offset) :=
  if_pos inside

/-- A computation that did not raise goes on with its value. -/
theorem ok_bind {α : Type u} {β : Type u} {ε : Type w} (value : α) (next : α → Except ε β) :
    ((.ok value : Except ε α) >>= next) = next value := by
  simp only [bind, Except.bind]

theorem bind_eq_ok_iff {α : Type u} {β : Type u} {ε : Type w} {first : Except ε α}
    {next : α → Except ε β} {result : β} :
    first >>= next = .ok result ↔ ∃ value, first = .ok value ∧ next value = .ok result := by
  cases first with
  | error raised => simp [bind, Except.bind]
  | ok value => simp [bind, Except.bind]

theorem byteAt_unpack_little {width offset i : Nat} (data : List UInt8) (inside : i < width) :
    byteAt (unpack .little width data offset) i = byteOf data (offset + i) :=
  byteAt_ofBytes (fun j _ => byteOf_lt data (offset + j)) inside

theorem unpack_little_lt (width offset : Nat) (data : List UInt8) :
    unpack .little width data offset < 256 ^ width :=
  ofBytes_lt fun j _ => byteOf_lt data (offset + j)

/-- A loop whose steps do not raise. -/
theorem foldlM_eq_ok {α : Type u} {σ : Type v} {ε : Type w} {step : σ → α → Except ε σ}
    {next : σ → α → σ} {list : List α} (steps : ∀ s, ∀ a ∈ list, step s a = .ok (next s a))
    (s : σ) : list.foldlM step s = .ok (list.foldl next s) := by
  induction list generalizing s with
  | nil => rfl
  | cons a list ih =>
      rw [List.foldlM_cons, steps s a List.mem_cons_self]
      exact ih (fun s b mem => steps s b (List.mem_cons_of_mem a mem)) (next s a)

end Difftest

import Difftest.Data.Overwrite
import Difftest.Data.Succeeds
import Difftest.Spike.Memif

/-!
# The memory interface of the host

The host reads and writes byte arrays of any length at any address, but the target takes
only whole aligned chunks.  A write reads the chunks at its two ends, replaces their
bytes in the range and writes them back; when the rest is zero it is cleared instead.
Over a target whose chunks hold a byte memory both are the operations of that memory.
-/

namespace Difftest.Spike

open ByteMemory

/-- `chunked_memif_t`; `chunk_align` and `chunk_max_size` are eight. -/
structure ChunkedMemif (ε σ : Type) where
  readChunk : (taddr len : Nat) → EStateM ε σ (List Nat)
  writeChunk : (taddr : Nat) → (src : List Nat) → EStateM ε σ Unit

namespace ChunkedMemif

section Operations

variable {ε σ : Type}

/-- `htif_t::clear_chunk`. -/
def clearChunk (memif : ChunkedMemif ε σ) (taddr len : Nat) : EStateM ε σ Unit :=
  (stepRange 0 len chunkAlign).forM fun pos =>
    memif.writeChunk ((taddr + pos) % 2 ^ 64) (List.replicate (min (len - pos) chunkAlign) 0)

/-- The length of the part before the first boundary. -/
def headLen (addr len : Nat) : Nat :=
  if len ≠ 0 ∧ addr % chunkAlign ≠ 0 then min len (chunkAlign - addr % chunkAlign) else 0

/-- Read a part of the chunk at an address. -/
def readPart (memif : ChunkedMemif ε σ) (taddr offset len : Nat) : EStateM ε σ (List Nat) :=
  if len = 0 then pure []
  else do
    let chunk ← memif.readChunk taddr chunkAlign
    return (chunk.drop offset).take len

/-- Replace a part of the chunk at an address. -/
def writePart (memif : ChunkedMemif ε σ) (taddr offset : Nat) (bytes : List Nat) :
    EStateM ε σ Unit :=
  if bytes.length = 0 then pure ()
  else do
    let chunk ← memif.readChunk taddr chunkAlign
    memif.writeChunk taddr (chunk.take offset ++ bytes ++ chunk.drop (offset + bytes.length))

/-- `memif_t::read`. -/
def read (memif : ChunkedMemif ε σ) (addr len : Nat) : EStateM ε σ (List Nat) := do
  let offset := addr % chunkAlign
  let first := headLen addr len
  let head ← memif.readPart (addr - offset) offset first
  let addr := (addr + first) % 2 ^ 64
  let len := len - first
  let last := len % chunkAlign
  let start := len - last
  let tail ← memif.readPart ((addr + start) % 2 ^ 64) 0 last
  let body ← (stepRange 0 start chunkAlign).mapM fun pos =>
    memif.readChunk ((addr + pos) % 2 ^ 64) (min chunkAlign (start - pos))
  return head ++ body.flatten ++ tail

/-- `memif_t::write`. -/
def write (memif : ChunkedMemif ε σ) (addr : Nat) (bytes : List Nat) : EStateM ε σ Unit := do
  let offset := addr % chunkAlign
  let first := headLen addr bytes.length
  memif.writePart (addr - offset) offset (bytes.take first)
  let addr := (addr + first) % 2 ^ 64
  let bytes := bytes.drop first
  let start := bytes.length - bytes.length % chunkAlign
  memif.writePart ((addr + start) % 2 ^ 64) 0 (bytes.drop start)
  let bytes := bytes.take start
  if bytes.length ≠ 0 ∧ ∀ byte ∈ bytes, byte = 0 then memif.clearChunk addr bytes.length
  else
    (stepRange 0 bytes.length chunkAlign).forM fun pos =>
      memif.writeChunk ((addr + pos) % 2 ^ 64)
        ((bytes.drop pos).take (min chunkAlign (bytes.length - pos)))

end Operations

/-! ## A target that holds a byte memory -/

/-- The chunks of the target that are mapped can be read and written, and they hold the
bytes of a memory. -/
structure Backs {ε σ : Type} (memif : ChunkedMemif ε σ) (mapped : Nat → Prop)
    (holds : ByteMemory → σ → Prop) : Prop where
  small : ∀ {memory s}, holds memory s → ∀ place, memory place < 256
  read : ∀ {memory s taddr}, holds memory s → chunkAlign ∣ taddr → mapped taddr →
    Succeeds (memif.readChunk taddr chunkAlign) s fun chunk s' =>
      chunk = memory.slice taddr chunkAlign ∧ holds memory s'
  write : ∀ {memory s taddr src}, holds memory s → chunkAlign ∣ taddr → mapped taddr →
    src.length = chunkAlign → (∀ byte ∈ src, byte < 256) →
      Succeeds (memif.writeChunk taddr src) s fun _ s' => holds (memory.overwrite taddr src) s'

/-- All chunks that meet a range are mapped. -/
structure InMapped (mapped : Nat → Prop) (addr len : Nat) : Prop where
  fits : addr + len < 2 ^ 64
  chunks : ∀ place, addr ≤ place → place < addr + len → mapped (place / chunkAlign * chunkAlign)

section Backed

variable {ε σ : Type} {memif : ChunkedMemif ε σ} {mapped : Nat → Prop}
  {holds : ByteMemory → σ → Prop} {memory : ByteMemory} {s : σ}

theorem InMapped.part {addr len offset len' : Nat} (inMapped : InMapped mapped addr len)
    (inside : offset + len' ≤ len) : InMapped mapped (addr + offset) len' := by
  constructor
  · have fits := inMapped.fits
    omega
  · intro place above below
    exact inMapped.chunks place (by omega) (by omega)

/-- An aligned chunk with a byte in the range is mapped. -/
theorem InMapped.chunk {addr len taddr : Nat} (inMapped : InMapped mapped addr len)
    (aligned : chunkAlign ∣ taddr) {place : Nat} (above : addr ≤ place) (below : place < addr + len)
    (low : taddr ≤ place) (high : place < taddr + chunkAlign) : mapped taddr := by
  have chunk := inMapped.chunks place above below
  obtain ⟨index, rfl⟩ := aligned
  have same : place / chunkAlign = index := by
    rw [chunkAlign] at *
    omega
  rw [same, Nat.mul_comm] at chunk
  exact chunk

theorem readPart_succeeds (backs : Backs memif mapped holds) (state : holds memory s)
    {taddr offset len : Nat} (aligned : len ≠ 0 → chunkAlign ∣ taddr)
    (inside : offset + len ≤ chunkAlign)
    (isMapped : InMapped mapped (taddr + offset) len) :
    Succeeds (memif.readPart taddr offset len) s fun bytes s' =>
      bytes = memory.slice (taddr + offset) len ∧ holds memory s' := by
  apply Succeeds.ite
  · rintro rfl
    exact Succeeds.pure ⟨rfl, state⟩
  · intro nonempty
    have aligned := aligned nonempty
    have chunkMapped : mapped taddr := isMapped.chunk aligned (Nat.le_refl _)
      (by omega) (by omega) (by omega)
    apply Succeeds.bind (backs.read state aligned chunkMapped)
    rintro _ s' ⟨rfl, held⟩
    apply Succeeds.pure
    obtain ⟨rest, split⟩ := Nat.exists_eq_add_of_le inside
    rw [split, slice_add, slice_add, List.append_assoc, List.drop_left' (length_slice _ _ _),
      List.take_left' (length_slice _ _ _)]
    exact ⟨rfl, held⟩

theorem writePart_succeeds (backs : Backs memif mapped holds) (state : holds memory s)
    {taddr offset : Nat} {bytes : List Nat} (bytesSmall : ∀ byte ∈ bytes, byte < 256)
    (aligned : bytes.length ≠ 0 → chunkAlign ∣ taddr) (inside : offset + bytes.length ≤ chunkAlign)
    (isMapped : InMapped mapped (taddr + offset) bytes.length) :
    Succeeds (memif.writePart taddr offset bytes) s fun _ s' =>
      holds (memory.overwrite (taddr + offset) bytes) s' := by
  apply Succeeds.ite
  · intro empty
    rw [List.eq_nil_of_length_eq_zero empty, overwrite_nil]
    exact Succeeds.pure state
  · intro nonempty
    have aligned := aligned nonempty
    have chunkMapped : mapped taddr := isMapped.chunk aligned (Nat.le_refl _)
      (by omega) (by omega) (by omega)
    apply Succeeds.bind (backs.read state aligned chunkMapped)
    rintro _ s' ⟨rfl, held⟩
    obtain ⟨rest, split⟩ := Nat.exists_eq_add_of_le inside
    have block : memory.slice taddr chunkAlign =
        memory.slice taddr offset ++ memory.slice (taddr + offset) bytes.length ++
          memory.slice (taddr + offset + bytes.length) rest := by
      rw [split, slice_add, slice_add, Nat.add_assoc]
    have before : (memory.slice taddr chunkAlign).take offset = memory.slice taddr offset := by
      rw [block, List.append_assoc, List.take_left' (length_slice _ _ _)]
    have behind : (memory.slice taddr chunkAlign).drop (offset + bytes.length) =
        memory.slice (taddr + offset + bytes.length) rest := by
      rw [block, List.drop_left']
      rw [List.length_append, length_slice, length_slice]
    rw [before, behind]
    have written := @backs.write _ _ _ (memory.slice taddr offset ++ bytes ++
      memory.slice (taddr + offset + bytes.length) rest) held aligned chunkMapped
    rw [overwrite_block] at written
    apply written
    · rw [List.length_append, List.length_append, length_slice, length_slice, ← split]
    · intro byte mem
      have small := backs.small state
      simp only [List.mem_append, slice, List.mem_map] at mem
      rcases mem with (⟨j, _, rfl⟩ | inBytes) | ⟨j, _, rfl⟩
      · exact small _
      · exact bytesSmall byte inBytes
      · exact small _

/-- The head of a range lies in the chunk of its first address, and the rest is aligned. -/
theorem headLen_spec (addr len : Nat) :
    headLen addr len ≤ len ∧ addr % chunkAlign + headLen addr len ≤ chunkAlign ∧
      (len - headLen addr len ≠ 0 → chunkAlign ∣ addr + headLen addr len) := by
  have low := Nat.mod_lt addr (show 0 < chunkAlign by decide)
  rw [headLen]
  split
  · rw [chunkAlign] at *
    omega
  · rename_i aligned
    rw [chunkAlign] at *
    omega

/-- A chunk of the body of a range. -/
theorem InMapped.turn {addr count k : Nat} (isMapped : InMapped mapped addr (chunkAlign * count))
    (aligned : chunkAlign ∣ addr) (below : k < count) :
    addr + chunkAlign * k < 2 ^ 64 ∧ chunkAlign ≤ chunkAlign * count - chunkAlign * k ∧
      chunkAlign ∣ addr + chunkAlign * k ∧ mapped (addr + chunkAlign * k) := by
  have fits := isMapped.fits
  have here : chunkAlign ∣ addr + chunkAlign * k := aligned.add (Nat.dvd_mul_right _ _)
  have whole : chunkAlign * k + chunkAlign ≤ chunkAlign * count := by
    rw [← Nat.mul_succ]
    exact Nat.mul_le_mul_left _ below
  have nonempty : 0 < chunkAlign := by decide
  exact ⟨by omega, by omega, here,
    isMapped.chunk here (Nat.le_add_right _ _) (by omega) (Nat.le_refl _) (by omega)⟩

theorem flatten_slices (memory : ByteMemory) (addr count : Nat) :
    ((List.range count).map fun k => memory.slice (addr + chunkAlign * k) chunkAlign).flatten =
      memory.slice addr (chunkAlign * count) := by
  induction count with
  | zero => rfl
  | succ count inductionHypothesis =>
      rw [List.range_succ, List.map_append, List.flatten_append, inductionHypothesis, Nat.mul_succ,
        slice_add]
      simp

/-- The whole chunks of a range. -/
theorem body_succeeds (backs : Backs memif mapped holds) (state : holds memory s) {addr count : Nat}
    (aligned : count ≠ 0 → chunkAlign ∣ addr)
    (isMapped : InMapped mapped addr (chunkAlign * count)) :
    Succeeds ((stepRange 0 (chunkAlign * count) chunkAlign).mapM fun pos =>
        memif.readChunk ((addr + pos) % 2 ^ 64) (min chunkAlign (chunkAlign * count - pos))) s
      fun chunks s' => chunks.flatten = memory.slice addr (chunkAlign * count) ∧
        holds memory s' := by
  have range := stepRange_add_mul 0 chunkAlign count (by decide)
  rw [Nat.zero_add] at range
  rw [range]
  apply Succeeds.mono
  · apply Succeeds.mapM (fun _ => holds memory) state
    intro k below s held
    obtain ⟨inside, whole, here, chunkMapped⟩ :=
      isMapped.turn (aligned (Nat.ne_zero_of_lt below)) below
    rw [Nat.zero_add, Nat.mod_eq_of_lt inside, Nat.min_eq_left whole]
    exact backs.read held here chunkMapped
  · rintro chunks s' ⟨rfl, held⟩
    exact ⟨flatten_slices memory addr count, held⟩

/-- A read returns the bytes of the range. -/
theorem read_succeeds (backs : Backs memif mapped holds) (state : holds memory s) {addr len : Nat}
    (isMapped : InMapped mapped addr len) :
    Succeeds (memif.read addr len) s fun bytes s' =>
      bytes = memory.slice addr len ∧ holds memory s' := by
  obtain ⟨headFits, inChunk, restAligned⟩ := headLen_spec addr len
  have below := Nat.mod_le addr chunkAlign
  have fits := isMapped.fits
  obtain ⟨rest, total⟩ := Nat.exists_eq_add_of_le headFits
  have start : len - headLen addr len = rest := by omega
  have split := Nat.div_add_mod rest chunkAlign
  have whole : rest - rest % chunkAlign = chunkAlign * (rest / chunkAlign) := by omega
  have rest64 : (addr + headLen addr len) % 2 ^ 64 = addr + headLen addr len :=
    Nat.mod_eq_of_lt (by omega)
  have tail64 : (addr + headLen addr len + chunkAlign * (rest / chunkAlign)) % 2 ^ 64 =
      addr + headLen addr len + chunkAlign * (rest / chunkAlign) := Nat.mod_eq_of_lt (by omega)
  simp only [read, start, whole, rest64, tail64] at restAligned ⊢
  apply Succeeds.bind
  · apply readPart_succeeds backs state (fun _ => Nat.dvd_sub_mod addr) inChunk
    rw [Nat.sub_add_cancel below]
    exact isMapped.part (show 0 + _ ≤ _ by omega)
  rintro _ s₁ ⟨rfl, held₁⟩
  apply Succeeds.bind
  · apply readPart_succeeds backs held₁
    · intro nonempty
      exact (restAligned (by omega)).add (Nat.dvd_mul_right _ _)
    · rw [Nat.zero_add]
      exact (Nat.mod_lt _ (by decide)).le
    · rw [Nat.add_zero, Nat.add_assoc]
      exact isMapped.part (by omega)
  rintro _ s₂ ⟨rfl, held₂⟩
  apply Succeeds.bind
  · apply body_succeeds backs held₂
    · intro nonempty
      apply restAligned
      rintro rfl
      exact nonempty (Nat.zero_div _)
    · exact isMapped.part (by omega)
  rintro chunks s₃ ⟨body, held₃⟩
  apply Succeeds.pure
  refine ⟨?_, held₃⟩
  rw [body, Nat.sub_add_cancel below, Nat.add_zero, List.append_assoc, ← slice_add, split,
    ← slice_add, ← total]

/-- The body of a write, chunk by chunk. -/
theorem writeBody_succeeds (backs : Backs memif mapped holds) (state : holds memory s)
    {addr count : Nat} {bytes : List Nat} (bytesSmall : ∀ byte ∈ bytes, byte < 256)
    (length : bytes.length = chunkAlign * count) (aligned : count ≠ 0 → chunkAlign ∣ addr)
    (isMapped : InMapped mapped addr (chunkAlign * count)) {chunk : Nat → List Nat}
    (chunks : ∀ k < count, chunk (chunkAlign * k) = (bytes.drop (chunkAlign * k)).take chunkAlign) :
    Succeeds ((stepRange 0 (chunkAlign * count) chunkAlign).forM fun pos =>
        memif.writeChunk ((addr + pos) % 2 ^ 64) (chunk pos)) s
      fun _ s' => holds (memory.overwrite addr bytes) s' := by
  have range := stepRange_add_mul 0 chunkAlign count (by decide)
  rw [Nat.zero_add] at range
  rw [range]
  apply Succeeds.mono
  · apply Succeeds.forM (fun k => holds (memory.overwrite addr (bytes.take (chunkAlign * k))))
    · rw [Nat.mul_zero, List.take_zero, overwrite_nil]
      exact state
    · intro k below s held
      obtain ⟨inside, whole, here, chunkMapped⟩ :=
        isMapped.turn (aligned (Nat.ne_zero_of_lt below)) below
      have size : ((bytes.drop (chunkAlign * k)).take chunkAlign).length = chunkAlign := by
        rw [List.length_take, List.length_drop, length, Nat.min_eq_left whole]
      have before : (bytes.take (chunkAlign * k)).length = chunkAlign * k := by
        rw [List.length_take, length]
        exact Nat.min_eq_left (Nat.mul_le_mul_left _ below.le)
      have written := backs.write held here chunkMapped size fun byte mem =>
        bytesSmall byte (List.mem_of_mem_drop (List.mem_of_mem_take mem))
      rw [Nat.zero_add, Nat.mod_eq_of_lt inside, chunks k below]
      apply written.mono
      intro _ s' next
      have extended := overwrite_append memory addr (bytes.take (chunkAlign * k))
        ((bytes.drop (chunkAlign * k)).take chunkAlign)
      rw [before, ← List.take_add, ← Nat.mul_succ] at extended
      rw [extended]
      exact next
  · intro _ s' held
    rw [← length, List.take_length] at held
    exact held

/-- Whole chunks are written one by one or, when they are zero, cleared. -/
theorem writeWhole_succeeds (backs : Backs memif mapped holds) (state : holds memory s)
    {addr count : Nat} {body : List Nat} (bodySmall : ∀ byte ∈ body, byte < 256)
    (length : body.length = chunkAlign * count) (aligned : count ≠ 0 → chunkAlign ∣ addr)
    (isMapped : InMapped mapped addr body.length) :
    Succeeds (if body.length ≠ 0 ∧ ∀ byte ∈ body, byte = 0 then memif.clearChunk addr body.length
        else
          (stepRange 0 body.length chunkAlign).forM fun pos =>
            memif.writeChunk ((addr + pos) % 2 ^ 64)
              ((body.drop pos).take (min chunkAlign (body.length - pos)))) s
      fun _ s' => holds (memory.overwrite addr body) s' := by
  rw [length] at isMapped ⊢
  apply Succeeds.ite
  · rintro ⟨_, zero⟩
    apply writeBody_succeeds backs state bodySmall length aligned isMapped
    intro k below
    obtain ⟨_, whole, _⟩ := isMapped.turn (aligned (Nat.ne_zero_of_lt below)) below
    rw [Nat.min_eq_right whole]
    symm
    rw [List.eq_replicate_iff, List.length_take, List.length_drop, length]
    exact ⟨Nat.min_eq_left whole,
      fun byte mem => zero byte (List.mem_of_mem_drop (List.mem_of_mem_take mem))⟩
  · intro _
    apply writeBody_succeeds backs state bodySmall length aligned isMapped
    intro k below
    obtain ⟨_, whole, _⟩ := isMapped.turn (aligned (Nat.ne_zero_of_lt below)) below
    rw [Nat.min_eq_left whole]

/-- A write by its head, its whole chunks and its tail. -/
theorem write_eq {addr : Nat} {head body tail : List Nat}
    (headLength : headLen addr (head ++ (body ++ tail)).length = head.length)
    (whole : chunkAlign ∣ body.length) (short : tail.length < chunkAlign) :
    memif.write addr (head ++ (body ++ tail)) = (do
      memif.writePart (addr - addr % chunkAlign) (addr % chunkAlign) head
      let addr := (addr + head.length) % 2 ^ 64
      memif.writePart ((addr + body.length) % 2 ^ 64) 0 tail
      if body.length ≠ 0 ∧ ∀ byte ∈ body, byte = 0 then memif.clearChunk addr body.length
      else
        (stepRange 0 body.length chunkAlign).forM fun pos =>
          memif.writeChunk ((addr + pos) % 2 ^ 64)
            ((body.drop pos).take (min chunkAlign (body.length - pos)))) := by
  have start : (body ++ tail).length - (body ++ tail).length % chunkAlign = body.length := by
    obtain ⟨count, length⟩ := whole
    rw [List.length_append, length, Nat.mul_add_mod, Nat.mod_eq_of_lt short,
      Nat.add_sub_cancel_right]
  simp only [write, headLength, List.take_left, List.drop_left, start]

/-- A write copies its bytes. -/
theorem write_succeeds (backs : Backs memif mapped holds) (state : holds memory s) {addr : Nat}
    {bytes : List Nat} (bytesSmall : ∀ byte ∈ bytes, byte < 256)
    (isMapped : InMapped mapped addr bytes.length) :
    Succeeds (memif.write addr bytes) s fun _ s' => holds (memory.overwrite addr bytes) s' := by
  obtain ⟨headFits, inChunk, restAligned⟩ := headLen_spec addr bytes.length
  have below := Nat.mod_le addr chunkAlign
  have fits := isMapped.fits
  obtain ⟨head, rest, headLength, rfl⟩ : ∃ head rest, headLen addr bytes.length = head.length ∧
      bytes = head ++ rest :=
    ⟨bytes.take _, bytes.drop _, (List.length_take_of_le headFits).symm,
      (List.take_append_drop _ _).symm⟩
  obtain ⟨body, tail, bodyLength, short, rfl⟩ : ∃ body tail,
      body.length = chunkAlign * (rest.length / chunkAlign) ∧ tail.length < chunkAlign ∧
        rest = body ++ tail := by
    have low := Nat.mod_lt rest.length (show 0 < chunkAlign by decide)
    have split := Nat.div_add_mod rest.length chunkAlign
    refine ⟨rest.take (chunkAlign * (rest.length / chunkAlign)),
      rest.drop (chunkAlign * (rest.length / chunkAlign)), ?_, ?_, (List.take_append_drop _ _).symm⟩
    · exact List.length_take_of_le (by omega)
    · rw [List.length_drop]
      omega
  generalize (body ++ tail).length / chunkAlign = count at bodyLength
  rw [headLength] at inChunk restAligned
  simp only [List.length_append] at fits isMapped restAligned
  simp only [List.mem_append] at bytesSmall
  rw [Nat.add_sub_cancel_left] at restAligned
  have rest64 : (addr + head.length) % 2 ^ 64 = addr + head.length := Nat.mod_eq_of_lt (by omega)
  have tail64 : (addr + head.length + body.length) % 2 ^ 64 = addr + head.length + body.length :=
    Nat.mod_eq_of_lt (by omega)
  rw [write_eq headLength ⟨count, bodyLength⟩ short]
  simp only [rest64, tail64]
  apply Succeeds.bind
  · apply writePart_succeeds backs state (fun byte mem => bytesSmall byte (Or.inl mem))
      (fun _ => Nat.dvd_sub_mod addr) inChunk
    rw [Nat.sub_add_cancel below]
    exact isMapped.part (show 0 + _ ≤ _ by omega)
  intro _ s₁ held₁
  rw [Nat.sub_add_cancel below] at held₁
  apply Succeeds.bind
  · apply writePart_succeeds backs held₁ (fun byte mem => bytesSmall byte (Or.inr (Or.inr mem)))
    · intro nonempty
      exact (restAligned (by omega)).add ⟨count, bodyLength⟩
    · omega
    · rw [Nat.add_zero, Nat.add_assoc]
      exact isMapped.part (by omega)
  intro _ s₂ held₂
  rw [Nat.add_zero] at held₂
  have final : ((memory.overwrite addr head).overwrite (addr + head.length + body.length) tail).overwrite
      (addr + head.length) body = memory.overwrite addr (head ++ (body ++ tail)) := by
    rw [overwrite_comm (Nat.le_refl _), overwrite_append, overwrite_append]
  rw [← final]
  apply writeWhole_succeeds backs held₂ (fun byte mem => bytesSmall byte (Or.inr (Or.inl mem)))
    bodyLength
  · intro some
    have nonempty : 0 < chunkAlign * count := Nat.mul_pos (by decide) (Nat.pos_of_ne_zero some)
    exact restAligned (by omega)
  · exact isMapped.part (by omega)

end Backed

end ChunkedMemif

end Difftest.Spike

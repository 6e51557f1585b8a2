import Difftest.Data.Dict

/-!
# Free identifiers and their callbacks

`FreeList` hands out source and sink identifiers and queues the events that wait
for one; `SrcToCallback` keeps the callback of each identifier in use.  Both are
generic in what an event and a callback are.  A failed assertion, a missing key
or an empty list is `none`.
-/

namespace Difftest.TileLink

universe u

/-! ## Identifiers -/

/-- The identifiers, those that are free, and the events waiting for one. -/
structure FreeList (ε : Type u) where
  initList : List Nat
  freeList : List Nat
  eventQueue : List ε

namespace FreeList

variable {ε : Type u}

/-- `FreeList(name, init_list)`. -/
def new (initList : List Nat) : FreeList ε :=
  { initList, freeList := initList, eventQueue := [] }

/-- Is no identifier free? -/
def empty (list : FreeList ε) : Bool := list.freeList.isEmpty

/-- Take the free identifier that the random draw selects. -/
def get (draw : Nat) (list : FreeList ε) : Option (Nat × FreeList ε) :=
  list.freeList[draw % list.freeList.length]?.map fun ret =>
    (ret, { list with freeList := list.freeList.erase ret })

/-- Queue an event until an identifier is released. -/
def reserve (event : ε) (list : FreeList ε) : FreeList ε :=
  { list with eventQueue := list.eventQueue ++ [event] }

/-- Give an identifier back; the oldest waiting event, which the caller runs, is
taken off the queue. -/
def release (ret : Nat) (list : FreeList ε) : Option (Option ε × FreeList ε) :=
  if ret ∈ list.initList ∧ ret ∉ list.freeList then
    some (list.eventQueue.head?,
      { list with
        freeList := list.freeList ++ [ret]
        eventQueue := list.eventQueue.tail })
  else none

theorem get_eq_some_iff {draw ret : Nat} {list rest : FreeList ε} :
    list.get draw = some (ret, rest) ↔
      list.freeList[draw % list.freeList.length]? = some ret ∧
        rest = { list with freeList := list.freeList.erase ret } := by
  rw [get, Option.map_eq_some_iff]
  constructor
  · rintro ⟨found, drawn, same⟩
    cases same
    exact ⟨drawn, rfl⟩
  · rintro ⟨drawn, rfl⟩
    exact ⟨ret, drawn, rfl⟩

/-- Whatever the draw, an identifier handed out was free. -/
theorem mem_of_get {draw ret : Nat} {list rest : FreeList ε}
    (got : list.get draw = some (ret, rest)) : ret ∈ list.freeList :=
  List.mem_of_getElem? (get_eq_some_iff.mp got).1

/-- A draw succeeds as soon as one identifier is free. -/
theorem get_isSome {list : FreeList ε} (draw : Nat) (free : list.freeList ≠ []) :
    (list.get draw).isSome := by
  have bound : draw % list.freeList.length < list.freeList.length :=
    Nat.mod_lt _ (List.length_pos_of_ne_nil free)
  rw [get, List.getElem?_eq_getElem bound]
  rfl

theorem release_eq_some_iff {ret : Nat} {list rest : FreeList ε} {event : Option ε} :
    list.release ret = some (event, rest) ↔
      (ret ∈ list.initList ∧ ret ∉ list.freeList) ∧ event = list.eventQueue.head? ∧
        rest = { list with
          freeList := list.freeList ++ [ret]
          eventQueue := list.eventQueue.tail } := by
  unfold release
  split
  · rename_i allowed
    simp [allowed, eq_comm]
  · rename_i refused
    simp [refused]

end FreeList

/-! ## Callbacks -/

/-- The callback of each source that has one. -/
structure SrcToCallback (κ : Type u) where
  srcs : List Nat
  cMap : Dict Nat (Option κ)

namespace SrcToCallback

variable {κ : Type u}

/-- `srcToCallback(name, init_srcs)`: every source starts without a callback. -/
def new (srcs : List Nat) : SrcToCallback κ :=
  { srcs, cMap := srcs.foldl (fun cMap src => cMap.set src none) Dict.empty }

/-- Record the callback of a source that has none. -/
def set (src : Nat) (callback : κ) (callbacks : SrcToCallback κ) : Option (SrcToCallback κ) :=
  match callbacks.cMap.get? src with
  | some none =>
      if src ∈ callbacks.srcs then
        some { callbacks with cMap := callbacks.cMap.set src (some callback) }
      else none
  | some (some _) => none
  | none => none

/-- Take the callback of a source, which the caller runs. -/
def call (src : Nat) (callbacks : SrcToCallback κ) : Option (Option κ × SrcToCallback κ) :=
  match callbacks.cMap.get? src with
  | some (some callback) =>
      some (some callback, { callbacks with cMap := callbacks.cMap.set src none })
  | some none => some (none, callbacks)
  | none => none

/-- The callback a source waits for, if any. -/
def pending (callbacks : SrcToCallback κ) (src : Nat) : Option κ :=
  (callbacks.cMap.get? src).join

/-- At first no source waits for a callback. -/
theorem pending_new (srcs : List Nat) (src : Nat) :
    (new srcs : SrcToCallback κ).pending src = none := by
  have idle : ∀ cMap : Dict Nat (Option κ), (cMap.get? src).join = none →
      ((srcs.foldl (fun cMap src => cMap.set src none) cMap).get? src).join = none := by
    induction srcs with
    | nil => exact fun _ idle => idle
    | cons first srcs ih =>
        intro cMap idle
        apply ih
        rw [Dict.get?_set]
        split
        · rfl
        · exact idle
  exact idle Dict.empty rfl

theorem pending_eq_none {callbacks : SrcToCallback κ}
    (idle : ∀ entry ∈ callbacks.cMap.entries, entry.2 = none) (src : Nat) :
    callbacks.pending src = none := by
  rw [pending]
  cases found : callbacks.cMap.get? src with
  | none => rfl
  | some callback => exact idle (src, callback) (Dict.mem_of_find found)

theorem set_eq_some_iff {src : Nat} {callback : κ} {callbacks rest : SrcToCallback κ} :
    callbacks.set src callback = some rest ↔
      callbacks.cMap.get? src = some none ∧ src ∈ callbacks.srcs ∧
        rest = { callbacks with cMap := callbacks.cMap.set src (some callback) } := by
  unfold set
  cases slot : callbacks.cMap.get? src with
  | none => simp
  | some held =>
      cases held with
      | some held => simp
      | none =>
          by_cases known : src ∈ callbacks.srcs
          · simp [known, eq_comm]
          · simp [known]

theorem pending_of_set {src : Nat} {callback : κ} {callbacks rest : SrcToCallback κ}
    (recorded : callbacks.set src callback = some rest) (other : Nat) :
    rest.pending other = if other = src then some callback else callbacks.pending other := by
  obtain ⟨_, _, rfl⟩ := set_eq_some_iff.mp recorded
  rw [pending, pending, Dict.get?_set]
  split <;> rfl

theorem call_eq_some_iff {src : Nat} {callback : Option κ} {callbacks rest : SrcToCallback κ} :
    callbacks.call src = some (callback, rest) ↔
      callbacks.cMap.get? src = some callback ∧
        rest = if callback.isSome then { callbacks with cMap := callbacks.cMap.set src none }
          else callbacks := by
  unfold call
  cases slot : callbacks.cMap.get? src with
  | none => simp
  | some held =>
      cases held with
      | none =>
          constructor
          · intro same
            cases same
            exact ⟨rfl, rfl⟩
          · rintro ⟨same, rfl⟩
            cases same
            rfl
      | some held =>
          constructor
          · intro same
            cases same
            exact ⟨rfl, rfl⟩
          · rintro ⟨same, rfl⟩
            cases same
            rfl

theorem pending_of_call {src : Nat} {callback : Option κ} {callbacks rest : SrcToCallback κ}
    (called : callbacks.call src = some (callback, rest)) :
    callbacks.pending src = callback ∧
      ∀ other, rest.pending other = if other = src then none else callbacks.pending other := by
  obtain ⟨slot, rfl⟩ := call_eq_some_iff.mp called
  have taken : callbacks.pending src = callback := by
    rw [pending, slot]
    rfl
  refine ⟨taken, ?_⟩
  intro other
  cases callback with
  | none =>
      by_cases same : other = src
      · subst same
        simpa using taken
      · simp [same]
  | some callback =>
      rw [pending, pending]
      simp only [Option.isSome_some, if_true, Dict.get?_set]
      split <;> rfl

end SrcToCallback

end Difftest.TileLink

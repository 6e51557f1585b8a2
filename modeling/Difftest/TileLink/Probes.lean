import Difftest.TileLink.Adapter

/-!
# Probe slots

`retrieveBlock` sends a probe under a free source, or reserves it until a source
is released; the answer of a probe runs its callback, which may retrieve further
blocks, and then releases the source.  The machine here is generic in the
callbacks.  Its logs record which callbacks were given, issued with a probe and
called for the answer of a probe.
-/

namespace Difftest.TileLink

universe u

/-! ## The machine -/

/-- The arguments of `retrieveBlock`: a callback and the probe to send, whose
source is chosen when it is sent. -/
structure Request (κ : Type u) where
  callback : κ
  probe : BMessage

/-- A probe with the callback it was issued for. -/
abbrev Issued (κ : Type u) := BMessage × κ

/-- The identifiers, the callback slots and the logs. -/
structure ProbeSlots (κ : Type u) where
  bSrcs : FreeList (Request κ)
  bCallback : SrcToCallback κ
  draws : List Nat
  /-- The callbacks given to `retrieveBlock`, in order. -/
  given : List κ
  /-- The probes pushed to the channel B queue, in order. -/
  issued : List (Issued κ)
  /-- The probes that the core has not answered. -/
  outstanding : List (Issued κ)
  /-- The answered probes with the callbacks that were called. -/
  answered : List (BMessage × Option κ)

namespace ProbeSlots

variable {κ : Type u}

/-- `FreeList('b_srcs', srcs)` and `srcToCallback('b_callback', srcs)`. -/
def new (srcs draws : List Nat) : ProbeSlots κ where
  bSrcs := FreeList.new srcs
  bCallback := SrcToCallback.new srcs
  draws := draws
  given := []
  issued := []
  outstanding := []
  answered := []

/-- `retrieveBlock_cb`. -/
def retrieveBlockCb (request : Request κ) (s : ProbeSlots κ) : Option (ProbeSlots κ) :=
  (s.bSrcs.get (s.draws.headD 0)).bind fun (bSrc, bSrcs) =>
    (s.bCallback.set bSrc request.callback).map fun bCallback =>
      let entry := ({ request.probe with source := bSrc }, request.callback)
      { s with
        bSrcs
        bCallback
        draws := s.draws.tail
        issued := s.issued ++ [entry]
        outstanding := s.outstanding ++ [entry] }

/-- `retrieveBlock`. -/
def retrieveBlock (request : Request κ) (s : ProbeSlots κ) : Option (ProbeSlots κ) :=
  let s := { s with given := s.given ++ [request.callback] }
  if s.bSrcs.empty then some { s with bSrcs := s.bSrcs.reserve request }
  else retrieveBlockCb request s

/-- The calls of `retrieveBlock` that a callback makes. -/
def retrieveBlocks : List (Request κ) → ProbeSlots κ → Option (ProbeSlots κ)
  | [], s => some s
  | request :: requests, s => (retrieveBlock request s).bind (retrieveBlocks requests)

/-- `b_callback.call(source)`: the callback leaves its slot and makes its calls of
`retrieveBlock`. -/
def call (probe : BMessage) (nested : List (Request κ)) (s : ProbeSlots κ) :
    Option (ProbeSlots κ) :=
  (s.bCallback.call probe.source).bind fun (callback, bCallback) =>
    let s := { s with
      bCallback
      outstanding := s.outstanding.eraseP fun entry => entry.1.source = probe.source
      answered := s.answered ++ [(probe, callback)] }
    match callback with
    | some _ => retrieveBlocks nested s
    | none => some s

/-- `b_srcs.release(source)`, which runs the oldest reservation. -/
def release (source : Nat) (s : ProbeSlots κ) : Option (ProbeSlots κ) :=
  (s.bSrcs.release source).bind fun (event, bSrcs) =>
    let s := { s with bSrcs }
    match event with
    | some request => retrieveBlockCb request s
    | none => some s

/-- What can happen: a call of `retrieveBlock` from outside, or the answer of a
probe, whose callback makes the listed calls. -/
inductive Event (κ : Type u) where
  | retrieve (request : Request κ)
  | answer (probe : BMessage) (nested : List (Request κ))

/-- One event; a failed assertion is `none`. -/
def step (s : ProbeSlots κ) : Event κ → Option (ProbeSlots κ)
  | .retrieve request => retrieveBlock request s
  | .answer probe nested => (s.call probe nested).bind (release probe.source)

/-- A sequence of events. -/
def run (s : ProbeSlots κ) : List (Event κ) → Option (ProbeSlots κ)
  | [] => some s
  | event :: events => (s.step event).bind fun s => run s events

/-- The core answers probes it has received and not answered. -/
def Answers (s : ProbeSlots κ) : List (Event κ) → Prop
  | [] => True
  | event :: events =>
      (∀ probe nested, event = .answer probe nested → ∃ callback, (probe, callback) ∈ s.outstanding) ∧
        ∀ s', s.step event = some s' → s'.Answers events

/-! ## The invariant -/

/-- The sources in `serving` are neither free nor waiting for an answer: their
callback was taken and runs.  The callbacks in `next` are about to be issued. -/
structure Sound (srcs serving : List Nat) (next : List κ) (s : ProbeSlots κ) : Prop where
  initial : s.bSrcs.initList = srcs
  known : s.bCallback.srcs = srcs
  sources : (s.outstanding.map (fun entry => entry.1.source) ++
    (serving ++ s.bSrcs.freeList)).Perm srcs
  vacant : ∀ src ∈ serving ++ s.bSrcs.freeList, s.bCallback.cMap.get? src = some none
  taken : ∀ entry ∈ s.outstanding, s.bCallback.cMap.get? entry.1.source = some (some entry.2)
  waiting : s.bSrcs.eventQueue ≠ [] → s.bSrcs.freeList.length ≤ next.length
  inOrder : s.issued.map Prod.snd ++ (next ++ s.bSrcs.eventQueue.map Request.callback) = s.given
  called : (s.answered ++ s.outstanding.map fun entry => (entry.1, some entry.2)).Perm
    (s.issued.map fun entry => (entry.1, some entry.2))

section Sound

variable {srcs serving : List Nat} {s : ProbeSlots κ}

/-- A request is sent under a free source. -/
theorem Sound.issue (distinct : srcs.Nodup) {request : Request κ}
    (sound : Sound srcs serving [request.callback] s) (free : s.bSrcs.freeList ≠ []) :
    ∃ s', retrieveBlockCb request s = some s' ∧ Sound srcs serving [] s' := by
  obtain ⟨⟨src, bSrcs⟩, got⟩ := Option.isSome_iff_exists.mp
    (FreeList.get_isSome (s.draws.headD 0) free)
  have mem := FreeList.mem_of_get got
  obtain ⟨_, rfl⟩ := FreeList.get_eq_some_iff.mp got
  have inSources : src ∈ srcs := sound.sources.mem_iff.mp
    (List.mem_append_right _ (List.mem_append_right serving mem))
  have slot := sound.vacant src (List.mem_append_right serving mem)
  have recorded : s.bCallback.set src request.callback =
      some { s.bCallback with cMap := s.bCallback.cMap.set src (some request.callback) } :=
    SrcToCallback.set_eq_some_iff.mpr ⟨slot, sound.known ▸ inSources, rfl⟩
  have all := sound.sources.nodup_iff.mpr distinct
  have apart : ∀ entry ∈ s.outstanding, entry.1.source ≠ src := by
    rintro entry waits rfl
    exact List.disjoint_of_nodup_append all (List.mem_map_of_mem waits)
      (List.mem_append_right serving mem)
  have freeNodup : (serving ++ s.bSrcs.freeList).Nodup := (List.nodup_append.mp all).2.1
  refine ⟨_, by rw [retrieveBlockCb, got, Option.bind_some]; dsimp only; rw [recorded]; rfl, ?_⟩
  constructor
  · exact sound.initial
  · exact sound.known
  · have moved : (serving ++ s.bSrcs.freeList).Perm
        (src :: (serving ++ s.bSrcs.freeList.erase src)) :=
      ((List.perm_cons_erase mem).append_left serving).trans List.perm_middle
    have taken := moved.append_left (s.outstanding.map fun entry => entry.1.source)
    rw [List.map_append, List.append_assoc]
    exact taken.symm.trans sound.sources
  · intro other isVacant
    have wasVacant : other ∈ serving ++ s.bSrcs.freeList := by
      rcases List.mem_append.mp isVacant with serves | kept
      · exact List.mem_append_left _ serves
      · exact List.mem_append_right _ (List.mem_of_mem_erase kept)
    have other_ne : other ≠ src := by
      rintro rfl
      rcases List.mem_append.mp isVacant with serves | kept
      · exact List.disjoint_of_nodup_append freeNodup serves mem
      · exact (List.nodup_append.mp freeNodup).2.1.not_mem_erase kept
    rw [Dict.get?_set_of_ne _ other_ne]
    exact sound.vacant other wasVacant
  · intro entry waits
    rcases List.mem_append.mp waits with old | new
    · rw [Dict.get?_set_of_ne _ (apart entry old)]
      exact sound.taken entry old
    · rw [List.mem_singleton.mp new]
      exact Dict.get?_set_self _ src _
  · intro pending
    have bound := sound.waiting pending
    rw [List.length_erase_of_mem mem]
    exact Nat.sub_le_of_le_add bound
  · rw [List.map_append, List.append_assoc]
    exact sound.inOrder
  · rw [List.map_append, List.map_append, ← List.append_assoc]
    exact sound.called.append_right _

/-- A call of `retrieveBlock` never fails. -/
theorem Sound.retrieveBlock (distinct : srcs.Nodup) (sound : Sound srcs serving [] s)
    (request : Request κ) :
    ∃ s', s.retrieveBlock request = some s' ∧ Sound srcs serving [] s' := by
  unfold ProbeSlots.retrieveBlock
  by_cases busy : s.bSrcs.empty = true
  · refine ⟨_, if_pos busy, ?_⟩
    have none : s.bSrcs.freeList = [] := List.isEmpty_iff.mp busy
    constructor
    · exact sound.initial
    · exact sound.known
    · exact sound.sources
    · exact sound.vacant
    · exact sound.taken
    · intro _
      rw [FreeList.reserve, none]
      exact Nat.le_refl 0
    · have inOrder := sound.inOrder
      rw [List.nil_append] at inOrder
      rw [List.nil_append, ← inOrder, FreeList.reserve, List.map_append, List.append_assoc]
      rfl
    · exact sound.called
  · have free : s.bSrcs.freeList ≠ [] := fun none => busy (List.isEmpty_iff.mpr none)
    have nobody : s.bSrcs.eventQueue = [] := by
      by_contra pending
      exact free (List.length_eq_zero_iff.mp (Nat.le_zero.mp (sound.waiting pending)))
    have given : Sound srcs serving [request.callback]
        { s with given := s.given ++ [request.callback] } := by
      have inOrder := sound.inOrder
      rw [nobody, List.nil_append, List.map_nil, List.append_nil] at inOrder
      constructor
      · exact sound.initial
      · exact sound.known
      · exact sound.sources
      · exact sound.vacant
      · exact sound.taken
      · exact fun pending => absurd nobody pending
      · dsimp only
        rw [nobody, ← inOrder, List.map_nil, List.append_nil]
      · exact sound.called
    obtain ⟨s', issued, sound'⟩ := given.issue distinct free
    exact ⟨s', by rw [if_neg busy]; exact issued, sound'⟩

theorem Sound.retrieveBlocks (distinct : srcs.Nodup) (requests : List (Request κ))
    (sound : Sound srcs serving [] s) :
    ∃ s', ProbeSlots.retrieveBlocks requests s = some s' ∧ Sound srcs serving [] s' := by
  induction requests generalizing s with
  | nil => exact ⟨s, rfl, sound⟩
  | cons request requests ih =>
      obtain ⟨middle, first, middleSound⟩ := sound.retrieveBlock distinct request
      obtain ⟨s', rest, sound'⟩ := ih middleSound
      exact ⟨s', by rw [ProbeSlots.retrieveBlocks, first]; exact rest, sound'⟩

/-- The callback of an answered probe is taken and its source is being served. -/
theorem Sound.call (distinct : srcs.Nodup) (sound : Sound srcs [] [] s) {probe : BMessage}
    {callback : κ} (waits : (probe, callback) ∈ s.outstanding) (nested : List (Request κ)) :
    ∃ s', s.call probe nested = some s' ∧ Sound srcs [probe.source] [] s' := by
  have slot := sound.taken _ waits
  have calls : s.bCallback.call probe.source = some (some callback,
      { s.bCallback with cMap := s.bCallback.cMap.set probe.source none }) :=
    SrcToCallback.call_eq_some_iff.mpr ⟨slot, rfl⟩
  have all := sound.sources.nodup_iff.mpr distinct
  have sourcesNodup : (s.outstanding.map fun entry => entry.1.source).Nodup :=
    (List.nodup_append.mp all).1
  -- The sources of outstanding probes are distinct, so the entry erased is this one.
  obtain ⟨found, front, back, before, own, split, erased⟩ :=
    List.exists_of_eraseP (p := fun entry : Issued κ => decide (entry.1.source = probe.source))
      waits (by simp)
  have ownSource : found.1.source = probe.source := of_decide_eq_true own
  have same : found = (probe, callback) := by
    have foundMem : found ∈ s.outstanding := by
      rw [split]
      exact List.mem_append_right _ List.mem_cons_self
    exact List.inj_on_of_nodup_map sourcesNodup foundMem waits ownSource
  rw [same] at split
  have shorter : s.outstanding.Perm
      ((probe, callback) :: s.outstanding.eraseP fun entry => entry.1.source = probe.source) := by
    rw [erased, split]
    exact List.perm_middle
  have others : ∀ entry ∈ s.outstanding.eraseP (fun entry => entry.1.source = probe.source),
      entry ∈ s.outstanding ∧ entry.1.source ≠ probe.source := by
    intro entry kept
    refine ⟨shorter.mem_iff.mpr (List.mem_cons_of_mem _ kept), ?_⟩
    have nodup := (shorter.map fun entry => entry.1.source).nodup_iff.mp sourcesNodup
    rw [List.map_cons, List.nodup_cons] at nodup
    intro clash
    exact nodup.1 (List.mem_map.mpr ⟨entry, kept, clash⟩)
  have serving : Sound srcs [probe.source] []
      { s with
        bCallback := { s.bCallback with cMap := s.bCallback.cMap.set probe.source none }
        outstanding := s.outstanding.eraseP fun entry => entry.1.source = probe.source
        answered := s.answered ++ [(probe, some callback)] } := by
    constructor
    · exact sound.initial
    · exact sound.known
    · have moved := ((shorter.map fun entry => entry.1.source).append_right
        ([] ++ s.bSrcs.freeList)).symm
      exact List.perm_middle.trans (moved.trans sound.sources)
    · intro src isVacant
      rw [Dict.get?_set]
      split
      · rfl
      · rename_i other
        rcases List.mem_append.mp isVacant with served | free
        · exact absurd (List.mem_singleton.mp served) other
        · exact sound.vacant src free
    · intro entry kept
      obtain ⟨waited, other⟩ := others entry kept
      rw [Dict.get?_set_of_ne _ other]
      exact sound.taken entry waited
    · exact sound.waiting
    · exact sound.inOrder
    · have logged := (shorter.map fun entry => (entry.1, some entry.2)).append_left s.answered
      rw [List.append_assoc]
      exact logged.symm.trans sound.called
  obtain ⟨s', made, sound'⟩ := serving.retrieveBlocks distinct nested
  refine ⟨s', ?_, sound'⟩
  rw [ProbeSlots.call, calls]
  exact made

/-- A served source is released, and the oldest reservation takes a free source. -/
theorem Sound.release (distinct : srcs.Nodup) {source : Nat}
    (sound : Sound srcs [source] [] s) :
    ∃ s', s.release source = some s' ∧ Sound srcs [] [] s' := by
  have inSources : source ∈ srcs := sound.sources.mem_iff.mp (List.mem_append_right _
    (List.mem_append_left _ (List.mem_singleton_self source)))
  have all := (List.nodup_append.mp (sound.sources.nodup_iff.mpr distinct)).2.1
  have notFree : source ∉ s.bSrcs.freeList := by
    intro free
    exact List.disjoint_of_nodup_append all (List.mem_singleton_self source) free
  have released := @FreeList.release_eq_some_iff _ source s.bSrcs _ _ |>.mpr
    ⟨⟨sound.initial ▸ inSources, notFree⟩, rfl, rfl⟩
  rw [ProbeSlots.release, released, Option.bind_some]
  have rotated : ([source] ++ s.bSrcs.freeList).Perm ([] ++ (s.bSrcs.freeList ++ [source])) :=
    List.perm_append_comm
  have sources := (rotated.append_left (s.outstanding.map fun entry => entry.1.source)).symm.trans
    sound.sources
  have vacant : ∀ src ∈ [] ++ (s.bSrcs.freeList ++ [source]),
      s.bCallback.cMap.get? src = some none :=
    fun src mem => sound.vacant src (rotated.mem_iff.mpr mem)
  have waiting : s.bSrcs.eventQueue ≠ [] → s.bSrcs.freeList = [] := by
    intro pending
    exact List.length_eq_zero_iff.mp (Nat.le_zero.mp (sound.waiting pending))
  have inOrder := sound.inOrder
  cases queue : s.bSrcs.eventQueue with
  | nil =>
      rw [queue] at inOrder
      refine ⟨_, rfl, ?_⟩
      exact ⟨sound.initial, sound.known, sources, vacant, sound.taken,
        fun pending => absurd rfl pending, inOrder, sound.called⟩
  | cons request rest =>
      have none := waiting (by rw [queue]; exact List.cons_ne_nil _ _)
      rw [queue] at inOrder
      have next : Sound srcs [] [request.callback]
          { s with bSrcs := { s.bSrcs with
              freeList := s.bSrcs.freeList ++ [source], eventQueue := rest } } := by
        refine ⟨sound.initial, sound.known, sources, vacant, sound.taken, ?_, inOrder, sound.called⟩
        intro _
        dsimp only
        rw [none]
        exact Nat.le_refl 1
      exact next.issue distinct (by simp)

theorem Sound.step (distinct : srcs.Nodup) (sound : Sound srcs [] [] s) {event : Event κ}
    (answers : ∀ probe nested, event = .answer probe nested →
      ∃ callback, (probe, callback) ∈ s.outstanding) :
    ∃ s', s.step event = some s' ∧ Sound srcs [] [] s' := by
  cases event with
  | retrieve request => exact sound.retrieveBlock distinct request
  | answer probe nested =>
      obtain ⟨callback, waits⟩ := answers probe nested rfl
      obtain ⟨middle, called, middleSound⟩ := sound.call distinct waits nested
      obtain ⟨s', released, sound'⟩ := middleSound.release distinct
      exact ⟨s', by rw [ProbeSlots.step, called]; exact released, sound'⟩

theorem Sound.run (distinct : srcs.Nodup) (sound : Sound srcs [] [] s) {events : List (Event κ)}
    (answers : s.Answers events) : ∃ s', s.run events = some s' ∧ Sound srcs [] [] s' := by
  induction events generalizing s with
  | nil => exact ⟨s, rfl, sound⟩
  | cons event events ih =>
      rcases answers with ⟨now, later⟩
      obtain ⟨middle, stepped, middleSound⟩ := sound.step distinct now
      obtain ⟨s', rest, sound'⟩ := ih middleSound (later middle stepped)
      exact ⟨s', by rw [ProbeSlots.run, stepped]; exact rest, sound'⟩

end Sound

/-! ## Runs -/

theorem cMap_new (srcs : List Nat) {src : Nat} (mem : src ∈ srcs) :
    (SrcToCallback.new srcs : SrcToCallback κ).cMap.get? src = some none := by
  have entered : ∀ (srcs : List Nat) (cMap : Dict Nat (Option κ)),
      src ∈ srcs ∨ cMap.get? src = some none →
        (srcs.foldl (fun cMap src => cMap.set src none) cMap).get? src = some none := by
    intro srcs
    induction srcs with
    | nil =>
        rintro cMap (inNil | known)
        · cases inNil
        · exact known
    | cons first srcs ih =>
        intro cMap known
        apply ih
        rw [Dict.get?_set]
        by_cases same : src = first
        · exact Or.inr (if_pos same)
        · rw [if_neg same]
          rcases known with mem | entered
          · exact Or.inl ((List.mem_cons.mp mem).resolve_left same)
          · exact Or.inr entered
  exact entered srcs Dict.empty (Or.inl mem)

theorem sound_new (srcs draws : List Nat) : Sound srcs [] [] (new srcs draws : ProbeSlots κ) := by
  constructor
  · rfl
  · rfl
  · exact List.Perm.refl srcs
  · intro src mem
    exact cMap_new srcs mem
  · intro entry mem
    cases mem
  · intro pending
    exact absurd rfl pending
  · rfl
  · exact List.Perm.refl []

/-- A request of block zero whose callback is a number. -/
def requestOf (callback : Nat) : Request Nat where
  callback := callback
  probe := { opcode := .probeBlock, param := toN, size := 6, source := 0, address := 0, mask := 0xff,
             data := 0 }

/-- One source, two requests, and the answer of the first probe, whose callback
requests a third block. -/
def reentrant : List (Event Nat) :=
  [.retrieve (requestOf 1), .retrieve (requestOf 2), .answer (requestOf 0).probe [requestOf 3]]

end ProbeSlots

/-! ## The adapter's slots -/

/-- The request a retrieval makes. -/
def Retrieval.request (retrieval : Retrieval) : Request Callback where
  callback := retrieval.callback
  probe := { opcode := retrieval.opcode, param := retrieval.param, size := retrieval.size, source := 0,
             address := retrieval.address, mask := retrieval.mask, data := 0 }

/-- The adapter and the machine have the same sources, reservations and slots. -/
structure Tracks (s : State) (slots : ProbeSlots Callback) : Prop where
  initial : slots.bSrcs.initList = s.bSrcs.initList
  free : slots.bSrcs.freeList = s.bSrcs.freeList
  waiting : slots.bSrcs.eventQueue = s.bSrcs.eventQueue.map Retrieval.request
  callbacks : slots.bCallback = s.bCallback

theorem retrieveBlockCb_tracks {s s' : State} {slots : ProbeSlots Callback} (tracks : Tracks s slots)
    {retrieval : Retrieval} (issued : retrieveBlockCb retrieval s = some s') :
    ∃ slots', ProbeSlots.retrieveBlockCb retrieval.request { slots with draws := s.draws } =
      some slots' ∧ Tracks s' slots' := by
  obtain ⟨⟨src, ids⟩, got, issued⟩ := Option.bind_eq_some_iff.mp issued
  obtain ⟨callbacks, recorded, rfl⟩ := Option.map_eq_some_iff.mp issued
  obtain ⟨drawn, rfl⟩ := FreeList.get_eq_some_iff.mp got
  have gotHere : slots.bSrcs.get (s.draws.headD 0) =
      some (src, { slots.bSrcs with freeList := slots.bSrcs.freeList.erase src }) := by
    rw [FreeList.get_eq_some_iff, tracks.free]
    exact ⟨drawn, rfl⟩
  rw [← tracks.callbacks] at recorded
  have issuedHere : ∃ slots', ProbeSlots.retrieveBlockCb retrieval.request
        { slots with draws := s.draws } = some slots' ∧ slots'.bCallback = callbacks ∧
      slots'.bSrcs = { slots.bSrcs with freeList := slots.bSrcs.freeList.erase src } := by
    rw [ProbeSlots.retrieveBlockCb, gotHere, Option.bind_some]
    dsimp only [Retrieval.request]
    rw [recorded]
    exact ⟨_, rfl, rfl, rfl⟩
  obtain ⟨slots', result, newCallbacks, newSrcs⟩ := issuedHere
  refine ⟨slots', result, ?_⟩
  constructor
  · rw [newSrcs]
    exact tracks.initial
  · rw [newSrcs]
    exact congrArg (List.erase · src) tracks.free
  · rw [newSrcs]
    exact tracks.waiting
  · exact newCallbacks

/-- A retrieval of the adapter is a call of the machine. -/
theorem retrieveBlock_tracks {s s' : State} {slots : ProbeSlots Callback} (tracks : Tracks s slots)
    {retrieval : Retrieval} (retrieved : retrieveBlock retrieval s = some s') :
    ∃ slots', ProbeSlots.retrieveBlock retrieval.request { slots with draws := s.draws } =
      some slots' ∧ Tracks s' slots' := by
  have sameEmpty : slots.bSrcs.empty = s.bSrcs.empty :=
    congrArg List.isEmpty tracks.free
  rw [retrieveBlock] at retrieved
  rw [ProbeSlots.retrieveBlock]
  dsimp only
  rw [sameEmpty]
  cases isEmpty : s.bSrcs.empty with
  | true =>
    rw [isEmpty, if_pos rfl] at retrieved
    cases retrieved
    have reserved : slots.bSrcs.eventQueue ++ [retrieval.request] =
        (s.bSrcs.eventQueue ++ [retrieval]).map Retrieval.request := by
      rw [List.map_append, ← tracks.waiting]
      rfl
    exact ⟨_, rfl, tracks.initial, tracks.free, reserved, tracks.callbacks⟩
  | false =>
    rw [isEmpty, if_neg Bool.false_ne_true] at retrieved
    have grown : Tracks s { slots with given := slots.given ++ [retrieval.callback] } :=
      ⟨tracks.initial, tracks.free, tracks.waiting, tracks.callbacks⟩
    exact retrieveBlockCb_tracks grown retrieved

/-- A release in the adapter, with the reservation it runs, is a release of the
machine. -/
theorem release_tracks {s s' : State} {slots : ProbeSlots Callback} (tracks : Tracks s slots)
    {source : Nat} {event : Option Retrieval} {bSrcs : FreeList Retrieval}
    (released : s.bSrcs.release source = some (event, bSrcs))
    (continued : runEvent event (s.setSources bSrcs) = some s') :
    ∃ slots', ProbeSlots.release source { slots with draws := s.draws } = some slots' ∧
      Tracks s' slots' := by
  obtain ⟨allowed, rfl, rfl⟩ := FreeList.release_eq_some_iff.mp released
  have releasedHere : slots.bSrcs.release source =
      some (s.bSrcs.eventQueue.head?.map Retrieval.request, { slots.bSrcs with
        freeList := slots.bSrcs.freeList ++ [source]
        eventQueue := s.bSrcs.eventQueue.tail.map Retrieval.request }) := by
    rw [← tracks.initial, ← tracks.free] at allowed
    apply FreeList.release_eq_some_iff.mpr
    rw [tracks.waiting, List.head?_map, List.map_tail]
    exact ⟨allowed, rfl, rfl⟩
  rw [ProbeSlots.release, releasedHere, Option.bind_some]
  have kept : Tracks (s.setSources { s.bSrcs with
        freeList := s.bSrcs.freeList ++ [source]
        eventQueue := s.bSrcs.eventQueue.tail })
      { slots with bSrcs := { slots.bSrcs with
        freeList := slots.bSrcs.freeList ++ [source]
        eventQueue := s.bSrcs.eventQueue.tail.map Retrieval.request } } :=
    ⟨tracks.initial, congrArg (· ++ [source]) tracks.free, rfl, tracks.callbacks⟩
  cases waiting : s.bSrcs.eventQueue.head? with
  | none =>
    rw [waiting] at continued
    cases continued
    exact ⟨_, rfl, kept.initial, kept.free, kept.waiting, kept.callbacks⟩
  | some retrieval =>
    rw [waiting] at continued
    exact retrieveBlockCb_tracks kept continued

end Difftest.TileLink

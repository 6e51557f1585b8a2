import Difftest.TileLink.Mask
import Difftest.TileLink.Message
import Difftest.TileLink.Slots

/-!
# The TileLink adapter

`tlAdapter` answers the core under simulation from a dictionary of bus words.
Its coroutines share the dictionary, the permission of each block, two queues
and two identifier lists; between two clock edges each coroutine runs alone, so
a run is a list of events, one for each turn of a coroutine that does
something.  `none` is a raised exception or a turn that cannot happen.
-/

namespace Difftest.TileLink

/-! ## Configuration -/

/-- What `tlAdapter.__init__` reads off the ports.  The data ports of channels
A, C and D have the same width. -/
structure Config where
  protocol : Nat
  blockSize : Nat
  debug : Bool
  dataLen : Nat
  bDataLen : Nat
deriving Repr

namespace Config

/-- `a_datalen`, `c_datalen` and `d_datalen`: bytes of one beat. -/
def dataBytes (config : Config) : Nat := config.dataLen / 8

/-- `b_datalen`. -/
def bDataBytes (config : Config) : Nat := config.bDataLen / 8

/-- `addr & block_mask`. -/
def blockAddr (config : Config) (addr : Nat) : Nat := Nat.ldiff addr (config.blockSize - 1)

/-- `addr & addr_mask_d`, with `addr_mask_d = ~((1 << int(math.log(datalen, 2))) - 1)`. -/
def addrAligned (config : Config) (addr : Nat) : Nat :=
  Nat.ldiff addr (2 ^ Nat.log2 config.dataBytes - 1)

/-- `int(max(pow(2, size) / datalen, 1))`. -/
def burstLen (config : Config) (size : Nat) : Nat := max (2 ^ size / config.dataBytes) 1

/-- The addresses of the words of a burst. -/
def burstAddrs (config : Config) (addrAligned burstLen : Nat) : List Nat :=
  (List.range burstLen).map fun i => addrAligned + i * config.dataBytes

/-- The mask of the probes the adapter issues itself. -/
def probeMask (config : Config) : Nat := 2 ^ config.bDataBytes - 1

/-- The size of the probes the adapter issues itself. -/
def probeSize (config : Config) : Nat := Nat.log2 config.blockSize

end Config

/-- The configuration of a tile with 64-bit ports; `tileAdapter` passes
`block_size = 64`. -/
def tileConfig : Config where
  protocol := tlC
  blockSize := 64
  debug := false
  dataLen := 64
  bDataLen := 64

/-! ## State -/

/-- The functions a `CallBack` given to `retrieveBlock` can hold, with their
arguments.  `burst_data` is a shared dictionary, named here by its place in the
list of all of them. -/
inductive Callback where
  | accessAck (burstLen burstData size source : Nat)
  | accessAckData (burstLen addrAligned size source : Nat)
  | arithmeticAck (operand1 burstLen addrAligned bitMask offset size source : Nat)
  | logicalAck (operand1 burstLen addrAligned bitMask offset size source : Nat)
  | grant (param sink size source blockAddr : Nat)
  | grantData (burstLen addrAligned param sink size source blockAddr : Nat)
  | probeBlocksRec (probeAddrs : List Nat)
  | enableProbe
deriving DecidableEq, Repr

/-- The callbacks a channel D message can carry. -/
inductive DCallback where
  | updatePerm (blockAddr param : Nat)
  | updateMem (burstData : Nat)
deriving DecidableEq, Repr

/-- The arguments of `retrieveBlock_cb`, as `retrieveBlock` reserves them. -/
structure Retrieval where
  opcode : BOpcode
  callback : Callback
  param : Nat
  size : Nat
  address : Nat
  mask : Nat
deriving DecidableEq, Repr

/-- An entry of `d_queue`: a message (`none` is a bubble) and its callback. -/
abbrev DEntry := Option DMessage × Option DCallback

/-- The adapter and the local variables of its coroutines.  `draws` are the
outcomes of the random choices still to be made. -/
structure State where
  memory : Dict Nat Nat
  blockPerm : Dict Nat Nat
  aOngoings : Dict Nat Nat
  cOngoings : Dict Nat Nat
  burstData : List (Dict Nat (Nat × Nat))
  dQueue : List DEntry
  dDriving : Option DMessage
  bQueue : List BMessage
  bDriving : Option BMessage
  dSinks : FreeList Empty
  bSrcs : FreeList Retrieval
  bCallback : SrcToCallback Callback
  ongoingTlc : Dict Nat Nat
  drive : Bool
  retrieve : Bool
  retrieved : Bool
  probe : Bool
  probeEn : Bool
  probeAddr : Nat
  draws : List Nat

/-- `memory.get(addr, 0)`. -/
def State.word (s : State) (addr : Nat) : Nat := s.memory.getD addr 0

/-- `block_perm.get(block_addr, TIP)`. -/
def State.perm (s : State) (blockAddr : Nat) : Nat := s.blockPerm.getD blockAddr tip

/-- The adapter object before its first `start`. -/
def State.init (draws : List Nat) : State where
  memory := Dict.empty
  blockPerm := Dict.empty
  aOngoings := Dict.empty
  cOngoings := Dict.empty
  burstData := []
  dQueue := []
  dDriving := none
  bQueue := []
  bDriving := none
  dSinks := FreeList.new []
  bSrcs := FreeList.new []
  bCallback := SrcToCallback.new []
  ongoingTlc := Dict.empty
  drive := false
  retrieve := false
  retrieved := false
  probe := false
  probeEn := true
  probeAddr := 0
  draws := draws

/-- `start` and `drive_input`: every block of the image is the adapter's. -/
def State.start (config : Config) (memory : Dict Nat Nat) (s : State) : State :=
  { s with
    memory := memory
    blockPerm := (memory.keys.map config.blockAddr).foldl
      (fun blockPerm addr => blockPerm.set addr tip) Dict.empty
    aOngoings := Dict.empty
    cOngoings := Dict.empty
    burstData := []
    dQueue := []
    dDriving := none
    bQueue := []
    bDriving := none
    dSinks := FreeList.new (List.range 4)
    bSrcs := FreeList.new (List.range 1)
    bCallback := SrcToCallback.new (List.range 1)
    drive := true
    retrieve := false
    retrieved := false }

/-! ## Queues and memory -/

/-- `d_queue.push` and its variants. -/
def State.pushD (entries : List DEntry) (s : State) : State :=
  { s with dQueue := s.dQueue ++ entries }

/-- The dictionary after one or more assignments to it. -/
def State.setMemory (memory : Dict Nat Nat) (s : State) : State := { s with memory }

/-- `memory[addr] = value`. -/
def State.store (addr value : Nat) (s : State) : State := s.setMemory (s.memory.set addr value)

/-- `block_perm[block_addr] = block_perm.get(block_addr, TIP)`. -/
def State.enterBlock (blockAddr : Nat) (s : State) : State :=
  { s with blockPerm := s.blockPerm.setDefault blockAddr tip }

/-- `block_perm[block_addr] = perm`. -/
def State.setPerm (blockAddr perm : Nat) (s : State) : State :=
  { s with blockPerm := s.blockPerm.set blockAddr perm }

@[simp]
theorem State.word_store (addr value : Nat) (s : State) :
    (s.store addr value).word = fun other => if other = addr then value else s.word other := by
  funext other
  exact Dict.getD_set s.memory addr other value 0

@[simp]
theorem State.perm_store (addr value : Nat) (s : State) : (s.store addr value).perm = s.perm := rfl

@[simp]
theorem State.word_pushD (entries : List DEntry) (s : State) : (s.pushD entries).word = s.word := rfl

@[simp]
theorem State.perm_pushD (entries : List DEntry) (s : State) : (s.pushD entries).perm = s.perm := rfl

@[simp]
theorem State.word_enterBlock (blockAddr : Nat) (s : State) :
    (s.enterBlock blockAddr).word = s.word := rfl

@[simp]
theorem State.perm_enterBlock (blockAddr : Nat) (s : State) :
    (s.enterBlock blockAddr).perm = s.perm := by
  funext other
  exact Dict.getD_setDefault s.blockPerm blockAddr other tip

@[simp]
theorem State.word_setPerm (blockAddr perm : Nat) (s : State) :
    (s.setPerm blockAddr perm).word = s.word := rfl

@[simp]
theorem State.perm_setPerm (blockAddr perm : Nat) (s : State) :
    (s.setPerm blockAddr perm).perm =
      fun other => if other = blockAddr then perm else s.perm other := by
  funext other
  exact Dict.getD_set s.blockPerm blockAddr other perm tip

/-- Read words in turn; an absent word is inserted as `nop_data`. -/
def readWords : List Nat → Dict Nat Nat → List Nat × Dict Nat Nat
  | [], memory => ([], memory)
  | addr :: rest, memory =>
      let memory := memory.setDefault addr 0
      let (words, after) := readWords rest memory
      (memory.getD addr 0 :: words, after)

/-- `get_d_messages` and the queueing of its result, where `callback` goes with
the first message. -/
def State.pushWords (config : Config) (message : Nat → DMessage) (callback : Option DCallback)
    (burstLen addrAligned : Nat) (s : State) : State :=
  let (words, memory) := readWords (config.burstAddrs addrAligned burstLen) s.memory
  let callbacks := callback :: List.replicate (burstLen - 1) none
  (s.setMemory memory).pushD
    ((words.zip callbacks).map fun (word, callback) => (some (message word), callback))

/-- `AccessAckData` for every word of a burst. -/
def State.pushAccessAckData (config : Config) (burstLen addrAligned size source : Nat)
    (s : State) : State :=
  s.pushWords config (accessAckData size source) none burstLen addrAligned

/-- `GrantData` for every word of a burst; the first one carries `updatePerm`. -/
def State.pushGrantData (config : Config) (burstLen addrAligned param sink size source
    blockAddr : Nat) (s : State) : State :=
  { s with ongoingTlc := s.ongoingTlc.set sink blockAddr }.pushWords config
    (grantData param size source sink) (some (.updatePerm blockAddr param)) burstLen addrAligned

theorem readWords_fst (addrs : List Nat) (memory : Dict Nat Nat) :
    (readWords addrs memory).1 = addrs.map fun addr => memory.getD addr 0 := by
  induction addrs generalizing memory with
  | nil => rfl
  | cons addr addrs ih => simp [readWords, ih]

@[simp]
theorem getD_readWords (addrs : List Nat) (memory : Dict Nat Nat) (addr : Nat) :
    (readWords addrs memory).2.getD addr 0 = memory.getD addr 0 := by
  induction addrs generalizing memory with
  | nil => rfl
  | cons first addrs ih => simp [readWords, ih]

/-- The words a burst reads, as the entries it queues. -/
def wordEntries (config : Config) (message : Nat → DMessage) (callback : Option DCallback)
    (burstLen addrAligned : Nat) (word : Nat → Nat) : List DEntry :=
  (((config.burstAddrs addrAligned burstLen).map word).zip
    (callback :: List.replicate (burstLen - 1) none)).map
      fun (word, callback) => (some (message word), callback)

/-- Entry `i` of a burst carries word `i`; the first one carries the callback. -/
theorem wordEntries_eq_map (config : Config) (message : Nat → DMessage)
    (callback : Option DCallback) (burstLen addrAligned : Nat) (word : Nat → Nat) :
    wordEntries config message callback burstLen addrAligned word =
      (List.range burstLen).map fun i =>
        (some (message (word (addrAligned + i * config.dataBytes))),
          if i = 0 then callback else none) := by
  apply List.ext_getElem
  · simp [wordEntries, Config.burstAddrs]
    omega
  · intro i _ _
    cases i with
    | zero => simp [wordEntries, Config.burstAddrs]
    | succ i => simp [wordEntries, Config.burstAddrs]

/-- Reading a burst only inserts words that read as before. -/
theorem State.pushWords_eq (config : Config) (message : Nat → DMessage)
    (callback : Option DCallback) (burstLen addrAligned : Nat) (s : State) :
    ∃ memory : Dict Nat Nat, (s.setMemory memory).word = s.word ∧
      s.pushWords config message callback burstLen addrAligned =
        (s.setMemory memory).pushD
          (wordEntries config message callback burstLen addrAligned s.word) := by
  refine ⟨(readWords (config.burstAddrs addrAligned burstLen) s.memory).2, ?_, ?_⟩
  · funext addr
    exact getD_readWords _ _ addr
  · rw [pushWords, wordEntries]
    simp only [readWords_fst]
    rfl

/-! ## Retrieving blocks -/

/-- The next outcome of `random.choice`. -/
def State.nextDraw (s : State) : Nat × State :=
  (s.draws.headD 0, { s with draws := s.draws.tail })

/-- The identifiers after a change of `b_srcs`. -/
def State.setSources (bSrcs : FreeList Retrieval) (s : State) : State := { s with bSrcs }

/-- The callbacks after a change of `b_callback`. -/
def State.setCallbacks (bCallback : SrcToCallback Callback) (s : State) : State :=
  { s with bCallback }

/-- `retrieveBlock_cb`: take a free source and send the probe. -/
def retrieveBlockCb (retrieval : Retrieval) (s : State) : Option State :=
  let (draw, s) := s.nextDraw
  (s.bSrcs.get draw).bind fun (bSrc, bSrcs) =>
    (s.bCallback.set bSrc retrieval.callback).map fun bCallback =>
      { s with
        bSrcs
        bCallback
        bQueue := s.bQueue ++
          [{ opcode := retrieval.opcode, param := retrieval.param, size := retrieval.size,
             source := bSrc, address := retrieval.address, mask := retrieval.mask, data := 0 }] }

/-- `retrieveBlock`: probe now, or when a source is released. -/
def retrieveBlock (retrieval : Retrieval) (s : State) : Option State :=
  if s.bSrcs.empty then some (s.setSources (s.bSrcs.reserve retrieval))
  else retrieveBlockCb retrieval s

/-- `probe_blocks_rec`: probe the next block, or stop driving. -/
def probeBlocksRec (config : Config) (probeAddrs : List Nat) (s : State) : Option State :=
  match probeAddrs with
  | addr :: rest =>
      retrieveBlock
        { opcode := .probeBlock, callback := .probeBlocksRec rest, param := toN,
          size := config.probeSize, address := addr, mask := config.probeMask } s
  | [] => some { s with drive := false }

/-- `probe_blocks`: probe every block that is not the adapter's. -/
def probeBlocks (config : Config) (s : State) : Option State :=
  probeBlocksRec config (s.blockPerm.keys.filter fun addr => s.perm addr ≠ tip) s

/-! ## Callbacks -/

/-- Run a callback of `retrieveBlock`.  `ArithmeticAck_cb` and `LogicalAck_cb`
read the name `param`, which they do not have, and `Grant_cb` builds its message
without a sink, so these three raise. -/
def runCallback (config : Config) (callback : Callback) (s : State) : Option State :=
  match callback with
  | .accessAck burstLen burstData size source =>
      let remainClks := burstLen - s.aOngoings.getD source burstLen
      some (s.pushD (List.replicate remainClks (none, none) ++
        [(some (accessAck size source), some (.updateMem burstData))]))
  | .accessAckData burstLen addrAligned size source =>
      some (s.pushAccessAckData config burstLen addrAligned size source)
  | .arithmeticAck .. => none
  | .logicalAck .. => none
  | .grant .. => none
  | .grantData burstLen addrAligned param sink size source blockAddr =>
      some (s.pushGrantData config burstLen addrAligned param sink size source blockAddr)
  | .probeBlocksRec probeAddrs => probeBlocksRec config probeAddrs s
  | .enableProbe => some { s with probeEn := true }

/-- Run the callback of a channel D message.  `updateMem` iterates over the keys
of `burst_data` as if they were pairs, so it raises unless there are none. -/
def runDCallback (callback : DCallback) (s : State) : Option State :=
  match callback with
  | .updatePerm blockAddr param =>
      some (if param = toT then s.setPerm blockAddr trunk else s)
  | .updateMem burstData =>
      match s.burstData[burstData]? with
      | some burst => if burst.entries = [] then some s else none
      | none => none

/-! ## Atomic operations -/

/-- The bytes selected by a mask, in bits. -/
def sizeOpLoop : Nat → Nat → Nat
  | 0, _ => 0
  | fuel + 1, mask =>
      if 1 ≤ mask then
        if mask % 2 = 0 then sizeOpLoop fuel (mask / 2) else 8 + sizeOpLoop fuel (mask / 2)
      else 0

/-- `size_op`; the mask halves on each turn, so `mask` turns are enough. -/
def sizeOp (mask : Nat) : Nat := sizeOpLoop mask mask

/-- `signed_op1` and `signed_op2`. -/
def signedOp (sizeOp operand : Nat) : Int :=
  if operand.testBit (sizeOp - 1) then -(-(operand : Int) % 2 ^ sizeOp) else operand

/-- `_arithmetic_op`; an unknown parameter returns no number. -/
def arithmeticOp (param operand1 operand2 mask : Nat) : Option Int :=
  let signedOp1 := signedOp (sizeOp mask) operand1
  let signedOp2 := signedOp (sizeOp mask) operand2
  let uoperand1 := operand1 &&& 0xffffffffffffffff
  let uoperand2 := operand2 &&& 0xffffffffffffffff
  if param = amoMin then some (min signedOp1 signedOp2)
  else if param = amoMax then some (max signedOp1 signedOp2)
  else if param = amoMinu then some (min uoperand1 uoperand2 : Nat)
  else if param = amoMaxu then some (max uoperand1 uoperand2 : Nat)
  else if param = amoAdd then some (signedOp1 + signedOp2)
  else none

/-- `_logical_op`. -/
def logicalOp (param operand1 operand2 : Nat) : Option Int :=
  if param = amoXor then some (operand1 ^^^ operand2 : Nat)
  else if param = amoOr then some (operand1 ||| operand2 : Nat)
  else if param = amoAnd then some (operand1 &&& operand2 : Nat)
  else if param = amoSwap then some operand1
  else none

/-- `(result << offset) & data_mask`. -/
def placeResult (config : Config) (result : Int) (offset : Nat) : Nat :=
  (result * 2 ^ offset % 2 ^ config.dataLen).toNat

/-! ## Channel A -/

/-- `burst_data[get_addr] = (bit_mask, data)`, where `burst_data` is the
dictionary created last. -/
def State.recordBurst (addr : Nat) (entry : Nat × Nat) (s : State) : Option State :=
  s.burstData.getLast?.map fun burst =>
    { s with burstData := s.burstData.dropLast ++ [burst.set addr entry] }

/-- The address of the word that a beat of a burst is about. -/
def beatAddr (config : Config) (ongoings : Dict Nat Nat) (source address : Nat) : Nat :=
  config.addrAligned address + ongoings.getD source 0 * config.dataBytes

/-- Count one beat of a burst; the count of a complete burst is dropped. -/
def countBeat (burstLen source : Nat) (ongoings : Dict Nat Nat) : Dict Nat Nat :=
  let count := ongoings.getD source 0
  if count + 1 = burstLen then
    if count ≠ 0 then ongoings.erase source else ongoings
  else ongoings.set source (count + 1)

/-- Is this beat the last one of its burst? -/
def lastBeat (burstLen source : Nat) (ongoings : Dict Nat Nat) : Bool :=
  ongoings.getD source 0 + 1 = burstLen

/-- Count one beat of a put. -/
def State.countA (config : Config) (msg : AMessage) (s : State) : State :=
  { s with aOngoings := countBeat (config.burstLen msg.size) msg.source s.aOngoings }

/-- `PUT_FULL_DATA` and `PUT_PARTIAL_DATA`, which the source spells out twice. -/
def putData (config : Config) (msg : AMessage) (s : State) : Option State :=
  let burstLen := config.burstLen msg.size
  let getAddr := beatAddr config s.aOngoings msg.source msg.address
  let mask := bitMask msg.mask
  if s.perm (config.blockAddr msg.address) ≠ tip then
    let retrieved :=
      if s.aOngoings.getD msg.source 0 = 0 then
        retrieveBlock
          { opcode := .probeBlock
            callback := .accessAck burstLen s.burstData.length msg.size msg.source
            param := toN, size := msg.size, address := msg.address, mask := msg.mask }
          { s with burstData := s.burstData ++ [Dict.empty] }
      else some s
    retrieved.bind fun s => s.recordBurst getAddr (mask, msg.data)
  else
    let stored := s.store getAddr (splice mask (s.word getAddr) msg.data)
    let answer :=
      if lastBeat burstLen msg.source s.aOngoings then
        [(some (accessAck msg.size msg.source), none)]
      else []
    some ((stored.pushD answer).countA config msg)

/-- `GET`. -/
def getData (config : Config) (msg : AMessage) (s : State) : Option State :=
  let burstLen := config.burstLen msg.size
  let addrAligned := config.addrAligned msg.address
  if s.perm (config.blockAddr msg.address) ≠ tip then
    retrieveBlock
      { opcode := .probeBlock
        callback := .accessAckData burstLen addrAligned msg.size msg.source
        param := toT, size := msg.size, address := msg.address, mask := msg.mask } s
  else some (s.pushAccessAckData config burstLen addrAligned msg.size msg.source)

/-- `ARITHMETIC_DATA` and `LOGICAL_DATA`, which differ in the operation and in
the callback of a block the core holds. -/
def atomicData (config : Config) (op : Nat → Nat → Option Int)
    (callback : (operand1 burstLen addrAligned bitMask offset size source : Nat) → Callback)
    (msg : AMessage) (s : State) : Option State :=
  let burstLen := config.burstLen msg.size
  let mask := bitMask msg.mask
  let getAddr := beatAddr config s.aOngoings msg.source msg.address
  if burstLen ≠ 1 ∨ msg.mask = 0 then none
  else
    let offset := 8 * Nat.log2 (lowestBit msg.mask)
    let operand1 := (msg.data &&& mask) >>> offset
    if s.perm (config.blockAddr msg.address) ≠ tip then
      retrieveBlock
        { opcode := .probeBlock
          callback := callback operand1 burstLen (config.addrAligned msg.address) mask offset
            msg.size msg.source
          param := toN, size := msg.size, address := msg.address, mask := msg.mask } s
    else
      let operand2 := (s.word getAddr &&& mask) >>> offset
      (op operand1 operand2).map fun result =>
        (s.store getAddr (splice mask (s.word getAddr) (placeResult config result offset))).pushD
          [(some (accessAckData msg.size msg.source operand2), none)]

/-- `ARITHMETIC_DATA`. -/
def arithmeticData (config : Config) (msg : AMessage) (s : State) : Option State :=
  atomicData config (fun operand1 operand2 => arithmeticOp msg.param operand1 operand2 msg.mask)
    .arithmeticAck msg s

/-- `LOGICAL_DATA`. -/
def logicalData (config : Config) (msg : AMessage) (s : State) : Option State :=
  atomicData config (logicalOp msg.param) .logicalAck msg s

/-- The cap of the grant that answers an acquire. -/
def grantParam (param : Nat) : Nat := if param = nToB then toB else toT

/-- The cap of the probe an acquire sends. -/
def acquireProbeParam (param : Nat) : Nat := if param = nToB then toB else toN

/-- `ACQUIRE_BLOCK`. -/
def acquireBlock (config : Config) (msg : AMessage) (s : State) : Option State :=
  let burstLen := config.burstLen msg.size
  let addrAligned := config.addrAligned msg.address
  let blockAddr := config.blockAddr msg.address
  let (draw, s) := s.nextDraw
  (s.dSinks.get draw).bind fun (dSink, dSinks) =>
    let s := { s with dSinks }
    if s.perm blockAddr ≠ tip then
      retrieveBlock
        { opcode := .probeBlock
          callback := .grantData burstLen addrAligned (grantParam msg.param) dSink msg.size
            msg.source blockAddr
          param := acquireProbeParam msg.param, size := msg.size, address := msg.address
          mask := msg.mask } s
    else
      some (s.pushGrantData config burstLen addrAligned (grantParam msg.param) dSink msg.size
        msg.source blockAddr)

/-- `ACQUIRE_PERM`.  For a block the core holds it calls `retrievePerm`, which
does not exist. -/
def acquirePerm (config : Config) (msg : AMessage) (s : State) : Option State :=
  let blockAddr := config.blockAddr msg.address
  let (draw, s) := s.nextDraw
  (s.dSinks.get draw).bind fun (dSink, dSinks) =>
    if s.perm blockAddr ≠ tip then none
    else
      some ({ s with dSinks, ongoingTlc := s.ongoingTlc.set dSink blockAddr }.pushD
        [(some (grant (grantParam msg.param) msg.size msg.source dSink),
          some (.updatePerm blockAddr (grantParam msg.param)))])

/-- `not ongoings or source in ongoings.keys()`. -/
def notInterleaved (ongoings : Dict Nat Nat) (source : Nat) : Bool :=
  ongoings.entries.isEmpty || (ongoings.get? source).isSome

/-- One accepted beat in `a_port_monitor`. -/
def aPortMonitor (config : Config) (msg : AMessage) (s : State) : Option State :=
  if aAssertions config.debug msg ∧ notInterleaved s.aOngoings msg.source then
    let s := s.enterBlock (config.blockAddr msg.address)
    match msg.opcode with
    | .get => getData config msg s
    | .putFullData => putData config msg s
    | .putPartialData => putData config msg s
    | .arithmeticData => if tlUH ≤ config.protocol then arithmeticData config msg s else some s
    | .logicalData => if tlUH ≤ config.protocol then logicalData config msg s else some s
    | .intent =>
        some (if tlUH ≤ config.protocol then
          s.pushD [(some (hintAck msg.size msg.source), none)] else s)
    | .acquireBlock => if config.protocol = tlC then acquireBlock config msg s else some s
    | .acquirePerm => if config.protocol = tlC then acquirePerm config msg s else some s
  else none

/-! ## Channel C -/

/-- A release or a probe answer that gives up the trunk returns the block. -/
def returnPerm (config : Config) (msg : CMessage) (s : State) : State :=
  if msg.param = tToB ∨ msg.param = tToN then s.setPerm (config.blockAddr msg.address) tip else s

/-- Returning a block changes permissions only. -/
theorem returnPerm_eq (config : Config) (msg : CMessage) (s : State) :
    ∃ blockPerm : Dict Nat Nat, returnPerm config msg s = { s with blockPerm } ∧
      ∀ blockAddr, blockPerm.getD blockAddr tip =
        if (msg.param = tToB ∨ msg.param = tToN) ∧ blockAddr = config.blockAddr msg.address
        then tip else s.perm blockAddr := by
  unfold returnPerm
  by_cases given : msg.param = tToB ∨ msg.param = tToN
  · refine ⟨_, if_pos given, ?_⟩
    intro blockAddr
    rw [Dict.getD_set]
    simp [given, State.perm]
  · refine ⟨s.blockPerm, if_neg given, ?_⟩
    intro blockAddr
    simp [given, State.perm]

/-- Run the callback that was taken, if there was one. -/
def runTaken (config : Config) (callback : Option Callback) (s : State) : Option State :=
  match callback with
  | some callback => runCallback config callback s
  | none => some s

/-- Run the event that waited for a source, if there was one. -/
def runEvent (event : Option Retrieval) (s : State) : Option State :=
  match event with
  | some retrieval => retrieveBlockCb retrieval s
  | none => some s

/-- `b_callback.call(source)` and `b_srcs.release(source)`. -/
def answerProbe (config : Config) (source : Nat) (s : State) : Option State :=
  (s.bCallback.call source).bind fun (callback, bCallback) =>
    (runTaken config callback (s.setCallbacks bCallback)).bind fun s =>
      (s.bSrcs.release source).bind fun (event, bSrcs) =>
        runEvent event (s.setSources bSrcs)

/-- Store one beat that carries data. -/
def storeBeat (config : Config) (msg : CMessage) (s : State) : State :=
  s.store (beatAddr config s.cOngoings msg.source msg.address) msg.data

/-- Count one beat that carries data. -/
def State.countC (config : Config) (msg : CMessage) (s : State) : State :=
  { s with cOngoings := countBeat (config.burstLen msg.size) msg.source s.cOngoings }

/-- One accepted beat in `c_port_monitor`. -/
def cPortMonitor (config : Config) (msg : CMessage) (s : State) : Option State :=
  if cAssertions config.debug msg ∧ notInterleaved s.cOngoings msg.source then
    let last := lastBeat (config.burstLen msg.size) msg.source s.cOngoings
    match msg.opcode with
    | .accessAck => none
    | .accessAckData => none
    | .hintAck => none
    | .reserved => some s
    | .probeAck => answerProbe config msg.source (returnPerm config msg s)
    | .probeAckData =>
        let s := storeBeat config msg s
        if last then
          (answerProbe config msg.source (returnPerm config msg s)).map (·.countC config msg)
        else some (s.countC config msg)
    | .release =>
        some ((returnPerm config msg s).pushD [(some (releaseAck msg.size msg.source), none)])
    | .releaseData =>
        let s := storeBeat config msg s
        if last then
          some (((returnPerm config msg s).pushD
            [(some (releaseAck msg.size msg.source), none)]).countC config msg)
        else some (s.countC config msg)
  else none

/-! ## The other coroutines -/

/-- One accepted acknowledgement in `e_port_monitor`. -/
def ePortMonitor (sink : Nat) (s : State) : Option State :=
  (s.dSinks.release sink).bind fun (_, dSinks) =>
    if (s.ongoingTlc.get? sink).isSome then
      some { s with dSinks, ongoingTlc := s.ongoingTlc.erase sink }
    else none

/-- `d_port_driver` takes the next entry, if there is one, and unless it is a
bubble runs its callback and starts to drive the message. -/
def popD (s : State) : Option State :=
  match s.dQueue with
  | [] => some s
  | (none, _) :: rest => some { s with dQueue := rest }
  | (some msg, callback) :: rest =>
      let s := { s with dQueue := rest, dDriving := some msg }
      match callback with
      | some callback => runDCallback callback s
      | none => some s

/-- `b_port_driver` takes the next probe, if there is one, and starts to drive it. -/
def popB (s : State) : State :=
  match s.bQueue with
  | [] => s
  | msg :: rest => { s with bQueue := rest, bDriving := some msg }

/-- One turn of `host_interface`: probe the block of the polled address. -/
def hostInterface (config : Config) (s : State) : Option State :=
  if s.probe ∧ s.probeEn ∧ s.probeAddr ∉ s.ongoingTlc.values then
    let blockAddr := config.blockAddr s.probeAddr
    match s.blockPerm.get? blockAddr with
    | none => none
    | some perm =>
        if perm ≠ tip then
          (retrieveBlock
            { opcode := .probeBlock, callback := .enableProbe, param := toN,
              size := config.probeSize, address := s.probeAddr, mask := config.probeMask } s).map
            fun s => { s with probe := false, probeEn := false, probeAddr := 0 }
        else some s
  else some s

/-! ## Runs -/

/-- What can happen at a clock edge. -/
inductive Event where
  /-- Channel A fires. -/
  | aFire (msg : AMessage)
  /-- Channel C fires. -/
  | cFire (msg : CMessage)
  /-- Channel E fires. -/
  | eFire (sink : Nat)
  /-- A turn of `d_port_driver` before it drives a message. -/
  | dPop
  /-- Channel D fires. -/
  | dFire
  /-- A turn of `b_port_driver` before it drives a probe. -/
  | bPop
  /-- Channel B fires. -/
  | bFire
  /-- A turn of `host_interface`. -/
  | host
  /-- A turn of `data_retriever`. -/
  | retriever
  /-- The host calls `probe_block`. -/
  | probeBlock (addr : Nat)
  /-- The host calls `stop`. -/
  | stop
deriving DecidableEq, Repr

/-- One event.  A message accepted after `drive` is cleared has no monitor; the
turn of a coroutine that waits or has ended changes nothing. -/
def step (config : Config) (s : State) (event : Event) : Option State :=
  match event with
  | .aFire msg => if s.drive then aPortMonitor config msg s else none
  | .cFire msg => if s.drive then cPortMonitor config msg s else none
  | .eFire sink => if s.drive then ePortMonitor sink s else none
  | .dPop => if s.drive ∧ s.dDriving = none then popD s else some s
  | .dFire => some { s with dDriving := none }
  | .bPop => some (if s.drive ∧ s.bDriving = none then popB s else s)
  | .bFire => some { s with bDriving := none }
  | .host => if s.drive then hostInterface config s else some s
  | .retriever =>
      if s.retrieve ∧ ¬ s.retrieved then probeBlocks config { s with retrieved := true }
      else some s
  | .probeBlock addr => some { s with probe := true, probeAddr := addr }
  | .stop => some { s with retrieve := true }

/-- A sequence of events. -/
def run (config : Config) (s : State) : List Event → Option State
  | [] => some s
  | event :: events => (step config s event).bind fun s => run config s events

theorem run_append (config : Config) (s : State) (first second : List Event) :
    run config s (first ++ second) = (run config s first).bind fun s => run config s second := by
  induction first generalizing s with
  | nil => rfl
  | cons event first ih =>
      rw [List.cons_append, run, run, Option.bind_assoc]
      apply Option.bind_congr
      intro next _
      exact ih next

end Difftest.TileLink

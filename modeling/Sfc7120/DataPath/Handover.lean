import Sfc7120.Lib.Machine
import Sfc7120.DataPath.Kernel

/-! Sessions one after another on one attached device. Kernel and userspace each keep a copy of
the three ring cursors; `sfc7120_init` seeds the second from the first, and `sfc7120_destroy`
writes it back if the session used the direct path. The NIC keeps its own pointers throughout
and acts between any two steps. -/
namespace Sfc7120.Handover

open Machine

/-- What `SFC7120_GET_VI_INFO` returns. -/
structure ViInfo where
  txBufferPaddr : Word
  rxBufferPaddr : Word
  viBase : ℕ
  evqInstance : ℕ
  rxqInstance : ℕ
  txqInstance : ℕ
  numTxDesc : ℕ
  numRxDesc : ℕ
  numEvqEntry : ℕ
  txHead : ℕ
  rxHead : ℕ
  evqReadPtr : ℕ
  deriving DecidableEq

def getViInfo (viBase : ℕ) (sc : Softc) : ViInfo where
  txBufferPaddr := sc.txBufferPaddr
  rxBufferPaddr := sc.rxBufferPaddr
  viBase := viBase
  evqInstance := dataEvqInstance
  rxqInstance := rxqInstance
  txqInstance := txqInstance
  numTxDesc := Sfc7120.numTxDesc
  numRxDesc := Sfc7120.numRxDesc
  numEvqEntry := Sfc7120.numEvqEntry
  txHead := sc.txHead
  rxHead := sc.rxHead
  evqReadPtr := sc.dataEvqReadPtr

structure EvqSyncReq where
  evqReadPtr : ℕ
  txHead : ℕ
  rxHead : ℕ
  deriving DecidableEq

/-- The `SFC7120_SET_EVQ_RPTR` handler. -/
def setEvqRptr (sc : Softc) (req : EvqSyncReq) : Except Errno Softc :=
  if numEvqEntry ≤ req.evqReadPtr ∨ numTxDesc ≤ req.txHead ∨ numRxDesc ≤ req.rxHead then
    .error .EINVAL
  else .ok { sc with
    dataEvqReadPtr := req.evqReadPtr, txHead := req.txHead, rxHead := req.rxHead }

/-- The calls of `sfc7120_init` after the device is open, in order. -/
inductive InitStage where
  | openModmap | mallocToken | attach | mapTxBuffer | mapRxBuffer | mapTxDescRing
  | mapRxDescRing | mapEvqRing | mapMmio | getViInfo | getMac
  deriving DecidableEq, Repr

/-- Which operations a session uses. -/
inductive Mode where
  | ioctl | direct
  deriving DecidableEq, Repr

/-- Where the session is: between calls, or inside one after some of its accesses. -/
inductive Pc where
  | closed
  | init (stage : InitStage)
  | ready (mode : Mode)
  | txWait (t : TxWait)
  | rxWait (r : RxWait)
  | rxCopy (rxBytes : BitVec 16)
  | rxRepost
  | polling (room n : ℕ)
  | acking (n : ℕ)
  | recvCopied
  | recvPosted
  | postCopied (len : ℕ)
  | postDescribed
  deriving DecidableEq

structure Sys where
  w : World
  viBase : ℕ
  sc : Softc
  sfc : SfcIf
  viInfoValid : Bool
  pc : Pc
  /-- Data events consumed, TX descriptors posted and RX slots re-posted since attach, on
  either path. -/
  consumed : ℕ
  posted : ℕ
  reposted : ℕ

inductive Act where
  | openDev (ok : Bool)
  | initCall (ok : Bool) (slices : ℕ) (mode : Mode)
  | destroy
  | tx (req : TxReq) (copyErr : Option Errno)
  | txPoll
  | txReturn
  | rx
  | rxPoll
  | rxAck
  | rxCopyout (copyErr : Option Errno)
  | rxReturn
  | callPoll (maxEvs : ℤ)
  | pollStep
  | pollReturn
  | callRecv
  | recvPost
  | recvReturn
  | callPost (buf : List ByteMemory.Byte) (len : ℕ)
  | postDesc
  | postReturn
  | nic (u : World)

/-- The handle `sfc7120_init` starts from. -/
def clearedIf : SfcIf where
  txBuffer := false
  rxBuffer := false
  txDescRing := false
  rxDescRing := false
  evqRing := false
  mmioSlicesLen := none
  txBufferPaddr := 0
  rxBufferPaddr := 0
  evqReadPtr := 0
  usedPoll := false
  rxHead := 0
  txHead := 0

/-- What `sfc7120_destroy` leaves of the kernel's cursors: userspace's own, where this session
got as far as seeding them and then used the direct path. A rejected request changes nothing. -/
def destroySync (sc : Softc) (sfc : SfcIf) (viInfoValid : Bool) : Softc :=
  if viInfoValid && sfc.usedPoll then
    match setEvqRptr sc ⟨sfc.evqReadPtr, sfc.txHead, sfc.rxHead⟩ with
    | .ok sc' => sc'
    | .error _ => sc
  else sc

def destroy (s : Sys) : Sys :=
  { s with sc := destroySync s.sc s.sfc s.viInfoValid, pc := .closed }

/-- A call of `sfc7120_init` that succeeds. -/
def initOk (s : Sys) (slices : ℕ) (mode : Mode) : InitStage → Sys
  | .openModmap => { s with pc := .init .mallocToken }
  | .mallocToken => { s with pc := .init .attach }
  | .attach => { s with pc := .init .mapTxBuffer }
  | .mapTxBuffer => { s with sfc := { s.sfc with txBuffer := true }, pc := .init .mapRxBuffer }
  | .mapRxBuffer => { s with sfc := { s.sfc with rxBuffer := true }, pc := .init .mapTxDescRing }
  | .mapTxDescRing =>
      { s with sfc := { s.sfc with txDescRing := true }, pc := .init .mapRxDescRing }
  | .mapRxDescRing =>
      { s with sfc := { s.sfc with rxDescRing := true }, pc := .init .mapEvqRing }
  | .mapEvqRing => { s with sfc := { s.sfc with evqRing := true }, pc := .init .mapMmio }
  | .mapMmio =>
      -- a slice count other than the expected one is only warned about
      { s with sfc := { s.sfc with mmioSlicesLen := some slices }, pc := .init .getViInfo }
  | .getViInfo =>
      let info := getViInfo s.viBase s.sc
      { s with
        sfc := { s.sfc with
          txBufferPaddr := info.txBufferPaddr
          rxBufferPaddr := info.rxBufferPaddr
          evqReadPtr := info.evqReadPtr
          rxHead := info.rxHead
          txHead := info.txHead }
        viInfoValid := true
        pc := .init .getMac }
  | .getMac => { s with pc := .ready mode }

def step (s : Sys) : Act → Option Sys
  | .openDev ok =>
      match s.pc with
      | .closed =>
          some { s with
            sfc := clearedIf
            viInfoValid := false
            pc := if ok then .init .openModmap else .closed }
      | _ => none
  | .initCall ok slices mode =>
      match s.pc with
      | .init stage => some (if ok then initOk s slices mode stage else destroy s)
      | _ => none
  | .destroy =>
      match s.pc with
      | .ready _ => some (destroy s)
      | _ => none
  | .tx req copyErr =>
      match s.pc, txValidate req, copyErr with
      | .ready .ioctl, none, none =>
          some { s with
            w := txPost s.sc s.w req
            pc := .txWait ⟨s.sc.txHead, 0, false, 0⟩
            posted := s.posted + 1 }
      -- refused, or the copyin failed: what it wrote of its slot is left out, as in `ioctlTx`
      | .ready .ioctl, _, _ => some s
      | _, _, _ => none
  | .txPoll =>
      match s.pc with
      | .txWait t =>
          if t.again then
            let r := txPollIter s.sc s.w t
            some { s with
              w := r.2.1, sc := r.1, pc := .txWait r.2.2,
              consumed := s.consumed + (r.2.2.consumed - t.consumed) }
          else none
      | _ => none
  | .txReturn =>
      match s.pc with
      | .txWait t =>
          if t.again then none
          else some { s with
            w := ackEvq s.sc s.w t.consumed, sc := (txFinish s.sc t).1, pc := .ready .ioctl }
      | _ => none
  | .rx =>
      match s.pc with
      | .ready .ioctl => some { s with pc := .rxWait ⟨0, none, 0⟩ }
      | _ => none
  | .rxPoll =>
      match s.pc with
      | .rxWait r =>
          if r.again then
            let q := rxPollIter s.sc s.w r
            some { s with
              w := q.2.1, sc := q.1, pc := .rxWait q.2.2,
              consumed := s.consumed + (q.2.2.consumed - r.consumed) }
          else none
      | _ => none
  | .rxAck =>
      match s.pc with
      | .rxWait r =>
          if r.again then none
          else some { s with
            w := ackEvq s.sc s.w r.consumed
            pc := match r.found with
              | none => .ready .ioctl
              | some b => .rxCopy b }
      | _ => none
  | .rxCopyout copyErr =>
      match s.pc with
      | .rxCopy _ => some { s with pc := if copyErr.isSome then .ready .ioctl else .rxRepost }
      | _ => none
  | .rxReturn =>
      match s.pc with
      | .rxRepost =>
          let q := rxRepost s.sc s.w
          some { s with w := q.2, sc := q.1, pc := .ready .ioctl, reposted := s.reposted + 1 }
      | _ => none
  | .callPoll maxEvs =>
      match s.pc with
      | .ready .direct =>
          if pollReady s.sfc maxEvs then
            some { s with sfc := { s.sfc with usedPoll := true }, pc := .polling maxEvs.toNat 0 }
          else some s
      | _ => none
  | .pollStep =>
      match s.pc with
      | .polling 0 n => some { s with pc := .acking n }
      | .polling (room + 1) n =>
          match pollIter s.sfc s.w with
          | none => some { s with pc := .acking n }
          | some (_, sfc, w) =>
              some { s with
                w := w, sfc := sfc, pc := .polling room (n + 1), consumed := s.consumed + 1 }
      | _ => none
  | .pollReturn =>
      match s.pc with
      | .acking n => some { s with w := pollAck s.sfc s.w n, pc := .ready .direct }
      | _ => none
  | .callRecv =>
      match s.pc with
      | .ready .direct =>
          if rxRecvReady s.sfc then
            some { s with sfc := { s.sfc with usedPoll := true }, pc := .recvCopied }
          else some s
      | _ => none
  | .recvPost =>
      match s.pc with
      | .recvCopied => some { s with w := rxRecvPost s.sfc s.w, pc := .recvPosted }
      | _ => none
  | .recvReturn =>
      match s.pc with
      | .recvPosted =>
          let r := rxRecvRing s.sfc s.w
          some { s with w := r.2, sfc := r.1, pc := .ready .direct, reposted := s.reposted + 1 }
      | _ => none
  | .callPost buf len =>
      match s.pc with
      | .ready .direct =>
          if txPostReady s.sfc len then
            let sfc := { s.sfc with usedPoll := true }
            some { s with
              w := txPostCopy sfc s.w (buf.take len), sfc := sfc, pc := .postCopied len }
          else some s
      | _ => none
  | .postDesc =>
      match s.pc with
      | .postCopied len => some { s with w := txPostDesc s.sfc s.w len, pc := .postDescribed }
      | _ => none
  | .postReturn =>
      match s.pc with
      | .postDescribed =>
          let r := txPostRing s.sfc s.w
          some { s with w := r.2, sfc := r.1, pc := .ready .direct, posted := s.posted + 1 }
      | _ => none
  | .nic u =>
      -- whatever the NIC does, the doorbell registers keep the values written to them
      some { s with w := { u with regs := s.w.regs } }

/-- The device right after attach, with no session yet. -/
def start (viBase : ℕ) (txBase rxBase : Word) (mem : ℕ → ByteMemory.Byte) : Sys where
  w := postRxBuffers rxBase (World.fresh mem)
  viBase := viBase
  sc := ⟨txBase, rxBase, 0, 0, 0⟩
  sfc := clearedIf
  viInfoValid := false
  pc := .closed
  consumed := 0
  posted := 0
  reposted := 0

/-- What a step does, and from where. -/
inductive Moves (s : Sys) : Act → Sys → Prop
  | openDev {ok : Bool} (hpc : s.pc = .closed) :
      Moves s (.openDev ok) { s with
        sfc := clearedIf
        viInfoValid := false
        pc := if ok then .init .openModmap else .closed }
  | initOk {slices : ℕ} {mode : Mode} {stage : InitStage} (hpc : s.pc = .init stage) :
      Moves s (.initCall true slices mode) (initOk s slices mode stage)
  | initFails {slices : ℕ} {mode : Mode} {stage : InitStage} (hpc : s.pc = .init stage) :
      Moves s (.initCall false slices mode) (destroy s)
  | destroy {mode : Mode} (hpc : s.pc = .ready mode) : Moves s .destroy (destroy s)
  | tx {req : TxReq} (hpc : s.pc = .ready .ioctl) (hvalid : txValidate req = none) :
      Moves s (.tx req none) { s with
        w := txPost s.sc s.w req
        pc := .txWait ⟨s.sc.txHead, 0, false, 0⟩
        posted := s.posted + 1 }
  | txRefused {req : TxReq} {copyErr : Option Errno} (hpc : s.pc = .ready .ioctl) :
      Moves s (.tx req copyErr) s
  | txPoll {t : TxWait} (hpc : s.pc = .txWait t) :
      Moves s .txPoll { s with
        w := (txPollIter s.sc s.w t).2.1
        sc := (txPollIter s.sc s.w t).1
        pc := .txWait (txPollIter s.sc s.w t).2.2
        consumed := s.consumed + ((txPollIter s.sc s.w t).2.2.consumed - t.consumed) }
  | txReturn {t : TxWait} (hpc : s.pc = .txWait t) :
      Moves s .txReturn { s with
        w := ackEvq s.sc s.w t.consumed, sc := (txFinish s.sc t).1, pc := .ready .ioctl }
  | rx (hpc : s.pc = .ready .ioctl) : Moves s .rx { s with pc := .rxWait ⟨0, none, 0⟩ }
  | rxPoll {r : RxWait} (hpc : s.pc = .rxWait r) :
      Moves s .rxPoll { s with
        w := (rxPollIter s.sc s.w r).2.1
        sc := (rxPollIter s.sc s.w r).1
        pc := .rxWait (rxPollIter s.sc s.w r).2.2
        consumed := s.consumed + ((rxPollIter s.sc s.w r).2.2.consumed - r.consumed) }
  | rxAck {r : RxWait} (hpc : s.pc = .rxWait r) :
      Moves s .rxAck { s with
        w := ackEvq s.sc s.w r.consumed
        pc := match r.found with
          | none => .ready .ioctl
          | some b => .rxCopy b }
  | rxCopyout {b : BitVec 16} {copyErr : Option Errno} (hpc : s.pc = .rxCopy b) :
      Moves s (.rxCopyout copyErr)
        { s with pc := if copyErr.isSome then .ready .ioctl else .rxRepost }
  | rxReturn (hpc : s.pc = .rxRepost) :
      Moves s .rxReturn { s with
        w := (rxRepost s.sc s.w).2
        sc := (rxRepost s.sc s.w).1
        pc := .ready .ioctl
        reposted := s.reposted + 1 }
  | poll {maxEvs : ℤ} (hpc : s.pc = .ready .direct) (hready : pollReady s.sfc maxEvs = true) :
      Moves s (.callPoll maxEvs) { s with
        sfc := { s.sfc with usedPoll := true }, pc := .polling maxEvs.toNat 0 }
  | pollRefused {maxEvs : ℤ} (hpc : s.pc = .ready .direct) : Moves s (.callPoll maxEvs) s
  | pollStop {room n : ℕ} (hpc : s.pc = .polling room n) :
      Moves s .pollStep { s with pc := .acking n }
  | pollTake {room n : ℕ} {ev : Ev} {sfc : SfcIf} {w : World} (hpc : s.pc = .polling (room + 1) n)
      (hiter : pollIter s.sfc s.w = some (ev, sfc, w)) :
      Moves s .pollStep { s with
        w := w, sfc := sfc, pc := .polling room (n + 1), consumed := s.consumed + 1 }
  | pollReturn {n : ℕ} (hpc : s.pc = .acking n) :
      Moves s .pollReturn { s with w := pollAck s.sfc s.w n, pc := .ready .direct }
  | recv (hpc : s.pc = .ready .direct) (hready : rxRecvReady s.sfc = true) :
      Moves s .callRecv { s with sfc := { s.sfc with usedPoll := true }, pc := .recvCopied }
  | recvRefused (hpc : s.pc = .ready .direct) : Moves s .callRecv s
  | recvPost (hpc : s.pc = .recvCopied) :
      Moves s .recvPost { s with w := rxRecvPost s.sfc s.w, pc := .recvPosted }
  | recvReturn (hpc : s.pc = .recvPosted) :
      Moves s .recvReturn { s with
        w := (rxRecvRing s.sfc s.w).2
        sfc := (rxRecvRing s.sfc s.w).1
        pc := .ready .direct
        reposted := s.reposted + 1 }
  | post {buf : List ByteMemory.Byte} {len : ℕ} (hpc : s.pc = .ready .direct)
      (hready : txPostReady s.sfc len = true) :
      Moves s (.callPost buf len) { s with
        w := txPostCopy { s.sfc with usedPoll := true } s.w (buf.take len)
        sfc := { s.sfc with usedPoll := true }
        pc := .postCopied len }
  | postRefused {buf : List ByteMemory.Byte} {len : ℕ} (hpc : s.pc = .ready .direct) :
      Moves s (.callPost buf len) s
  | postDesc {len : ℕ} (hpc : s.pc = .postCopied len) :
      Moves s .postDesc { s with w := txPostDesc s.sfc s.w len, pc := .postDescribed }
  | postReturn (hpc : s.pc = .postDescribed) :
      Moves s .postReturn { s with
        w := (txPostRing s.sfc s.w).2
        sfc := (txPostRing s.sfc s.w).1
        pc := .ready .direct
        posted := s.posted + 1 }
  | nic {u : World} : Moves s (.nic u) { s with w := { u with regs := s.w.regs } }

/-- Every step is one of these. -/
theorem step_moves {s t : Sys} {a : Act} (h : step s a = some t) : Moves s a t := by
  cases a <;> simp only [step] at h
  case openDev ok =>
    split at h
    next hpc => exact Option.some.inj h ▸ .openDev hpc
    next => cases h
  case initCall ok slices mode =>
    split at h
    next stage hpc =>
      obtain rfl := Option.some.inj h
      cases ok with
      | true => exact .initOk hpc
      | false => exact .initFails hpc
    next => cases h
  case destroy =>
    split at h
    next hpc => exact Option.some.inj h ▸ .destroy hpc
    next => cases h
  case tx req copyErr =>
    split at h
    next hpc hvalid => exact Option.some.inj h ▸ .tx hpc hvalid
    next hpc _ => exact Option.some.inj h ▸ .txRefused hpc
    next => cases h
  case txPoll =>
    split at h
    next hpc =>
      split_ifs at h
      exact Option.some.inj h ▸ .txPoll hpc
    next => cases h
  case txReturn =>
    split at h
    next hpc =>
      split_ifs at h
      exact Option.some.inj h ▸ .txReturn hpc
    next => cases h
  case rx =>
    split at h
    next hpc => exact Option.some.inj h ▸ .rx hpc
    next => cases h
  case rxPoll =>
    split at h
    next hpc =>
      split_ifs at h
      exact Option.some.inj h ▸ .rxPoll hpc
    next => cases h
  case rxAck =>
    split at h
    next hpc =>
      split_ifs at h
      exact Option.some.inj h ▸ .rxAck hpc
    next => cases h
  case rxCopyout copyErr =>
    split at h
    next hpc => exact Option.some.inj h ▸ .rxCopyout hpc
    next => cases h
  case rxReturn =>
    split at h
    next hpc => exact Option.some.inj h ▸ .rxReturn hpc
    next => cases h
  case callPoll maxEvs =>
    split at h
    next hpc =>
      split_ifs at h with hready
      · exact Option.some.inj h ▸ .poll hpc hready
      · exact Option.some.inj h ▸ .pollRefused hpc
    next => cases h
  case pollStep =>
    split at h
    next hpc => exact Option.some.inj h ▸ .pollStop hpc
    next hpc =>
      split at h
      next => exact Option.some.inj h ▸ .pollStop hpc
      next hiter => exact Option.some.inj h ▸ .pollTake hpc hiter
    next => cases h
  case pollReturn =>
    split at h
    next hpc => exact Option.some.inj h ▸ .pollReturn hpc
    next => cases h
  case callRecv =>
    split at h
    next hpc =>
      split_ifs at h with hready
      · exact Option.some.inj h ▸ .recv hpc hready
      · exact Option.some.inj h ▸ .recvRefused hpc
    next => cases h
  case recvPost =>
    split at h
    next hpc => exact Option.some.inj h ▸ .recvPost hpc
    next => cases h
  case recvReturn =>
    split at h
    next hpc => exact Option.some.inj h ▸ .recvReturn hpc
    next => cases h
  case callPost buf len =>
    split at h
    next hpc =>
      split_ifs at h with hready
      · exact Option.some.inj h ▸ .post hpc hready
      · exact Option.some.inj h ▸ .postRefused hpc
    next => cases h
  case postDesc =>
    split at h
    next hpc => exact Option.some.inj h ▸ .postDesc hpc
    next => cases h
  case postReturn =>
    split at h
    next hpc => exact Option.some.inj h ▸ .postReturn hpc
    next => cases h
  case nic u => exact Option.some.inj h ▸ .nic

/-- One copy of the three cursors. -/
structure Cursors where
  evq : ℕ
  tx : ℕ
  rx : ℕ
  deriving DecidableEq

/-- The kernel's copy. Inside `SFC7120_TX` the descriptor at `tx_head` is already posted. -/
def kernelCursors (sc : Softc) : Pc → Cursors
  | .txWait _ => ⟨sc.dataEvqReadPtr, (sc.txHead + 1) % numTxDesc, sc.rxHead⟩
  | _ => ⟨sc.dataEvqReadPtr, sc.txHead, sc.rxHead⟩

def userCursors (sfc : SfcIf) : Cursors := ⟨sfc.evqReadPtr, sfc.txHead, sfc.rxHead⟩

/-- The session works on userspace's copy. -/
def Pc.direct : Pc → Bool
  | .ready .direct => true
  | .polling _ _ => true
  | .acking _ => true
  | .recvCopied => true
  | .recvPosted => true
  | .postCopied _ => true
  | .postDescribed => true
  | _ => false

/-- Userspace's copy has been seeded and is the one in use, or about to be. -/
def Pc.seeded : Pc → Bool
  | .init .getMac => true
  | pc => pc.direct

theorem seeded_of_direct {pc : Pc} (h : pc.direct = true) : pc.seeded = true := by
  unfold Pc.seeded
  split
  · rfl
  · exact h

/-- The copy the session in progress moves. -/
def Sys.owner (s : Sys) : Cursors :=
  if s.pc.direct then userCursors s.sfc else kernelCursors s.sc s.pc

/-- Events consumed by the call in progress and not yet acknowledged. -/
def Pc.unacked : Pc → ℕ
  | .txWait t => t.consumed
  | .rxWait r => r.consumed
  | .polling _ n => n
  | .acking n => n
  | _ => 0

/-- The register holds this value, if anything was ever written to it. -/
def LastWritten (regs : ℕ → Option (BitVec 32)) (off v : ℕ) : Prop :=
  ∀ u, regs off = some u → u = BitVec.ofNat 32 v

/-- A copy of the cursors and the doorbells agree with the totals since attach, except that
`unacked` events are still to be acknowledged. -/
structure Synced (c : Cursors) (regs : ℕ → Option (BitVec 32))
    (consumed posted reposted unacked : ℕ) : Prop where
  evq : c.evq = consumed % numEvqEntry
  tx : c.tx = posted % numTxDesc
  rx : c.rx = reposted % numRxDesc
  le : unacked ≤ consumed
  rptr : LastWritten regs regDataEvqRptrDbl ((consumed - unacked) % numEvqEntry)
  wptr : LastWritten regs regDataTxWptrDbl (posted % numTxDesc)
  rxDbl : LastWritten regs regDataRxDescDbl ((reposted + 511) % numRxDesc)

theorem LastWritten.update (regs : ℕ → Option (BitVec 32)) (off v : ℕ) :
    LastWritten (Function.update regs off (some (BitVec.ofNat 32 v))) off v := by
  intro u hu
  rw [Function.update_self] at hu
  exact (Option.some.inj hu).symm

theorem LastWritten.update_of_ne {regs : ℕ → Option (BitVec 32)} {off off' v : ℕ}
    (h : LastWritten regs off v) (hne : off ≠ off') (x : Option (BitVec 32)) :
    LastWritten (Function.update regs off' x) off v := by
  intro u hu
  rw [Function.update_of_ne hne] at hu
  exact h u hu

section
variable {c : Cursors} {regs : ℕ → Option (BitVec 32)} {consumed posted reposted unacked : ℕ}

/-- One event consumed: the read pointer moves, the acknowledgement is still owed. -/
theorem Synced.consume (h : Synced c regs consumed posted reposted unacked) :
    Synced { c with evq := (c.evq + 1) &&& (numEvqEntry - 1) } regs (consumed + 1) posted reposted
      (unacked + 1) where
  evq := by
    simp only [and_ringMask, h.evq, Nat.mod_add_mod]
  tx := h.tx
  rx := h.rx
  le := Nat.succ_le_succ h.le
  rptr := by
    rw [Nat.add_sub_add_right]
    exact h.rptr
  wptr := h.wptr
  rxDbl := h.rxDbl

/-- The acknowledgement writes the read pointer; with nothing consumed it already stands there. -/
theorem Synced.ack (h : Synced c regs consumed posted reposted unacked) :
    Synced c (if 0 < unacked then
      Function.update regs regDataEvqRptrDbl (some (BitVec.ofNat 32 (c.evq &&& evqRptrMask)))
      else regs) consumed posted reposted 0 := by
  split_ifs with hpos
  · refine ⟨h.evq, h.tx, h.rx, Nat.zero_le _, ?_, h.wptr.update_of_ne (by decide) _,
      h.rxDbl.update_of_ne (by decide) _⟩
    have hmask : c.evq &&& evqRptrMask = (consumed - 0) % numEvqEntry := by
      rw [h.evq, and_rptrMask (Nat.mod_lt _ (by decide)), Nat.sub_zero]
    rw [hmask]
    exact LastWritten.update _ _ _
  · obtain rfl : unacked = 0 := by omega
    exact h

/-- One descriptor posted: the write pointer doorbell gets the next head. -/
theorem Synced.post (h : Synced c regs consumed posted reposted unacked) :
    Synced { c with tx := (c.tx + 1) % numTxDesc }
      (Function.update regs regDataTxWptrDbl
        (some (BitVec.ofNat 32 ((c.tx + 1) &&& (numTxDesc - 1)))))
      consumed (posted + 1) reposted unacked where
  evq := h.evq
  tx := by
    simp only [h.tx, Nat.mod_add_mod]
  rx := h.rx
  le := h.le
  rptr := h.rptr.update_of_ne (by decide) _
  wptr := by
    have hhead : (c.tx + 1) &&& (numTxDesc - 1) = (posted + 1) % numTxDesc := by
      rw [show numTxDesc - 1 = numEvqEntry - 1 from rfl, and_ringMask, h.tx]
      exact Nat.mod_add_mod _ _ _
    rw [hhead]
    exact LastWritten.update _ _ _
  rxDbl := h.rxDbl.update_of_ne (by decide) _

/-- One slot re-posted: the RX doorbell gets the head it was at. -/
theorem Synced.repost (h : Synced c regs consumed posted reposted unacked) :
    Synced { c with rx := (c.rx + 1) &&& (numRxDesc - 1) }
      (Function.update regs regDataRxDescDbl (some (BitVec.ofNat 32 c.rx)))
      consumed posted (reposted + 1) unacked where
  evq := h.evq
  tx := h.tx
  rx := by
    simp only [h.rx]
    rw [show numRxDesc - 1 = numEvqEntry - 1 from rfl, and_ringMask]
    exact Nat.mod_add_mod _ _ _
  le := h.le
  rptr := h.rptr.update_of_ne (by decide) _
  wptr := h.wptr.update_of_ne (by decide) _
  rxDbl := by
    have hback : c.rx = (reposted + 1 + 511) % numRxDesc := by
      rw [h.rx]
      simp only [numRxDesc]
      omega
    rw [hback]
    exact LastWritten.update _ _ _

end

/-- The copy in use agrees with the totals; a session that has not used the direct path has
left both copies equal. -/
structure Inv (s : Sys) : Prop where
  synced : Synced s.owner s.w.regs s.consumed s.posted s.reposted s.pc.unacked
  valid : s.pc.seeded = true → s.viInfoValid = true
  unused : s.pc.direct = false → s.pc ≠ .closed → s.sfc.usedPoll = false
  inCall : s.pc.direct = true → s.pc ≠ .ready .direct → s.sfc.usedPoll = true
  seeded : s.pc.seeded = true → s.sfc.usedPoll = false →
    userCursors s.sfc = kernelCursors s.sc s.pc

theorem inv_start (viBase : ℕ) (txBase rxBase : Word) (mem : ℕ → ByteMemory.Byte) :
    Inv (start viBase txBase rxBase mem) where
  synced := by
    have hnone : ∀ off ≠ regDataRxDescDbl, ∀ v,
        LastWritten (start viBase txBase rxBase mem).w.regs off v := by
      intro off hne v u hu
      have hreg : (start viBase txBase rxBase mem).w.regs off = none :=
        World.writeReg_regs_of_ne _ hne _
      rw [hreg] at hu
      cases hu
    refine ⟨rfl, rfl, rfl, le_rfl, hnone _ (by decide) _, hnone _ (by decide) _, ?_⟩
    intro u hu
    have hreg : (start viBase txBase rxBase mem).w.regs regDataRxDescDbl =
        some (BitVec.ofNat 32 (numRxDesc - 1)) := by
      simp [start, postRxBuffers, World.writeReg]
    rw [hreg] at hu
    rw [← Option.some.inj hu]
    simp [start, numRxDesc]
  valid h := by simp [start, Pc.seeded, Pc.direct] at h
  unused _ h := absurd rfl h
  inCall h := by simp [start, Pc.direct] at h
  seeded h := by simp [start, Pc.seeded, Pc.direct] at h

section
variable {s t : Sys}

/-- A step of an ioctl: the kernel's copy is in use before and after, the handle is untouched. -/
theorem Inv.ofKernel (h : Inv s) (hdirect : s.pc.direct = false) (hopen : s.pc ≠ .closed)
    (hsfc : t.sfc = s.sfc) (hpc : t.pc.direct = false) (hseeded : t.pc.seeded = false)
    (hsync : Synced (kernelCursors t.sc t.pc) t.w.regs t.consumed t.posted t.reposted
      t.pc.unacked) : Inv t where
  synced := by
    simp only [Sys.owner, hpc]
    exact hsync
  valid hs := by simp [hseeded] at hs
  unused _ _ := hsfc ▸ h.unused hdirect hopen
  inCall hd := by simp [hpc] at hd
  seeded hs := by simp [hseeded] at hs

/-- A step of a direct call, which has marked the session as using the direct path. -/
theorem Inv.ofDirect (h : Inv s) (hdirect : s.pc.direct = true) (hpc : t.pc.direct = true)
    (hvalid : t.viInfoValid = s.viInfoValid) (hused : t.sfc.usedPoll = true)
    (hsync : Synced (userCursors t.sfc) t.w.regs t.consumed t.posted t.reposted t.pc.unacked) :
    Inv t where
  synced := by
    simp only [Sys.owner, hpc]
    exact hsync
  valid _ := hvalid.trans (h.valid (seeded_of_direct hdirect))
  unused hd := by simp [hpc] at hd
  inCall _ _ := hused
  seeded _ hu := by simp [hused] at hu

theorem Inv.kernelSynced (h : Inv s) (hdirect : s.pc.direct = false) :
    Synced (kernelCursors s.sc s.pc) s.w.regs s.consumed s.posted s.reposted s.pc.unacked := by
  have hs := h.synced
  simpa only [Sys.owner, hdirect, Bool.false_eq_true, if_false] using hs

theorem Inv.userSynced (h : Inv s) (hdirect : s.pc.direct = true) :
    Synced (userCursors s.sfc) s.w.regs s.consumed s.posted s.reposted s.pc.unacked := by
  have hs := h.synced
  simpa only [Sys.owner, hdirect, if_true] using hs

/-- A handle whose cursors are in range is written back as it is. -/
theorem setEvqRptr_ok (sc : Softc) {req : EvqSyncReq} (hevq : req.evqReadPtr < numEvqEntry)
    (htx : req.txHead < numTxDesc) (hrx : req.rxHead < numRxDesc) :
    setEvqRptr sc req = .ok { sc with
      dataEvqReadPtr := req.evqReadPtr, txHead := req.txHead, rxHead := req.rxHead } := by
  rw [setEvqRptr, if_neg (by omega)]

/-- Between calls, `sfc7120_destroy` leaves the kernel with the copy that was in use. -/
theorem Inv.destroySync_eq (h : Inv s) (hopen : s.pc ≠ .closed)
    (hidle : kernelCursors s.sc s.pc = kernelCursors s.sc .closed) :
    kernelCursors (destroySync s.sc s.sfc s.viInfoValid) .closed = s.owner := by
  cases hdirect : s.pc.direct with
  | false =>
    simp only [destroySync, h.unused hdirect hopen, Bool.and_false, Bool.false_eq_true, if_false,
      Sys.owner, hdirect]
    exact hidle.symm
  | true =>
    have hsync := h.userSynced hdirect
    have hevq : s.sfc.evqReadPtr < numEvqEntry := hsync.evq.trans_lt (Nat.mod_lt _ (by decide))
    have htx : s.sfc.txHead < numTxDesc := hsync.tx.trans_lt (Nat.mod_lt _ (by decide))
    have hrx : s.sfc.rxHead < numRxDesc := hsync.rx.trans_lt (Nat.mod_lt _ (by decide))
    simp only [destroySync, h.valid (seeded_of_direct hdirect), Bool.true_and, Sys.owner, hdirect,
      if_true]
    split_ifs with hused
    · rw [setEvqRptr_ok s.sc hevq htx hrx]
      rfl
    · rw [h.seeded (seeded_of_direct hdirect) (by simpa using hused), hidle]

theorem Inv.destroy (h : Inv s) (hopen : s.pc ≠ .closed) (hunacked : s.pc.unacked = 0)
    (hidle : kernelCursors s.sc s.pc = kernelCursors s.sc .closed) : Inv (destroy s) where
  synced := by
    have hs := h.synced
    rw [hunacked] at hs
    have howner : (Handover.destroy s).owner = s.owner := h.destroySync_eq hopen hidle
    rw [howner]
    exact hs
  valid hs := by simp [Handover.destroy, Pc.seeded, Pc.direct] at hs
  unused _ hc := absurd rfl hc
  inCall hd := by simp [Handover.destroy, Pc.direct] at hd
  seeded hs := by simp [Handover.destroy, Pc.seeded, Pc.direct] at hs

/-- A call of `sfc7120_init` before userspace's copy is seeded. -/
theorem Inv.initCall (h : Inv s) {stage stage' : InitStage} (hpc : s.pc = .init stage)
    (ht : t.pc = .init stage') (hseeded : t.pc.seeded = false) (hsc : t.sc = s.sc)
    (hregs : t.w.regs = s.w.regs) (hused : t.sfc.usedPoll = s.sfc.usedPoll)
    (hcounts : t.consumed = s.consumed ∧ t.posted = s.posted ∧ t.reposted = s.reposted) :
    Inv t where
  synced := by
    have hs := h.synced
    obtain ⟨hc, hp, hr⟩ := hcounts
    simp only [Sys.owner, hpc, ht, Pc.direct, Bool.false_eq_true, if_false, kernelCursors,
      Pc.unacked, hsc, hregs, hc, hp, hr] at hs ⊢
    exact hs
  valid hs := by simp [hseeded] at hs
  unused _ _ := hused.trans (h.unused (by simp [hpc, Pc.direct]) (by simp [hpc]))
  inCall hd := by simp [ht, Pc.direct] at hd
  seeded hs := by simp [hseeded] at hs

theorem Inv.initOk (h : Inv s) {stage : InitStage} (hpc : s.pc = .init stage) (slices : ℕ)
    (mode : Mode) : Inv (initOk s slices mode stage) := by
  have hdirect : s.pc.direct = false := by simp [hpc, Pc.direct]
  have hopen : s.pc ≠ .closed := by simp [hpc]
  cases stage with
  | getViInfo =>
    have hs := h.kernelSynced hdirect
    rw [hpc] at hs
    exact ⟨hs, fun _ => rfl, fun _ _ => h.unused hdirect hopen,
      fun hd => Bool.noConfusion hd, fun _ _ => rfl⟩
  | getMac =>
    have hs := h.kernelSynced hdirect
    have hseed := h.seeded (by simp [hpc, Pc.seeded]) (h.unused hdirect hopen)
    rw [hpc] at hs hseed
    cases mode with
    | ioctl => exact h.ofKernel hdirect hopen rfl rfl rfl hs
    | direct =>
      have hvalid : s.viInfoValid = true := h.valid (by simp [hpc, Pc.seeded])
      refine ⟨?_, fun _ => hvalid, fun hd => Bool.noConfusion hd, fun _ hne => absurd rfl hne,
        fun _ _ => hseed⟩
      rw [← hseed] at hs
      exact hs
  | openModmap => exact h.initCall hpc rfl rfl rfl rfl rfl ⟨rfl, rfl, rfl⟩
  | mallocToken => exact h.initCall hpc rfl rfl rfl rfl rfl ⟨rfl, rfl, rfl⟩
  | attach => exact h.initCall hpc rfl rfl rfl rfl rfl ⟨rfl, rfl, rfl⟩
  | mapTxBuffer => exact h.initCall hpc rfl rfl rfl rfl rfl ⟨rfl, rfl, rfl⟩
  | mapRxBuffer => exact h.initCall hpc rfl rfl rfl rfl rfl ⟨rfl, rfl, rfl⟩
  | mapTxDescRing => exact h.initCall hpc rfl rfl rfl rfl rfl ⟨rfl, rfl, rfl⟩
  | mapRxDescRing => exact h.initCall hpc rfl rfl rfl rfl rfl ⟨rfl, rfl, rfl⟩
  | mapEvqRing => exact h.initCall hpc rfl rfl rfl rfl rfl ⟨rfl, rfl, rfl⟩
  | mapMmio => exact h.initCall hpc rfl rfl rfl rfl rfl ⟨rfl, rfl, rfl⟩

/-! The ioctl operations. -/

theorem Inv.tx (h : Inv s) (hpc : s.pc = .ready .ioctl) (req : TxReq) :
    Inv { s with
      w := txPost s.sc s.w req
      pc := .txWait ⟨s.sc.txHead, 0, false, 0⟩
      posted := s.posted + 1 } := by
  have hs := h.kernelSynced (by simp [hpc, Pc.direct])
  rw [hpc] at hs
  exact h.ofKernel (by simp [hpc, Pc.direct]) (by simp [hpc]) rfl rfl rfl hs.post

/-- The queue read of either handler: nothing, or one event consumed. -/
theorem txPollIter_cases (sc : Softc) (w : World) (t : TxWait) :
    (txPollIter sc w t).1 = sc ∧ (txPollIter sc w t).2.1 = w ∧
        (txPollIter sc w t).2.2.consumed = t.consumed ∨
      (txPollIter sc w t).1 = (consumeEv sc w).1 ∧
        (txPollIter sc w t).2.1 = (consumeEv sc w).2 ∧
        (txPollIter sc w t).2.2.consumed = t.consumed + 1 := by
  unfold txPollIter
  dsimp only
  split_ifs
  · exact .inl ⟨rfl, rfl, rfl⟩
  · exact .inr ⟨rfl, rfl, rfl⟩

theorem rxPollIter_cases (sc : Softc) (w : World) (r : RxWait) :
    (rxPollIter sc w r).1 = sc ∧ (rxPollIter sc w r).2.1 = w ∧
        (rxPollIter sc w r).2.2.consumed = r.consumed ∨
      (rxPollIter sc w r).1 = (consumeEv sc w).1 ∧
        (rxPollIter sc w r).2.1 = (consumeEv sc w).2 ∧
        (rxPollIter sc w r).2.2.consumed = r.consumed + 1 := by
  unfold rxPollIter
  dsimp only
  split
  · exact .inl ⟨rfl, rfl, rfl⟩
  · exact .inr ⟨rfl, rfl, rfl⟩

theorem Inv.txPoll (h : Inv s) {t : TxWait} (hpc : s.pc = .txWait t) :
    Inv { s with
      w := (txPollIter s.sc s.w t).2.1
      sc := (txPollIter s.sc s.w t).1
      pc := .txWait (txPollIter s.sc s.w t).2.2
      consumed := s.consumed + ((txPollIter s.sc s.w t).2.2.consumed - t.consumed) } := by
  have hs := h.kernelSynced (by simp [hpc, Pc.direct])
  rw [hpc] at hs
  refine h.ofKernel (by simp [hpc, Pc.direct]) (by simp [hpc]) rfl rfl rfl ?_
  simp only [Pc.unacked]
  obtain ⟨hsc, hw, hn⟩ | ⟨hsc, hw, hn⟩ := txPollIter_cases s.sc s.w t
  · rw [hsc, hw, hn, Nat.sub_self]
    exact hs
  · rw [hsc, hw, hn, Nat.add_sub_cancel_left]
    exact hs.consume

theorem Inv.rxPoll (h : Inv s) {r : RxWait} (hpc : s.pc = .rxWait r) :
    Inv { s with
      w := (rxPollIter s.sc s.w r).2.1
      sc := (rxPollIter s.sc s.w r).1
      pc := .rxWait (rxPollIter s.sc s.w r).2.2
      consumed := s.consumed + ((rxPollIter s.sc s.w r).2.2.consumed - r.consumed) } := by
  have hs := h.kernelSynced (by simp [hpc, Pc.direct])
  rw [hpc] at hs
  refine h.ofKernel (by simp [hpc, Pc.direct]) (by simp [hpc]) rfl rfl rfl ?_
  simp only [Pc.unacked]
  obtain ⟨hsc, hw, hn⟩ | ⟨hsc, hw, hn⟩ := rxPollIter_cases s.sc s.w r
  · rw [hsc, hw, hn, Nat.sub_self]
    exact hs
  · rw [hsc, hw, hn, Nat.add_sub_cancel_left]
    exact hs.consume

theorem ackEvq_regs (sc : Softc) (w : World) (n : ℕ) :
    (ackEvq sc w n).regs = if 0 < n then Function.update w.regs regDataEvqRptrDbl
      (some (BitVec.ofNat 32 (sc.dataEvqReadPtr &&& evqRptrMask))) else w.regs := by
  unfold ackEvq
  split_ifs <;> rfl

theorem ackEvq_queue (sc : Softc) (w : World) (n : ℕ) :
    (ackEvq sc w n).dataEvq = w.dataEvq ∧ (ackEvq sc w n).evLog = w.evLog ∧
      (ackEvq sc w n).txFetched = w.txFetched := by
  unfold ackEvq
  split_ifs <;> exact ⟨rfl, rfl, rfl⟩

theorem Inv.txReturn (h : Inv s) {t : TxWait} (hpc : s.pc = .txWait t) :
    Inv { s with
      w := ackEvq s.sc s.w t.consumed, sc := (txFinish s.sc t).1, pc := .ready .ioctl } := by
  have hs := (h.kernelSynced (by simp [hpc, Pc.direct])).ack
  rw [hpc] at hs
  refine h.ofKernel (by simp [hpc, Pc.direct]) (by simp [hpc]) rfl rfl rfl ?_
  have hhead : (s.sc.txHead + 1) &&& (numTxDesc - 1) = (s.sc.txHead + 1) % numTxDesc :=
    and_ringMask _
  simp only [ackEvq_regs, txFinish, hhead]
  exact hs

theorem Inv.rxAck (h : Inv s) {r : RxWait} (hpc : s.pc = .rxWait r) :
    Inv { s with
      w := ackEvq s.sc s.w r.consumed
      pc := match r.found with
        | none => .ready .ioctl
        | some b => .rxCopy b } := by
  have hs := (h.kernelSynced (by simp [hpc, Pc.direct])).ack
  rw [hpc] at hs
  have hregs := ackEvq_regs s.sc s.w r.consumed
  cases r.found <;>
  · refine h.ofKernel (by simp [hpc, Pc.direct]) (by simp [hpc]) rfl rfl rfl ?_
    simp only [hregs]
    exact hs

theorem Inv.rxReturn (h : Inv s) (hpc : s.pc = .rxRepost) :
    Inv { s with
      w := (Sfc7120.rxRepost s.sc s.w).2
      sc := (Sfc7120.rxRepost s.sc s.w).1
      pc := .ready .ioctl
      reposted := s.reposted + 1 } := by
  have hs := h.kernelSynced (by simp [hpc, Pc.direct])
  rw [hpc] at hs
  exact h.ofKernel (by simp [hpc, Pc.direct]) (by simp [hpc]) rfl rfl rfl hs.repost

/-! The direct operations. -/

theorem Inv.pollTake (h : Inv s) {room n : ℕ} (hpc : s.pc = .polling (room + 1) n) {ev : Ev}
    {sfc : SfcIf} {w : World} (hiter : pollIter s.sfc s.w = some (ev, sfc, w)) :
    Inv { s with
      w := w, sfc := sfc, pc := .polling room (n + 1), consumed := s.consumed + 1 } := by
  have hs := h.userSynced (by simp [hpc, Pc.direct])
  have hused := h.inCall (by simp [hpc, Pc.direct]) (by simp [hpc])
  rw [hpc] at hs
  simp only [pollIter] at hiter
  split_ifs at hiter
  obtain ⟨rfl, rfl, rfl⟩ : _ ∧ _ ∧ _ := by simpa using hiter
  exact h.ofDirect (by simp [hpc, Pc.direct]) rfl rfl hused hs.consume

theorem Inv.pollReturn (h : Inv s) {n : ℕ} (hpc : s.pc = .acking n) :
    Inv { s with w := pollAck s.sfc s.w n, pc := .ready .direct } := by
  have hs := (h.userSynced (by simp [hpc, Pc.direct])).ack
  have hused := h.inCall (by simp [hpc, Pc.direct]) (by simp [hpc])
  rw [hpc] at hs
  refine h.ofDirect (by simp [hpc, Pc.direct]) rfl rfl hused ?_
  have hregs : (pollAck s.sfc s.w n).regs = if 0 < n then
      Function.update s.w.regs regDataEvqRptrDbl
        (some (BitVec.ofNat 32 (s.sfc.evqReadPtr &&& evqRptrMask))) else s.w.regs := by
    unfold pollAck
    split_ifs <;> rfl
  simp only [hregs]
  exact hs

theorem Inv.recvReturn (h : Inv s) (hpc : s.pc = .recvPosted) :
    Inv { s with
      w := (rxRecvRing s.sfc s.w).2
      sfc := (rxRecvRing s.sfc s.w).1
      pc := .ready .direct
      reposted := s.reposted + 1 } := by
  have hs := h.userSynced (by simp [hpc, Pc.direct])
  have hused := h.inCall (by simp [hpc, Pc.direct]) (by simp [hpc])
  rw [hpc] at hs
  exact h.ofDirect (by simp [hpc, Pc.direct]) rfl rfl hused hs.repost

theorem Inv.postReturn (h : Inv s) (hpc : s.pc = .postDescribed) :
    Inv { s with
      w := (txPostRing s.sfc s.w).2
      sfc := (txPostRing s.sfc s.w).1
      pc := .ready .direct
      posted := s.posted + 1 } := by
  have hs := h.userSynced (by simp [hpc, Pc.direct])
  have hused := h.inCall (by simp [hpc, Pc.direct]) (by simp [hpc])
  rw [hpc] at hs
  refine h.ofDirect (by simp [hpc, Pc.direct]) rfl rfl hused ?_
  have hhead : (s.sfc.txHead + 1) &&& (numTxDesc - 1) = (s.sfc.txHead + 1) % numTxDesc :=
    and_ringMask _
  have hpost := hs.post
  simp only [userCursors, txPostRing, hhead] at hpost ⊢
  exact hpost

/-- The NIC's own steps: whatever it does, the doorbells keep their values. -/
theorem Inv.nic (h : Inv s) {u : World} (hregs : u.regs = s.w.regs) : Inv { s with w := u } where
  synced := by
    have hs := h.synced
    rw [← hregs] at hs
    exact hs
  valid := h.valid
  unused := h.unused
  inCall := h.inCall
  seeded := h.seeded

/-- A descriptor the doorbell shows and the NIC has not completed has been posted. -/
theorem Inv.fetched_lt (h : Inv s) (hle : s.w.txFetched ≤ s.posted)
    (hpending : s.w.txPending = true) : s.w.txFetched < s.posted := by
  unfold World.txPending at hpending
  split at hpending
  next => cases hpending
  next v hreg =>
    -- the doorbell last took the head, which is the number of posts modulo the ring
    have hv := h.synced.wptr v hreg
    have hne := of_decide_eq_true hpending
    simp only [hv, BitVec.toNat_ofNat, numTxDesc] at hne
    omega

theorem Inv.txPending (h : Inv s) (hrung : (s.w.regs regDataTxWptrDbl).isSome)
    (hlt : s.w.txFetched < s.posted) (hout : s.posted ≤ s.w.txFetched + (numTxDesc - 1)) :
    s.w.txPending = true := by
  obtain ⟨v, hreg⟩ := Option.isSome_iff_exists.mp hrung
  have hv := h.synced.wptr v hreg
  simp only [World.txPending, hreg, hv, BitVec.toNat_ofNat, decide_eq_true_eq, numTxDesc] at hout ⊢
  omega

/-- A step of a direct call that moves no cursor and writes no register. -/
theorem Inv.directStep (h : Inv s) (hdirect : s.pc.direct = true) (hpc : t.pc.direct = true)
    (hvalid : t.viInfoValid = s.viInfoValid) (hused : t.sfc.usedPoll = true)
    (hcursors : userCursors t.sfc = userCursors s.sfc) (hregs : t.w.regs = s.w.regs)
    (hunacked : t.pc.unacked = s.pc.unacked)
    (hcounts : t.consumed = s.consumed ∧ t.posted = s.posted ∧ t.reposted = s.reposted) :
    Inv t := by
  obtain ⟨hc, hp, hr⟩ := hcounts
  refine h.ofDirect hdirect hpc hvalid hused ?_
  rw [hcursors, hregs, hunacked, hc, hp, hr]
  exact h.userSynced hdirect

end

theorem inv_step (s : Sys) (a : Act) (t : Sys) (h : Inv s) (hstep : step s a = some t) :
    Inv t := by
  cases step_moves hstep with
  | @openDev ok hpc =>
    have hs := h.kernelSynced (by simp [hpc, Pc.direct])
    rw [hpc] at hs
    cases ok with
    | false =>
      exact ⟨hs, fun hd => Bool.noConfusion hd, fun _ hc => absurd rfl hc,
        fun hd => Bool.noConfusion hd, fun hd => Bool.noConfusion hd⟩
    | true =>
      exact ⟨hs, fun hd => Bool.noConfusion hd, fun _ _ => rfl,
        fun hd => Bool.noConfusion hd, fun hd => Bool.noConfusion hd⟩
  | initOk hpc => exact h.initOk hpc _ _
  | initFails hpc => exact h.destroy (by simp [hpc]) (by simp [hpc, Pc.unacked]) (by rw [hpc]; rfl)
  | destroy hpc => exact h.destroy (by simp [hpc]) (by simp [hpc, Pc.unacked]) (by rw [hpc]; rfl)
  | @tx req hpc => exact h.tx hpc req
  | txRefused => exact h
  | txPoll hpc => exact h.txPoll hpc
  | txReturn hpc => exact h.txReturn hpc
  | rx hpc =>
    have hs := h.kernelSynced (by simp [hpc, Pc.direct])
    rw [hpc] at hs
    exact h.ofKernel (by simp [hpc, Pc.direct]) (by simp [hpc]) rfl rfl rfl hs
  | rxPoll hpc => exact h.rxPoll hpc
  | rxAck hpc => exact h.rxAck hpc
  | @rxCopyout b copyErr hpc =>
    have hs := h.kernelSynced (by simp [hpc, Pc.direct])
    rw [hpc] at hs
    cases copyErr <;>
      exact h.ofKernel (by simp [hpc, Pc.direct]) (by simp [hpc]) rfl rfl rfl hs
  | rxReturn hpc => exact h.rxReturn hpc
  | poll hpc =>
    exact h.directStep (by simp [hpc, Pc.direct]) rfl rfl rfl rfl rfl (by simp [hpc, Pc.unacked])
      ⟨rfl, rfl, rfl⟩
  | pollRefused => exact h
  | pollStop hpc =>
    exact h.directStep (by simp [hpc, Pc.direct]) rfl rfl
      (h.inCall (by simp [hpc, Pc.direct]) (by simp [hpc])) rfl rfl (by simp [hpc, Pc.unacked])
      ⟨rfl, rfl, rfl⟩
  | pollTake hpc hiter => exact h.pollTake hpc hiter
  | pollReturn hpc => exact h.pollReturn hpc
  | recv hpc =>
    exact h.directStep (by simp [hpc, Pc.direct]) rfl rfl rfl rfl rfl (by simp [hpc, Pc.unacked])
      ⟨rfl, rfl, rfl⟩
  | recvRefused => exact h
  | recvPost hpc =>
    exact h.directStep (by simp [hpc, Pc.direct]) rfl rfl
      (h.inCall (by simp [hpc, Pc.direct]) (by simp [hpc])) rfl rfl (by simp [hpc, Pc.unacked])
      ⟨rfl, rfl, rfl⟩
  | recvReturn hpc => exact h.recvReturn hpc
  | post hpc =>
    exact h.directStep (by simp [hpc, Pc.direct]) rfl rfl rfl rfl rfl (by simp [hpc, Pc.unacked])
      ⟨rfl, rfl, rfl⟩
  | postRefused => exact h
  | postDesc hpc =>
    exact h.directStep (by simp [hpc, Pc.direct]) rfl rfl
      (h.inCall (by simp [hpc, Pc.direct]) (by simp [hpc])) rfl rfl (by simp [hpc, Pc.unacked])
      ⟨rfl, rfl, rfl⟩
  | postReturn hpc => exact h.postReturn hpc
  | nic => exact h.nic rfl

/-- A session posts descriptors and completes none. -/
theorem step_posted {s t : Sys} {a : Act} (hnic : ∀ u, a ≠ .nic u) (hstep : step s a = some t) :
    s.posted ≤ t.posted ∧ t.w.txFetched = s.w.txFetched := by
  cases step_moves hstep with
  | nic => exact absurd rfl (hnic _)
  | tx => exact ⟨Nat.le_succ _, rfl⟩
  | postReturn => exact ⟨Nat.le_succ _, rfl⟩
  | @initOk slices mode stage hpc => cases stage <;> exact ⟨le_rfl, rfl⟩
  | @txPoll t hpc =>
    obtain ⟨-, hw, -⟩ | ⟨-, hw, -⟩ := txPollIter_cases s.sc s.w t
    · exact ⟨le_rfl, congrArg World.txFetched hw⟩
    · have htake : (consumeEv s.sc s.w).2.txFetched = s.w.txFetched := rfl
      exact ⟨le_rfl, (congrArg World.txFetched hw).trans htake⟩
  | @rxPoll r hpc =>
    obtain ⟨-, hw, -⟩ | ⟨-, hw, -⟩ := rxPollIter_cases s.sc s.w r
    · exact ⟨le_rfl, congrArg World.txFetched hw⟩
    · have htake : (consumeEv s.sc s.w).2.txFetched = s.w.txFetched := rfl
      exact ⟨le_rfl, (congrArg World.txFetched hw).trans htake⟩
  | txReturn => exact ⟨le_rfl, (ackEvq_queue _ _ _).2.2⟩
  | rxAck => exact ⟨le_rfl, (ackEvq_queue _ _ _).2.2⟩
  | pollReturn => exact ⟨le_rfl, (pollAck_nic _ _ _).2.2.1⟩
  | pollTake hpc hiter =>
    simp only [pollIter] at hiter
    split_ifs at hiter
    obtain ⟨-, -, rfl⟩ : _ ∧ _ ∧ _ := by simpa using hiter
    exact ⟨le_rfl, rfl⟩
  | openDev | initFails | destroy | txRefused | rx | rxCopyout | rxReturn | poll | pollRefused
  | pollStop | recv | recvRefused | recvPost | recvReturn | post | postRefused | postDesc =>
    exact ⟨le_rfl, rfl⟩

/-- A session opened for one of the two paths, every call succeeding. -/
def openCalls (mode : Mode) : List Act :=
  .openDev true :: List.replicate 11 (.initCall true 5 mode)

def postCalls (buf : List ByteMemory.Byte) (len : ℕ) : List Act :=
  [.callPost buf len, .postDesc, .postReturn]

def recvCalls : List Act := [.callRecv, .recvPost, .recvReturn]

section
variable {s : Sys}

theorem openCalls_run (mode : Mode) (hpc : s.pc = .closed) :
    run step s (openCalls mode) = some { s with
      sfc := { SfcIf.fresh s.sc.txBufferPaddr s.sc.rxBufferPaddr with
        evqReadPtr := s.sc.dataEvqReadPtr
        rxHead := s.sc.rxHead
        txHead := s.sc.txHead }
      viInfoValid := true
      pc := .ready mode } := by
  obtain ⟨w, viBase, sc, sfc, viInfoValid, pc, consumed, posted, reposted⟩ := s
  obtain rfl : pc = .closed := hpc
  rfl

theorem postCalls_run (buf : List ByteMemory.Byte) (len : ℕ) {r : SfcIf × World}
    (hpc : s.pc = .ready .direct) (hcall : s.sfc.txPost s.w buf len = some r) :
    run step s (postCalls buf len) =
      some { s with w := r.2, sfc := r.1, posted := s.posted + 1 } := by
  obtain ⟨w, viBase, sc, sfc, viInfoValid, pc, consumed, posted, reposted⟩ := s
  obtain rfl : pc = .ready .direct := hpc
  unfold SfcIf.txPost at hcall
  split_ifs at hcall with hready
  obtain rfl := Option.some.inj hcall
  simp [postCalls, run, step, hready, txPostRing, txPostDesc, txPostCopy, World.writeReg]

theorem recvCalls_run (hpc : s.pc = .ready .direct) (hready : rxRecvReady s.sfc = true) :
    run step s recvCalls = some { s with
      w := (rxRecvRing s.sfc (rxRecvPost s.sfc s.w)).2
      sfc := { (rxRecvRing s.sfc s.w).1 with usedPoll := true }
      reposted := s.reposted + 1 } := by
  obtain ⟨w, viBase, sc, sfc, viInfoValid, pc, consumed, posted, reposted⟩ := s
  obtain rfl : pc = .ready .direct := hpc
  simp [recvCalls, run, step, hready, rxRecvRing, rxRecvPost, World.writeReg]

end

/-- No operation of a session has run yet: `sfc7120_init` is still to come or in progress. -/
def Pc.beforeUse : Pc → Bool
  | .closed => true
  | .init _ => true
  | _ => false

/-- Whenever a session starts, after any number of sessions of either kind with any outcomes:
what `SFC7120_GET_VI_INFO` reports are the totals since attach, and the doorbells last took
exactly these values. -/
theorem cursors_survive_handover {viBase : ℕ} {txBase rxBase : Word}
    {mem : ℕ → ByteMemory.Byte} {as : List Act} {s : Sys}
    (hrun : run step (start viBase txBase rxBase mem) as = some s)
    (hpc : s.pc.beforeUse = true) :
    let info := getViInfo s.viBase s.sc
    info.evqReadPtr = s.consumed % numEvqEntry ∧ info.txHead = s.posted % numTxDesc ∧
      info.rxHead = s.reposted % numRxDesc ∧
      LastWritten s.w.regs regDataEvqRptrDbl info.evqReadPtr ∧
      LastWritten s.w.regs regDataTxWptrDbl info.txHead ∧
      LastWritten s.w.regs regDataRxDescDbl ((info.rxHead + (numRxDesc - 1)) % numRxDesc) := by
  have h := run_invariant inv_step (inv_start viBase txBase rxBase mem) hrun
  obtain ⟨hdirect, hkernel, hunacked⟩ : s.pc.direct = false ∧
      kernelCursors s.sc s.pc = ⟨s.sc.dataEvqReadPtr, s.sc.txHead, s.sc.rxHead⟩ ∧
      s.pc.unacked = 0 := by
    cases hcase : s.pc <;> simp [hcase, Pc.beforeUse] at hpc <;>
      exact ⟨rfl, rfl, rfl⟩
  have hs := h.kernelSynced hdirect
  rw [hkernel, hunacked] at hs
  have hevq : s.sc.dataEvqReadPtr = s.consumed % numEvqEntry := hs.evq
  have htx : s.sc.txHead = s.posted % numTxDesc := hs.tx
  have hrx : s.sc.rxHead = s.reposted % numRxDesc := hs.rx
  refine ⟨hevq, htx, hrx, ?_, ?_, ?_⟩
  · have hrptr := hs.rptr
    rw [Nat.sub_zero, ← hevq] at hrptr
    exact hrptr
  · have hwptr := hs.wptr
    rw [← htx] at hwptr
    exact hwptr
  · have hback : (s.sc.rxHead + (numRxDesc - 1)) % numRxDesc = (s.reposted + 511) % numRxDesc := by
      rw [hrx]
      exact Nat.mod_add_mod _ _ _
    simp only [getViInfo, hback]
    exact hs.rxDbl

/-- A direct session that posts, receives and polls once each, and the opening of the next. -/
def sampleRun : List Act :=
  openCalls .direct ++ postCalls [1] 1 ++
    [.nic { World.fresh fun _ => 0 with dataEvq := fun _ => 0x12#64 },
      .callPoll 1, .pollStep, .pollStep, .pollReturn] ++ recvCalls ++ [.destroy, .openDev true]

theorem cursors_survive_handover_sample :
    ∃ s, run step (start 8 0x100000#64 0x200000#64 fun _ => 0) sampleRun = some s ∧
      (getViInfo s.viBase s.sc).evqReadPtr = s.consumed % numEvqEntry ∧ s.consumed = 1 := by
  have hsome : (run step (start 8 0x100000#64 0x200000#64 fun _ => 0) sampleRun).map
      (fun s => (s.pc.beforeUse, s.consumed)) = some (true, 1) := by decide +kernel
  obtain ⟨s, hs, heq⟩ := Option.map_eq_some_iff.mp hsome
  exact ⟨s, hs, (cursors_survive_handover hs (congrArg Prod.fst heq)).1, congrArg Prod.snd heq⟩

end Sfc7120.Handover

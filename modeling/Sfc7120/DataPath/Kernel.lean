import Sfc7120.DataPath.User

/-! The kernel data path of `sfc7120.c`: the `SFC7120_TX` and `SFC7120_RX` handlers, cut where
the NIC can act. Both hold the softc lock from their first ring access to their return, so at
most one is ever in progress. -/
namespace Sfc7120

open ByteMemory

/-- The data-path part of `sfc7120_softc_t`. -/
structure Softc where
  txBufferPaddr : Word
  rxBufferPaddr : Word
  dataEvqReadPtr : ℕ
  txHead : ℕ
  rxHead : ℕ

/-- A transmit request: the user capability's tag, load permission and length, the requested
length, and the bytes behind the capability. -/
structure TxReq where
  tag : Bool
  permLoad : Bool
  capLen : ℕ
  length : ℕ
  bytes : List Byte
  deriving DecidableEq

def txValidate (req : TxReq) : Option Errno :=
  if !req.tag then some .EINVAL
  else if !req.permLoad then some .EPERM
  else if req.length = 0 ∨ txBufferSize < req.length then some .EINVAL
  else if req.capLen < req.length then some .EINVAL
  else none

theorem txValidate_length {req : TxReq} (h : txValidate req = none) :
    req.length ≠ 0 ∧ req.length ≤ txBufferSize := by
  unfold txValidate at h
  split_ifs at h with htag hperm hlen hcap
  rw [not_or, not_lt] at hlen
  exact hlen

/-- Steps 2 to 4 of the TX handler: copy the packet in, write its descriptor, ring WPTR. -/
def txPost (sc : Softc) (w : World) (req : TxReq) : World :=
  let desc := kernDesc (BitVec.ofNat 64 req.length) (slotPa sc.txBufferPaddr txBufferSize sc.txHead)
  { w with
    mem := writeBytes w.mem (sc.txBufferPaddr.toNat + sc.txHead * txBufferSize)
      (req.bytes.take req.length)
    txRing := Function.update w.txRing sc.txHead desc }.writeReg regDataTxWptrDbl
      (BitVec.ofNat 32 ((sc.txHead + 1) &&& (numTxDesc - 1)))

/-- Consume the event at the read pointer, whatever it is. -/
def consumeEv (sc : Softc) (w : World) : Softc × World :=
  ({ sc with dataEvqReadPtr := (sc.dataEvqReadPtr + 1) &&& (numEvqEntry - 1) },
    { w with dataEvq := Function.update w.dataEvq sc.dataEvqReadPtr 0 })

/-- Acknowledge consumed events on the data EVQ's RPTR doorbell. -/
def ackEvq (sc : Softc) (w : World) (consumed : ℕ) : World :=
  if 0 < consumed then
    w.writeReg regDataEvqRptrDbl (BitVec.ofNat 32 (sc.dataEvqReadPtr &&& evqRptrMask))
  else w

def txTries : ℕ := 10000
def rxTries : ℕ := 100000

/-- Locals of the TX completion poll. -/
structure TxWait where
  postedIdx : ℕ
  tries : ℕ
  done : Bool
  consumed : ℕ
  deriving DecidableEq

def TxWait.again (t : TxWait) : Bool := decide (t.tries < txTries) && !t.done

theorem TxWait.again_eq_true {t : TxWait} (htries : t.tries < txTries) (hdone : t.done = false) :
    t.again = true := by
  simp [TxWait.again, htries, hdone]

theorem TxWait.again_eq_false {t : TxWait} (htries : txTries ≤ t.tries) : t.again = false := by
  simp [TxWait.again, Nat.not_lt.mpr htries]

/-- The event is the completion of descriptor `idx`, the free-running index masked to the ring. -/
def isTxCompletion (ev : Word) (idx : ℕ) : Bool :=
  evCode ev == 2#32 && (evTxDescIdx ev).toNat &&& (numTxDesc - 1) == idx

/-- One iteration of the TX completion poll. -/
def txPollIter (sc : Softc) (w : World) (t : TxWait) : Softc × World × TxWait :=
  let ev := w.dataEvq sc.dataEvqReadPtr
  if evEmpty ev then (sc, w, { t with tries := t.tries + 1 })
  else
    let r := consumeEv sc w
    (r.1, r.2, { t with
      tries := t.tries + 1
      done := t.done || isTxCompletion ev t.postedIdx
      consumed := t.consumed + 1 })

theorem txPollIter_tries (sc : Softc) (w : World) (t : TxWait) :
    (txPollIter sc w t).2.2.tries = t.tries + 1 := by
  unfold txPollIter
  dsimp only
  split_ifs <;> rfl

/-- Step 6 of the TX handler, after the acknowledgement. -/
def txFinish (sc : Softc) (t : TxWait) : Softc × Option Errno :=
  ({ sc with txHead := (sc.txHead + 1) &&& (numTxDesc - 1) },
    if t.done then none else some .ETIMEDOUT)

/-- The TX completion poll with `n` iterations to go. -/
def txPollLoop : ℕ → Softc → World → TxWait → Softc × World × TxWait
  | 0, sc, w, t => (sc, w, t)
  | n + 1, sc, w, t =>
      if t.again then
        let r := txPollIter sc w t
        txPollLoop n r.1 r.2.1 r.2.2
      else (sc, w, t)

/-- The `SFC7120_TX` handler on its own, `copyErr` being what the copyin returns. A copyin that
fails may have written part of the packet into its slot: that slot belongs to the host and the
descriptor ring does not name it yet, so the part is left out here. `DataPath/Hostile`, where
memory itself is the subject, keeps it. -/
def ioctlTx (sc : Softc) (w : World) (req : TxReq) (copyErr : Option Errno) :
    Softc × World × Option Errno :=
  match txValidate req, copyErr with
  | some e, _ => (sc, w, some e)
  | none, some e => (sc, w, some e)
  | none, none =>
      let r := txPollLoop txTries sc (txPost sc w req) ⟨sc.txHead, 0, false, 0⟩
      let f := txFinish r.1 r.2.2
      (f.1, ackEvq r.1 r.2.1 r.2.2.consumed, f.2)

/-- Locals of the RX poll; `found` is the byte count of the RX event. -/
structure RxWait where
  tries : ℕ
  found : Option (BitVec 16)
  consumed : ℕ
  deriving DecidableEq

def RxWait.again (r : RxWait) : Bool := decide (r.tries < rxTries) && r.found.isNone

theorem RxWait.again_eq_true {r : RxWait} (htries : r.tries < rxTries) (hfound : r.found = none) :
    r.again = true := by
  simp [RxWait.again, htries, hfound]

theorem RxWait.again_eq_false {r : RxWait} (htries : rxTries ≤ r.tries) : r.again = false := by
  simp [RxWait.again, Nat.not_lt.mpr htries]

/-- One iteration of the RX poll. -/
def rxPollIter (sc : Softc) (w : World) (r : RxWait) : Softc × World × RxWait :=
  let ev := w.dataEvq sc.dataEvqReadPtr
  if evEmpty ev then (sc, w, { r with tries := r.tries + 1 })
  else
    let q := consumeEv sc w
    (q.1, q.2, {
      tries := r.tries + 1
      found := if evCode ev = 0#32 then some (evRxBytes ev) else r.found
      consumed := r.consumed + 1 })

theorem rxPollIter_tries (sc : Softc) (w : World) (r : RxWait) :
    (rxPollIter sc w r).2.2.tries = r.tries + 1 := by
  unfold rxPollIter
  dsimp only
  split_ifs <;> rfl

/-- Step 4 of the RX handler: the frame copied out of the slot at `rx_head`. -/
def rxCopyFrame (sc : Softc) (w : World) (rxBytes : BitVec 16) : Frame :=
  let slot := sc.rxBufferPaddr.toNat + sc.rxHead * rxBufferSize
  readBytes w.mem (slot + ef10RxPrefixLen) (slotPlen w.mem slot rxBytes)

/-- Steps 5 and 6 of the RX handler: re-post the slot, ring the RX doorbell, move on. -/
def rxRepost (sc : Softc) (w : World) : Softc × World :=
  ({ sc with rxHead := (sc.rxHead + 1) &&& (numRxDesc - 1) },
    { w with
      rxRing := Function.update w.rxRing sc.rxHead
        (rxDesc sc.rxBufferPaddr sc.rxHead) }.writeReg regRxDescDbl (BitVec.ofNat 32 sc.rxHead))

/-- The RX poll with `n` iterations to go. -/
def rxPollLoop : ℕ → Softc → World → RxWait → Softc × World × RxWait
  | 0, sc, w, r => (sc, w, r)
  | n + 1, sc, w, r =>
      if r.again then
        let q := rxPollIter sc w r
        rxPollLoop n q.1 q.2.1 q.2.2
      else (sc, w, r)

/-- The `SFC7120_RX` handler on its own, `copyErr` being what the copyout returns. -/
def ioctlRx (sc : Softc) (w : World) (copyErr : Option Errno) :
    Softc × World × Except Errno Frame :=
  let q := rxPollLoop rxTries sc w ⟨0, none, 0⟩
  let w := ackEvq q.1 q.2.1 q.2.2.consumed
  match q.2.2.found, copyErr with
  | none, _ => (q.1, w, .error .ETIMEDOUT)
  | some _, some e => (q.1, w, .error e)
  | some b, none =>
      let p := rxRepost q.1 w
      (p.1, p.2, .ok (rxCopyFrame q.1 w b))

end Sfc7120

import Sfc7120.DataPath.Nic

/-! The userspace direct path of `sfc7120_user.c`. Each call is cut at its accesses to memory
the NIC also touches, so that the same pieces serve the sequential functions and the runs in
which the NIC acts between them. -/
namespace Sfc7120

open ByteMemory

inductive EvType where
  | rx | tx | other
  deriving DecidableEq, Repr

structure Ev where
  type : EvType
  txDescIdx : BitVec 16
  rxBytes : BitVec 16
  raw : Word
  deriving DecidableEq

/-- The part of `sfc7120_if_t` the direct path reads. A mapping is `true` when its pointer is
not NULL; `mmioSlicesLen` is `none` while `mmio_slices` is NULL. -/
structure SfcIf where
  txBuffer : Bool
  rxBuffer : Bool
  txDescRing : Bool
  rxDescRing : Bool
  evqRing : Bool
  mmioSlicesLen : Option ℕ
  txBufferPaddr : Word
  rxBufferPaddr : Word
  evqReadPtr : ℕ
  usedPoll : Bool
  rxHead : ℕ
  txHead : ℕ

/-- The MMIO slice array is mapped and long enough to hold slice `i`. -/
def SfcIf.hasSlice (sfc : SfcIf) (i : MmioSliceIdx) : Bool :=
  match sfc.mmioSlicesLen with
  | none => false
  | some n => decide (i.toNat < n)

/-- Decode one event word. -/
def decodeEv (ev : Word) : Ev :=
  if evCode ev = 0#32 then ⟨.rx, 0, evRxBytes ev, ev⟩
  else if evCode ev = 2#32 then ⟨.tx, evTxDescIdx ev, 0, ev⟩
  else ⟨.other, 0, 0, ev⟩

def pollReady (sfc : SfcIf) (maxEvs : ℤ) : Bool :=
  decide (0 < maxEvs) && sfc.evqRing && sfc.hasSlice .dataEvqRptrDbl

/-- One round of the event loop: the event taken, or `none` where the loop breaks. -/
def pollIter (sfc : SfcIf) (w : World) : Option (Ev × SfcIf × World) :=
  let ev := w.dataEvq sfc.evqReadPtr
  if evEmpty ev then none
  else some (decodeEv ev,
    { sfc with evqReadPtr := (sfc.evqReadPtr + 1) &&& (numEvqEntry - 1) },
    { w with dataEvq := Function.update w.dataEvq sfc.evqReadPtr 0 })

/-- Acknowledge on the RPTR doorbell, only if something was consumed. -/
def pollAck (sfc : SfcIf) (w : World) (n : ℕ) : World :=
  if 0 < n then
    w.writeReg regDataEvqRptrDbl (BitVec.ofNat 32 (sfc.evqReadPtr &&& evqRptrMask))
  else w

/-- The event loop, with room for `room` more events. -/
def pollLoop : ℕ → SfcIf → World → List Ev → SfcIf × World × List Ev
  | 0, sfc, w, evs => (sfc, w, evs)
  | room + 1, sfc, w, evs =>
      match pollIter sfc w with
      | none => (sfc, w, evs)
      | some (ev, sfc, w) => pollLoop room sfc w (evs ++ [ev])

/-- `sfc7120_poll`: `none` is the -1 of a bad argument or a missing mapping. -/
def poll (sfc : SfcIf) (w : World) (maxEvs : ℤ) : Option (List Ev × SfcIf × World) :=
  if pollReady sfc maxEvs then
    let (sfc, w, evs) := pollLoop maxEvs.toNat { sfc with usedPoll := true } w []
    some (evs, sfc, pollAck sfc w evs.length)
  else none

def rxRecvReady (sfc : SfcIf) : Bool :=
  sfc.rxBuffer && sfc.rxDescRing && sfc.hasSlice .rxDescDbl

/-- The packet length of a slot: the prefix field, or the event's count in cut-through mode. -/
def slotPlen (mem : ℕ → Byte) (slot : ℕ) (rxBytes : BitVec 16) : ℕ :=
  let plen := (mem (slot + 8)).toNat + 256 * (mem (slot + 9)).toNat
  if plen = 0 then
    if ef10RxPrefixLen < rxBytes.toNat then rxBytes.toNat - ef10RxPrefixLen else 0
  else plen

/-- Copy the packet out of the current slot, past its prefix. -/
def rxRecvCopy (sfc : SfcIf) (w : World) (rxBytes : BitVec 16) : Frame :=
  let slot := sfc.rxBufferPaddr.toNat + sfc.rxHead * rxBufferSize
  readBytes w.mem (slot + ef10RxPrefixLen) (slotPlen w.mem slot rxBytes)

/-- Re-post the slot's descriptor. -/
def rxRecvPost (sfc : SfcIf) (w : World) : World :=
  { w with rxRing := Function.update w.rxRing sfc.rxHead (rxDesc sfc.rxBufferPaddr sfc.rxHead) }

/-- Ring the RX doorbell with the slot just re-posted and move on to the next one. -/
def rxRecvRing (sfc : SfcIf) (w : World) : SfcIf × World :=
  ({ sfc with rxHead := (sfc.rxHead + 1) &&& (numRxDesc - 1) },
    w.writeReg regDataRxDescDbl (BitVec.ofNat 32 sfc.rxHead))

/-- `sfc7120_rx_recv`. -/
def rxRecv (sfc : SfcIf) (w : World) (rxBytes : BitVec 16) : Option (Frame × SfcIf × World) :=
  if rxRecvReady sfc then
    let sfc := { sfc with usedPoll := true }
    let frame := rxRecvCopy sfc w rxBytes
    let (sfc', w') := rxRecvRing sfc (rxRecvPost sfc w)
    some (frame, sfc', w')
  else none

def txPostReady (sfc : SfcIf) (len : ℕ) : Bool :=
  sfc.txBuffer && sfc.txDescRing && sfc.hasSlice .txDescDbl &&
    decide (len ≠ 0) && decide (len ≤ txBufferSize)

/-- Copy the packet into the TX buffer slot at `tx_head`. -/
def txPostCopy (sfc : SfcIf) (w : World) (pkt : List Byte) : World :=
  { w with mem := writeBytes w.mem (sfc.txBufferPaddr.toNat + sfc.txHead * txBufferSize) pkt }

/-- Write the slot's descriptor. -/
def txPostDesc (sfc : SfcIf) (w : World) (len : ℕ) : World :=
  { w with
    txRing := Function.update w.txRing sfc.txHead
      (kernDesc (BitVec.ofNat 64 len) (slotPa sfc.txBufferPaddr txBufferSize sfc.txHead)) }

/-- Push the write pointer through dword 2 of the TX doorbell slice and move on. -/
def txPostRing (sfc : SfcIf) (w : World) : SfcIf × World :=
  ({ sfc with txHead := (sfc.txHead + 1) &&& (numTxDesc - 1) },
    w.writeReg (regDataTxDescDbl + 2 * 4)
      (BitVec.ofNat 32 ((sfc.txHead + 1) &&& (numTxDesc - 1))))

/-- `sfc7120_tx_post` of the first `len` bytes behind `buf`. -/
def SfcIf.txPost (sfc : SfcIf) (w : World) (buf : List Byte) (len : ℕ) : Option (SfcIf × World) :=
  if txPostReady sfc len then
    let sfc := { sfc with usedPoll := true }
    some (txPostRing sfc (txPostDesc sfc (txPostCopy sfc w (buf.take len)) len))
  else none

/-- The interface `sfc7120_init` leaves right after attach: everything mapped, cursors seeded
from the kernel's. -/
def SfcIf.fresh (txPaddr rxPaddr : Word) : SfcIf where
  txBuffer := true
  rxBuffer := true
  txDescRing := true
  rxDescRing := true
  evqRing := true
  mmioSlicesLen := some regSlices.length
  txBufferPaddr := txPaddr
  rxBufferPaddr := rxPaddr
  evqReadPtr := 0
  usedPoll := false
  rxHead := 0
  txHead := 0

/-- The acknowledgement moves only the RPTR doorbell. -/
theorem pollAck_nic (sfc : SfcIf) (w : World) (n : ℕ) :
    (pollAck sfc w n).dataEvq = w.dataEvq ∧ (pollAck sfc w n).evLog = w.evLog ∧
      (pollAck sfc w n).txFetched = w.txFetched ∧ (pollAck sfc w n).accepted = w.accepted ∧
      (pollAck sfc w n).rxEvents = w.rxEvents := by
  unfold pollAck
  split_ifs <;> exact ⟨rfl, rfl, rfl, rfl, rfl⟩

theorem and_ringMask (n : ℕ) : n &&& (numEvqEntry - 1) = n % numEvqEntry :=
  Nat.and_two_pow_sub_one_eq_mod n 9

theorem and_rptrMask {n : ℕ} (h : n < numEvqEntry) : n &&& evqRptrMask = n := by
  rw [show evqRptrMask = 2 ^ 15 - 1 from rfl, Nat.and_two_pow_sub_one_eq_mod]
  exact Nat.mod_eq_of_lt (h.trans (by decide))

end Sfc7120

import Sfc7120.Lib.ByteMemory
import Sfc7120.Lib.RingQueue
import Sfc7120.DataPath.Words

/-! The NIC side of the data path: memory shared by DMA, the doorbell registers, and the steps
an EF10 queue pair takes on its own. The NIC sees the host only through the last doorbell
values and the rings; `accepted` and `evLog` are its own history. -/
namespace Sfc7120

open ByteMemory

abbrev Frame := List Byte

structure World where
  dataEvq : ℕ → Word
  txRing : ℕ → Word
  rxRing : ℕ → Word
  /-- Packet memory by bus address. -/
  mem : ℕ → Byte
  /-- Last value written to each BAR offset. -/
  regs : ℕ → Option (BitVec 32)
  /-- Frames the NIC has put into RX slots, in order; its RX read index is their number. -/
  accepted : List Frame
  /-- RX events the NIC has written. -/
  rxEvents : ℕ
  /-- Events written to the data EVQ; its write index is their number. -/
  evLog : List Word
  /-- Events the RPTR doorbell has acknowledged. -/
  evqAcked : ℕ
  /-- Free-running TX read index. -/
  txFetched : ℕ

/-- Events the NIC still counts as unacknowledged when RPTR takes value `v`. -/
def unacked (written : ℕ) (v : BitVec 32) : ℕ :=
  (written + (numEvqEntry - v.toNat % numEvqEntry)) % numEvqEntry

/-- RPTR only carries the consumed count modulo the ring, but that is enough while less than a
whole ring is left. -/
theorem unacked_eq {written c : ℕ} (hle : c ≤ written) (hlt : written < c + numEvqEntry) :
    unacked written (BitVec.ofNat 32 (c % numEvqEntry)) = written - c := by
  simp only [unacked, numEvqEntry, BitVec.toNat_ofNat] at *
  omega

/-- A register write. RPTR moves the acknowledged count; the others only leave their value. -/
def World.writeReg (w : World) (off : ℕ) (v : BitVec 32) : World :=
  { w with
    regs := Function.update w.regs off (some v)
    evqAcked := if off = regDataEvqRptrDbl then w.evLog.length - unacked w.evLog.length v
      else w.evqAcked }

theorem World.writeReg_regs_of_ne (w : World) {off off' : ℕ} (h : off' ≠ off) (v : BitVec 32) :
    (w.writeReg off v).regs off' = w.regs off' := Function.update_of_ne h _ _

theorem World.writeReg_evqAcked_of_ne (w : World) {off : ℕ} (h : off ≠ regDataEvqRptrDbl)
    (v : BitVec 32) : (w.writeReg off v).evqAcked = w.evqAcked := if_neg h

/-- Slots between the NIC's RX read index and the last RX doorbell value. -/
def World.rxAvail (w : World) : ℕ :=
  match w.regs regDataRxDescDbl with
  | none => 0
  | some v => (v.toNat + (numRxDesc - w.accepted.length % numRxDesc)) % numRxDesc

/-- The length field of the RX prefix: little-endian at offset 8. -/
def prefixLen (pre : List Byte) : ℕ := (pre.getD 8 0).toNat + 256 * (pre.getD 9 0).toNat

/-- The NIC may put this prefix in front of this frame: 14 bytes, with the frame's length or,
in cut-through mode, zero. -/
def prefixOk (pre : List Byte) (frame : Frame) : Bool :=
  pre.length == ef10RxPrefixLen && (prefixLen pre == frame.length || prefixLen pre == 0)

/-- Receive one frame into the next RX slot, at the address in the slot's descriptor. Frames
that do not fit the descriptor's capacity are not accepted (scatter is disabled). -/
def World.nicRxFill (w : World) (pre : List Byte) (frame : Frame) : Option World :=
  let d := w.rxRing (w.accepted.length % numRxDesc)
  if 0 < w.rxAvail ∧ prefixOk pre frame ∧
      ef10RxPrefixLen + frame.length ≤ (descBytes d).toNat then
    some { w with
      mem := writeBytes w.mem (descAddr d).toNat (pre ++ frame)
      accepted := w.accepted ++ [frame] }
  else none

/-- Write one event at the EVQ write index, while fewer than a ring are unacknowledged. -/
def World.postEvent (w : World) (ev : Word) : Option World :=
  if w.evLog.length - w.evqAcked < numEvqEntry then
    some { w with
      dataEvq := Function.update w.dataEvq (w.evLog.length % numEvqEntry) ev
      evLog := w.evLog ++ [ev] }
  else none

/-- Write one event at the EVQ write index, whether or not there is room. -/
def World.writeEvent (w : World) (ev : Word) : World :=
  { w with
    dataEvq := Function.update w.dataEvq (w.evLog.length % numEvqEntry) ev
    evLog := w.evLog ++ [ev] }

/-- The doorbell shows a TX descriptor the NIC has not completed. -/
def World.txPending (w : World) : Bool :=
  match w.regs regDataTxWptrDbl with
  | none => false
  | some v => decide (w.txFetched % numTxDesc ≠ v.toNat % numTxDesc)

/-- Report the oldest received frame that has no event yet. -/
def World.nicRxEvent (w : World) (ev : Word) : Option World :=
  match w.accepted[w.rxEvents]? with
  | none => none
  | some frame =>
      if evCode ev = 0#32 ∧ (evRxBytes ev).toNat = ef10RxPrefixLen + frame.length then
        (w.postEvent ev).map fun u => { u with rxEvents := u.rxEvents + 1 }
      else none

/-- Complete the next posted TX descriptor and report its free-running index. -/
def World.nicTxEvent (w : World) (ev : Word) : Option World :=
  match w.regs regDataTxWptrDbl with
  | none => none
  | some v =>
      if w.txFetched % numTxDesc ≠ v.toNat % numTxDesc ∧ evCode ev = 2#32 ∧
          (evTxDescIdx ev).toNat = w.txFetched % 2 ^ 16 then
        (w.postEvent ev).map fun u => { u with txFetched := u.txFetched + 1 }
      else none

/-- Any other event the firmware sends to the data EVQ. -/
def World.nicOtherEvent (w : World) (ev : Word) : Option World :=
  if evCode ev ≠ 0#32 ∧ evEmpty ev = false then w.postEvent ev else none

/-- `sfc7120_post_rx_buffers`: one descriptor per slot, then the doorbell for 511 of them. -/
def postRxBuffers (base : Word) (w : World) : World :=
  let ring := (List.range numRxDesc).foldl
    (fun ring i => Function.update ring i (rxDesc base i)) w.rxRing
  { w with rxRing := ring }.writeReg regDataRxDescDbl (BitVec.ofNat 32 (numRxDesc - 1))

/-- Rings and counters right after the queues are initialised: the data EVQ primed with
all-ones, nothing received, no doorbell written. -/
def World.fresh (mem : ℕ → Byte) : World where
  dataEvq _ := 0xffffffffffffffff#64
  txRing _ := 0
  rxRing _ := 0
  mem := mem
  regs _ := none
  accepted := []
  rxEvents := 0
  evLog := []
  evqAcked := 0
  txFetched := 0

end Sfc7120

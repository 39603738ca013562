import Sfc7120.Lib.RingCursor
import Sfc7120.DataPath.Handover
import Sfc7120.Capio.Faults

/-! The driver's ioctls against a hostile client. Everything the handlers poll, copy and post
through is mapped into the client, which may rewrite it between any two accesses of the kernel;
one ioctl even takes ring positions from it. The cursors are `int`s here, as in the source, and
the handlers are cut at every single access. -/
namespace Sfc7120.Hostile

open ByteMemory Machine RingCursor
open Attach (DmaBuf)
open Pager (dmaSize)
open Capio (evqEntrySize txDescSize rxDescSize)

/-- What the ioctls read and write of `sfc7120_softc_t`. -/
structure Softc where
  macAddr : List Byte
  viBase : BitVec 32
  txBufferPaddr : Word
  rxBufferPaddr : Word
  dataEvqReadPtr : BitVec 32
  txHead : BitVec 32
  rxHead : BitVec 32

/-- The same with the cursors as numbers. -/
def Softc.view (sc : Softc) : Sfc7120.Softc where
  txBufferPaddr := sc.txBufferPaddr
  rxBufferPaddr := sc.rxBufferPaddr
  dataEvqReadPtr := sc.dataEvqReadPtr.toNat
  txHead := sc.txHead.toNat
  rxHead := sc.rxHead.toNat

/-- A transmit request: tag, load permission and length of the capability, and the length asked
for, which the kernel has in its own copy. -/
structure TxReq where
  tag : Bool
  permLoad : Bool
  capLen : BitVec 64
  length : BitVec 64
  deriving DecidableEq

def txValidate (req : TxReq) : Option Errno :=
  if !req.tag then some .EINVAL
  else if !req.permLoad then some .EPERM
  else if req.length = 0 ∨ txBufferSize < req.length.toNat then some .EINVAL
  else if req.capLen.toNat < req.length.toNat then some .EINVAL
  else none

/-- A request that has passed the checks; only such a one is copied in and described. -/
def ValidReq := { req : TxReq // txValidate req = none }

structure EvqSyncReq where
  evqReadPtr : BitVec 32
  txHead : BitVec 32
  rxHead : BitVec 32
  deriving DecidableEq

/-- The `SFC7120_SET_EVQ_RPTR` handler. The request's fields are unsigned, and so are the
comparisons; the cursors they go to are signed. -/
def setEvqRptr (sc : Softc) (req : EvqSyncReq) : Except Errno Softc :=
  if numEvqEntry ≤ req.evqReadPtr.toNat ∨ numTxDesc ≤ req.txHead.toNat ∨
      numRxDesc ≤ req.rxHead.toNat then
    .error .EINVAL
  else .ok { sc with
    dataEvqReadPtr := req.evqReadPtr, txHead := req.txHead, rxHead := req.rxHead }

/-- A ring entry or packet slot that a handler touches: where it begins, in bytes from the start
of its allocation, and how long it is. -/
structure Entry where
  buf : DmaBuf
  off : ℤ
  len : ℕ
  deriving DecidableEq

def Entry.Within (e : Entry) : Prop := 0 ≤ e.off ∧ e.off + e.len ≤ dmaSize e.buf

/-- `evq[sc->data_evq_read_ptr]`. -/
def Softc.event (sc : Softc) : Entry :=
  ⟨.dataEvq, sc.dataEvqReadPtr.toInt * evqEntrySize, evqEntrySize⟩

/-- `tx_ring[sc->tx_head]`. -/
def Softc.txDesc (sc : Softc) : Entry := ⟨.txDesc, sc.txHead.toInt * txDescSize, txDescSize⟩

/-- `rx_ring[sc->rx_head]`. -/
def Softc.rxDesc (sc : Softc) : Entry := ⟨.rxDesc, sc.rxHead.toInt * rxDescSize, rxDescSize⟩

/-- The slot at `sc->tx_buffer + sc->tx_head * SFC7120_TX_BUFFER_SIZE`, an `int` product. -/
def Softc.txSlot (sc : Softc) : Entry :=
  ⟨.txBuffer, (offset txBufferSize sc.txHead).toInt, txBufferSize⟩

def Softc.rxSlot (sc : Softc) : Entry :=
  ⟨.rxBuffer, (offset rxBufferSize sc.rxHead).toInt, rxBufferSize⟩

/-- `slot_pa`: the product is widened with its sign. -/
def slotPa (base : Word) (size : ℕ) (head : BitVec 32) : Word :=
  base + (offset size head).signExtend 64

/-- A descriptor the kernel wrote, with the head it wrote it at and the length it was asked for. -/
inductive Desc where
  | tx (head : BitVec 32) (length : Word) (desc : Word)
  | rx (head : BitVec 32) (desc : Word)
  deriving DecidableEq

/-- What an ioctl returned, with the data it hands back. -/
inductive Reply where
  | mac (addr : List Byte)
  | viInfo (info : Handover.ViInfo)
  | setEvqRptr (err : Option Errno)
  | tx (err : Option Errno)
  | rx (res : Except Errno Frame)
  | unknown (err : Errno)

/-- The next access of the handler that holds the softc lock. -/
inductive Pc where
  | idle
  | txCopyin (req : ValidReq) (copied : ℕ)
  | txDesc (req : ValidReq)
  | txDoorbell
  | txRead (t : TxWait)
  | txZero (t : TxWait) (ev : Word)
  | rxRead (r : RxWait)
  | rxZero (r : RxWait) (ev : Word)
  | rxLenLow (rxBytes : BitVec 16)
  | rxLenHigh (rxBytes : BitVec 16) (low : Byte)
  | rxCopyout (plen : ℕ) (frame : Frame)
  | rxDesc (frame : Frame)
  | rxDoorbell (frame : Frame)

structure Sys where
  w : World
  sc : Softc
  pc : Pc
  touched : List Entry
  written : List Desc
  replies : List Reply

inductive Act where
  | getMac
  | getViInfo
  | setEvqRptr (req : EvqSyncReq)
  | tx (req : TxReq)
  | rx
  | unknown
  | copyinByte (b : Byte)
  | copyinEnd (err : Option Errno)
  | access
  | copyoutEnd (err : Option Errno)
  | client (u : World)

def Sys.answer (s : Sys) (r : Reply) : Sys := { s with replies := s.replies ++ [r] }

/-- The handler gives up the lock and returns. -/
def Sys.finish (s : Sys) (r : Reply) : Sys := { s with pc := .idle }.answer r

def Sys.touch (s : Sys) (e : Entry) : Sys := { s with touched := s.touched ++ [e] }

/-- Zero the event at the read pointer and move on. -/
def consumeEv (s : Sys) : Sys :=
  { s with
    w := { s.w with dataEvq := Function.update s.w.dataEvq s.sc.dataEvqReadPtr.toNat 0 }
    sc := { s.sc with dataEvqReadPtr := next numEvqEntry s.sc.dataEvqReadPtr } }.touch s.sc.event

def ackEvq (sc : Softc) (w : World) (consumed : ℕ) : World :=
  if 0 < consumed then
    w.writeReg regDataEvqRptrDbl (sc.dataEvqReadPtr &&& BitVec.ofNat 32 evqRptrMask)
  else w

/-- `plen`, from the two length bytes as they were when each was read. -/
def prefixPlen (low high : Byte) (rxBytes : BitVec 16) : ℕ :=
  let plen := low.toNat + 256 * high.toNat
  if plen = 0 then
    if ef10RxPrefixLen < rxBytes.toNat then rxBytes.toNat - ef10RxPrefixLen else 0
  else plen

/-- Bus address of the slot at `rx_head`, through which the model's packet memory is indexed. -/
def Softc.rxSlotAddr (sc : Softc) : ℕ :=
  sc.rxBufferPaddr.toNat + (offset rxBufferSize sc.rxHead).toNat

def Softc.txSlotAddr (sc : Softc) : ℕ :=
  sc.txBufferPaddr.toNat + (offset txBufferSize sc.txHead).toNat

/-- One access of `SFC7120_TX` or `SFC7120_RX` to memory the client shares or to a doorbell, with
the code up to the next. -/
def access (s : Sys) : Option Sys :=
  match s.pc with
  | .idle => none
  | .txCopyin _ _ => none
  | .txDesc req =>
      let desc := kernDesc req.1.length (slotPa s.sc.txBufferPaddr txBufferSize s.sc.txHead)
      some ({ s with
        w := { s.w with txRing := Function.update s.w.txRing s.sc.txHead.toNat desc }
        written := s.written ++ [Desc.tx s.sc.txHead req.1.length desc]
        pc := .txDoorbell }.touch s.sc.txDesc)
  | .txDoorbell =>
      some { s with
        w := s.w.writeReg regDataTxWptrDbl (next numTxDesc s.sc.txHead)
        pc := .txRead ⟨s.sc.txHead.toNat, 0, false, 0⟩ }
  | .txRead t =>
      if t.again then
        let ev := s.w.dataEvq s.sc.dataEvqReadPtr.toNat
        some ({ s with
          pc := if evEmpty ev then .txRead { t with tries := t.tries + 1 }
            else .txZero t ev }.touch s.sc.event)
      else
        some ({ s with
          w := ackEvq s.sc s.w t.consumed
          sc := { s.sc with txHead := next numTxDesc s.sc.txHead } }.finish
            (.tx (if t.done then none else some .ETIMEDOUT)))
  | .txZero t ev =>
      some { consumeEv s with
        pc := .txRead { t with
          tries := t.tries + 1
          done := t.done || isTxCompletion ev t.postedIdx
          consumed := t.consumed + 1 } }
  | .rxRead r =>
      if r.again then
        let ev := s.w.dataEvq s.sc.dataEvqReadPtr.toNat
        some ({ s with
          pc := if evEmpty ev then .rxRead { r with tries := r.tries + 1 }
            else .rxZero r ev }.touch s.sc.event)
      else
        let s' := { s with w := ackEvq s.sc s.w r.consumed }
        match r.found with
        | none => some (s'.finish (.rx (.error .ETIMEDOUT)))
        | some b => some { s' with pc := .rxLenLow b }
  | .rxZero r ev =>
      some { consumeEv s with
        pc := .rxRead {
          tries := r.tries + 1
          found := if evCode ev = 0#32 then some (evRxBytes ev) else r.found
          consumed := r.consumed + 1 } }
  | .rxLenLow b =>
      some ({ s with pc := .rxLenHigh b (s.w.mem (s.sc.rxSlotAddr + 8)) }.touch s.sc.rxSlot)
  | .rxLenHigh b low =>
      some ({ s with
        pc := .rxCopyout (prefixPlen low (s.w.mem (s.sc.rxSlotAddr + 9)) b) [] }.touch
          s.sc.rxSlot)
  | .rxCopyout plen frame =>
      -- how far past the slot this goes is the length's doing; the slot it starts from is logged
      if frame.length < plen then
        some ({ s with
          pc := .rxCopyout plen
            (frame ++ [s.w.mem (s.sc.rxSlotAddr + ef10RxPrefixLen + frame.length)]) }.touch
              s.sc.rxSlot)
      else none
  | .rxDesc frame =>
      let desc := kernDesc (BitVec.ofNat 64 rxBufferSize)
        (slotPa s.sc.rxBufferPaddr rxBufferSize s.sc.rxHead)
      some ({ s with
        w := { s.w with rxRing := Function.update s.w.rxRing s.sc.rxHead.toNat desc }
        written := s.written ++ [Desc.rx s.sc.rxHead desc]
        pc := .rxDoorbell frame }.touch s.sc.rxDesc)
  | .rxDoorbell frame =>
      some ({ s with
        w := s.w.writeReg regRxDescDbl s.sc.rxHead
        sc := { s.sc with rxHead := next numRxDesc s.sc.rxHead } }.finish (.rx (.ok frame)))

/-- Ioctls in any order, the accesses of the one that holds the lock, and the client. What is
refused before the lock is taken is refused at any time. -/
def step (s : Sys) : Act → Option Sys
  | .getMac =>
      match s.pc with
      | .idle => some (s.answer (.mac s.sc.macAddr))
      | _ => none
  | .getViInfo =>
      match s.pc with
      | .idle => some (s.answer (.viInfo (Handover.getViInfo s.sc.viBase.toNat s.sc.view)))
      | _ => none
  | .setEvqRptr req =>
      match setEvqRptr s.sc req, s.pc with
      | .error e, _ => some (s.answer (.setEvqRptr (some e)))
      | .ok sc, .idle => some ({ s with sc := sc }.answer (.setEvqRptr none))
      | .ok _, _ => none
  | .tx req =>
      if h : txValidate req = none then
        match s.pc with
        | .idle => some { s with pc := .txCopyin ⟨req, h⟩ 0 }
        | _ => none
      else some (s.answer (.tx (txValidate req)))
  | .rx =>
      match s.pc with
      | .idle => some { s with pc := .rxRead ⟨0, none, 0⟩ }
      | _ => none
  | .unknown => some (s.answer (.unknown .ENOTTY))
  | .copyinByte b =>
      match s.pc with
      | .txCopyin req k =>
          if k < req.1.length.toNat then
            some ({ s with
              w := { s.w with mem := Function.update s.w.mem (s.sc.txSlotAddr + k) b }
              pc := .txCopyin req (k + 1) }.touch s.sc.txSlot)
          else none
      | _ => none
  | .copyinEnd err =>
      match s.pc, err with
      | .txCopyin _ _, some e => some (s.finish (.tx (some e)))
      | .txCopyin req k, none =>
          if k = req.1.length.toNat then some { s with pc := .txDesc req } else none
      | _, _ => none
  | .access => access s
  | .copyoutEnd err =>
      match s.pc, err with
      | .rxCopyout _ _, some e => some (s.finish (.rx (.error e)))
      | .rxCopyout plen frame, none =>
          if frame.length = plen then some { s with pc := .rxDesc frame } else none
      | _, _ => none
  | .client u => some { s with w := u }

/-- The device right after attach. -/
def start (macAddr : List Byte) (viBase : BitVec 32) (txBase rxBase : Word) (mem : ℕ → Byte) :
    Sys where
  w := postRxBuffers rxBase (World.fresh mem)
  sc := ⟨macAddr, viBase, txBase, rxBase, 0, 0, 0⟩
  pc := .idle
  touched := []
  written := []
  replies := []

/-- All three cursors are indices. -/
structure Softc.InRange (sc : Softc) : Prop where
  evq : RingCursor.InRange numEvqEntry sc.dataEvqReadPtr
  tx : RingCursor.InRange numTxDesc sc.txHead
  rx : RingCursor.InRange numRxDesc sc.rxHead

section
variable {sc : Softc}

theorem Softc.InRange.event_within (h : sc.InRange) : sc.event.Within :=
  h.evq.entry_within

theorem Softc.InRange.txDesc_within (h : sc.InRange) : sc.txDesc.Within :=
  h.tx.entry_within

theorem Softc.InRange.rxDesc_within (h : sc.InRange) : sc.rxDesc.Within :=
  h.rx.entry_within

theorem Softc.InRange.txSlot_within (h : sc.InRange) : sc.txSlot.Within := by
  have hoff : (offset txBufferSize sc.txHead).toInt = sc.txHead.toInt * txBufferSize :=
    h.tx.toInt_offset (by decide)
  unfold Softc.txSlot Entry.Within
  rw [hoff]
  exact h.tx.entry_within

theorem Softc.InRange.rxSlot_within (h : sc.InRange) : sc.rxSlot.Within := by
  have hoff : (offset rxBufferSize sc.rxHead).toInt = sc.rxHead.toInt * rxBufferSize :=
    h.rx.toInt_offset (by decide)
  unfold Softc.rxSlot Entry.Within
  rw [hoff]
  exact h.rx.entry_within

/-- The positions a client installs are indices, whatever they were as unsigned numbers. -/
theorem Softc.InRange.setEvqRptr {req : EvqSyncReq} {sc' : Softc}
    (hset : setEvqRptr sc req = .ok sc') : sc'.InRange := by
  unfold Hostile.setEvqRptr at hset
  split_ifs at hset with hbad
  simp only [not_or, Nat.not_le] at hbad
  obtain ⟨hevq, htx, hrx⟩ := hbad
  obtain rfl := Except.ok.inj hset
  exact ⟨inRange_of_toNat_lt (by decide) hevq, inRange_of_toNat_lt (by decide) htx,
    inRange_of_toNat_lt (by decide) hrx⟩

theorem setEvqRptr_paddrs {req : EvqSyncReq} {sc' : Softc} (hset : setEvqRptr sc req = .ok sc') :
    sc'.txBufferPaddr = sc.txBufferPaddr ∧ sc'.rxBufferPaddr = sc.rxBufferPaddr := by
  unfold setEvqRptr at hset
  split_ifs at hset
  obtain rfl := Except.ok.inj hset
  exact ⟨rfl, rfl⟩

end

/-- The descriptor names slot `head` of a buffer of `n` slots, with this length and no flag. -/
structure NamesSlot (base : Word) (n size : ℕ) (head : BitVec 32) (length desc : Word) : Prop where
  addr : (descAddr desc).toNat = base.toNat + head.toNat * size
  bytes : descBytes desc = length
  flags : BitFields.get 62 2 desc = 0
  inside : (descAddr desc).toNat + (descBytes desc).toNat ≤ base.toNat + n * size

/-- The head is an index, the length one the slot holds, and for a buffer below bus address 2^48
the descriptor says exactly these. -/
def Desc.Canonical (txBase rxBase : Word) : Desc → Prop
  | .tx head length desc =>
      InRange numTxDesc head ∧ 1 ≤ length.toNat ∧ length.toNat ≤ txBufferSize ∧
        (txBase.toNat + numTxDesc * txBufferSize ≤ 2 ^ 48 →
          NamesSlot txBase numTxDesc txBufferSize head length desc)
  | .rx head desc =>
      InRange numRxDesc head ∧
        (rxBase.toNat + numRxDesc * rxBufferSize ≤ 2 ^ 48 →
          NamesSlot rxBase numRxDesc rxBufferSize head (BitVec.ofNat 64 rxBufferSize) desc)

theorem flags_kernDesc (len pa : Word) : BitFields.get 62 2 (kernDesc len pa) = 0 := by
  rw [kernDesc_eq_fields, BitFields.get_or, BitFields.get_or,
    BitFields.get_put_disjoint (by decide), BitFields.get_put_disjoint (by decide),
    BitFields.get_put_disjoint (by decide)]
  rfl

/-- Neither the `int` product nor the packing loses anything of an address below 2^48. -/
theorem namesSlot_kernDesc {base length : Word} {n size : ℕ} {head : BitVec 32}
    (hhead : InRange n head) (hfit : 2 * (n * size) ≤ 2 ^ 32) (hpos : 0 < size)
    (hsize : size < 2 ^ 14) (hlen : length.toNat ≤ size) (hbase : base.toNat + n * size ≤ 2 ^ 48) :
    NamesSlot base n size head length (kernDesc length (slotPa base size head)) := by
  have hoff : ((offset size head).signExtend 64).toNat = head.toNat * size :=
    hhead.toNat_signExtend_offset hfit (by decide)
  have hle := hhead.mul_size_le size
  have hpa : (slotPa base size head).toNat = base.toNat + head.toNat * size := by
    rw [slotPa, BitVec.toNat_add, hoff]
    omega
  have haddr : descAddr (kernDesc length (slotPa base size head)) = slotPa base size head :=
    descAddr_kernDesc (by omega)
  have hbytes : descBytes (kernDesc length (slotPa base size head)) = length :=
    descBytes_kernDesc (by omega)
  refine ⟨?_, hbytes, flags_kernDesc _ _, ?_⟩
  · rw [haddr, hpa]
  · rw [haddr, hbytes, hpa]
    omega

theorem ValidReq.length_pos (req : ValidReq) : 1 ≤ req.1.length.toNat := by
  have hvalid := req.2
  unfold txValidate at hvalid
  split_ifs at hvalid with htag hperm hlen hcap
  rw [not_or] at hlen
  by_contra hzero
  exact hlen.1 (BitVec.eq_of_toNat_eq (Nat.lt_one_iff.mp (Nat.not_le.mp hzero)))

theorem ValidReq.length_le (req : ValidReq) : req.1.length.toNat ≤ txBufferSize := by
  have hvalid := req.2
  unfold txValidate at hvalid
  split_ifs at hvalid with htag hperm hlen hcap
  rw [not_or] at hlen
  exact Nat.not_lt.mp hlen.2

/-- No position the client chose and nothing it wrote takes the kernel out of its own memory. -/
structure Safe (txBase rxBase : Word) (s : Sys) : Prop where
  inRange : s.sc.InRange
  within : ∀ e ∈ s.touched, e.Within
  canonical : ∀ d ∈ s.written, d.Canonical txBase rxBase

structure Inv (txBase rxBase : Word) (s : Sys) : Prop extends Safe txBase rxBase s where
  txPaddr : s.sc.txBufferPaddr = txBase
  rxPaddr : s.sc.rxBufferPaddr = rxBase

theorem inv_start (macAddr : List Byte) (viBase : BitVec 32) (txBase rxBase : Word)
    (mem : ℕ → Byte) : Inv txBase rxBase (start macAddr viBase txBase rxBase mem) where
  inRange := by
    have hzero : InRange numEvqEntry (0 : BitVec 32) := ⟨by decide, by decide⟩
    exact ⟨hzero, hzero, hzero⟩
  within e he := by cases he
  canonical d hd := by cases hd
  txPaddr := rfl
  rxPaddr := rfl

section
variable {txBase rxBase : Word} {s t : Sys}

/-- The invariant does not look at the memory the client shares. -/
theorem Inv.congr (h : Inv txBase rxBase s) (hsc : t.sc = s.sc) (htouched : t.touched = s.touched)
    (hwritten : t.written = s.written) : Inv txBase rxBase t where
  inRange := hsc ▸ h.inRange
  within := htouched ▸ h.within
  canonical := hwritten ▸ h.canonical
  txPaddr := hsc ▸ h.txPaddr
  rxPaddr := hsc ▸ h.rxPaddr

theorem Inv.touch (h : Inv txBase rxBase s) {e : Entry} (he : e.Within) :
    Inv txBase rxBase (s.touch e) where
  inRange := h.inRange
  within e' he' := by
    rcases List.mem_append.mp he' with hold | hnew
    · exact h.within e' hold
    · rwa [List.mem_singleton.mp hnew]
  canonical := h.canonical
  txPaddr := h.txPaddr
  rxPaddr := h.rxPaddr

theorem Inv.write (h : Inv txBase rxBase s) {d : Desc} (hd : d.Canonical txBase rxBase) :
    Inv txBase rxBase { s with written := s.written ++ [d] } where
  inRange := h.inRange
  within := h.within
  canonical d' hd' := by
    rcases List.mem_append.mp hd' with hold | hnew
    · exact h.canonical d' hold
    · rwa [List.mem_singleton.mp hnew]
  txPaddr := h.txPaddr
  rxPaddr := h.rxPaddr

theorem Inv.setSc (h : Inv txBase rxBase s) {sc : Softc} (hsc : sc.InRange)
    (htx : sc.txBufferPaddr = s.sc.txBufferPaddr) (hrx : sc.rxBufferPaddr = s.sc.rxBufferPaddr) :
    Inv txBase rxBase { s with sc := sc } where
  inRange := hsc
  within := h.within
  canonical := h.canonical
  txPaddr := htx.trans h.txPaddr
  rxPaddr := hrx.trans h.rxPaddr

theorem Inv.consumeEv (h : Inv txBase rxBase s) : Inv txBase rxBase (consumeEv s) := by
  have hsc : Softc.InRange { s.sc with dataEvqReadPtr := next numEvqEntry s.sc.dataEvqReadPtr } :=
    ⟨inRange_next (by decide : 9 < 32) _, h.inRange.tx, h.inRange.rx⟩
  exact ((h.setSc hsc rfl rfl).touch h.inRange.event_within).congr rfl rfl rfl

theorem Inv.txDesc_canonical (h : Inv txBase rxBase s) (req : ValidReq) :
    (Desc.tx s.sc.txHead req.1.length (kernDesc req.1.length
      (slotPa s.sc.txBufferPaddr txBufferSize s.sc.txHead))).Canonical txBase rxBase := by
  refine ⟨h.inRange.tx, req.length_pos, req.length_le, fun hbase => ?_⟩
  rw [h.txPaddr]
  exact namesSlot_kernDesc h.inRange.tx (by decide) (by decide) (by decide) req.length_le hbase

theorem Inv.rxDesc_canonical (h : Inv txBase rxBase s) :
    (Desc.rx s.sc.rxHead (kernDesc (BitVec.ofNat 64 rxBufferSize)
      (slotPa s.sc.rxBufferPaddr rxBufferSize s.sc.rxHead))).Canonical txBase rxBase := by
  refine ⟨h.inRange.rx, fun hbase => ?_⟩
  rw [h.rxPaddr]
  exact namesSlot_kernDesc h.inRange.rx (by decide) (by decide) (by decide) (by decide) hbase

/-- One access of a handler. -/
theorem Inv.access (h : Inv txBase rxBase s) (hstep : access s = some t) :
    Inv txBase rxBase t := by
  unfold Hostile.access at hstep
  split at hstep
  next => cases hstep
  next => cases hstep
  next req hpc =>
    obtain rfl := Option.some.inj hstep
    exact ((h.write (h.txDesc_canonical req)).touch h.inRange.txDesc_within).congr rfl rfl rfl
  next hpc =>
    obtain rfl := Option.some.inj hstep
    exact h.congr rfl rfl rfl
  next t hpc =>
    split at hstep
    next =>
      obtain rfl := Option.some.inj hstep
      exact (h.touch h.inRange.event_within).congr rfl rfl rfl
    next =>
      obtain rfl := Option.some.inj hstep
      have hsc : Softc.InRange { s.sc with txHead := next numTxDesc s.sc.txHead } :=
        ⟨h.inRange.evq, inRange_next (by decide : 9 < 32) _, h.inRange.rx⟩
      exact (h.setSc hsc rfl rfl).congr rfl rfl rfl
  next t ev hpc =>
    obtain rfl := Option.some.inj hstep
    exact h.consumeEv.congr rfl rfl rfl
  next r hpc =>
    split at hstep
    next =>
      obtain rfl := Option.some.inj hstep
      exact (h.touch h.inRange.event_within).congr rfl rfl rfl
    next =>
      dsimp only at hstep
      split at hstep
      next =>
        obtain rfl := Option.some.inj hstep
        exact h.congr rfl rfl rfl
      next =>
        obtain rfl := Option.some.inj hstep
        exact h.congr rfl rfl rfl
  next r ev hpc =>
    obtain rfl := Option.some.inj hstep
    exact h.consumeEv.congr rfl rfl rfl
  next b hpc =>
    obtain rfl := Option.some.inj hstep
    exact (h.touch h.inRange.rxSlot_within).congr rfl rfl rfl
  next b low hpc =>
    obtain rfl := Option.some.inj hstep
    exact (h.touch h.inRange.rxSlot_within).congr rfl rfl rfl
  next plen frame hpc =>
    split_ifs at hstep
    obtain rfl := Option.some.inj hstep
    exact (h.touch h.inRange.rxSlot_within).congr rfl rfl rfl
  next frame hpc =>
    obtain rfl := Option.some.inj hstep
    exact ((h.write h.rxDesc_canonical).touch h.inRange.rxDesc_within).congr rfl rfl rfl
  next frame hpc =>
    obtain rfl := Option.some.inj hstep
    have hsc : Softc.InRange { s.sc with rxHead := next numRxDesc s.sc.rxHead } :=
      ⟨h.inRange.evq, h.inRange.tx, inRange_next (by decide : 9 < 32) _⟩
    exact (h.setSc hsc rfl rfl).congr rfl rfl rfl

end

theorem inv_step {txBase rxBase : Word} (s : Sys) (a : Act) (t : Sys) (h : Inv txBase rxBase s)
    (hstep : step s a = some t) : Inv txBase rxBase t := by
  cases a with
  | getMac =>
    simp only [step] at hstep
    split at hstep
    next => exact Option.some.inj hstep ▸ h.congr rfl rfl rfl
    next => cases hstep
  | getViInfo =>
    simp only [step] at hstep
    split at hstep
    next => exact Option.some.inj hstep ▸ h.congr rfl rfl rfl
    next => cases hstep
  | setEvqRptr req =>
    simp only [step] at hstep
    split at hstep
    next => exact Option.some.inj hstep ▸ h.congr rfl rfl rfl
    next sc hset hpc =>
      obtain ⟨htx, hrx⟩ := setEvqRptr_paddrs hset
      exact Option.some.inj hstep ▸ (h.setSc (.setEvqRptr hset) htx hrx).congr rfl rfl rfl
    next => cases hstep
  | tx req =>
    simp only [step] at hstep
    split_ifs at hstep with hvalid
    · split at hstep
      next => exact Option.some.inj hstep ▸ h.congr rfl rfl rfl
      next => cases hstep
    · exact Option.some.inj hstep ▸ h.congr rfl rfl rfl
  | rx =>
    simp only [step] at hstep
    split at hstep
    next => exact Option.some.inj hstep ▸ h.congr rfl rfl rfl
    next => cases hstep
  | unknown => exact Option.some.inj hstep ▸ h.congr rfl rfl rfl
  | copyinByte b =>
    simp only [step] at hstep
    split at hstep
    next req k hpc =>
      split_ifs at hstep
      obtain rfl := Option.some.inj hstep
      exact (h.touch h.inRange.txSlot_within).congr rfl rfl rfl
    next => cases hstep
  | copyinEnd err =>
    simp only [step] at hstep
    split at hstep
    next => exact Option.some.inj hstep ▸ h.congr rfl rfl rfl
    next =>
      split_ifs at hstep
      exact Option.some.inj hstep ▸ h.congr rfl rfl rfl
    next => cases hstep
  | access => exact h.access hstep
  | copyoutEnd err =>
    simp only [step] at hstep
    split at hstep
    next => exact Option.some.inj hstep ▸ h.congr rfl rfl rfl
    next =>
      split_ifs at hstep
      exact Option.some.inj hstep ▸ h.congr rfl rfl rfl
    next => cases hstep
  | client u => exact Option.some.inj hstep ▸ h.congr rfl rfl rfl

theorem inv_run {macAddr : List Byte} {viBase : BitVec 32} {txBase rxBase : Word} {mem : ℕ → Byte}
    {as : List Act} {s : Sys}
    (hrun : run step (start macAddr viBase txBase rxBase mem) as = some s) :
    Inv txBase rxBase s :=
  run_invariant inv_step (inv_start macAddr viBase txBase rxBase mem) hrun

/-- In every run of ioctls and of a client that rewrites what it shares at any moment, the three
cursors stay indices, the handlers stay inside their allocations, and the descriptors they write
name the slot at the head with the length asked for. -/
theorem hostile_client_confined {macAddr : List Byte} {viBase : BitVec 32} {txBase rxBase : Word}
    {mem : ℕ → Byte} {as : List Act} {s : Sys}
    (hrun : run step (start macAddr viBase txBase rxBase mem) as = some s) :
    Safe txBase rxBase s :=
  (inv_run hrun).toSafe

/-- A ring rewritten from end to end. -/
def scribbled (ev : Word) : World := { World.fresh fun _ => 0 with dataEvq := fun _ => ev }

/-- The client moves all three cursors to the last entry and, while its packet is copied in, is
refused a negative one. It forges a foreign completion, then the awaited one, then a packet. -/
def hostileCalls : List Act :=
  [.setEvqRptr ⟨511, 511, 511⟩, .tx ⟨true, true, 1, 1⟩, .setEvqRptr ⟨0xffffffff, 0, 0⟩,
   .copyinByte 7, .client (scribbled 0x2000000000000003), .copyinEnd none, .access, .access,
   .access, .client (scribbled 0x20000000000001ff), .access, .access, .access, .access,
   .client (scribbled 15), .rx, .access, .access, .access, .access, .client (scribbled 0),
   .access, .access, .copyoutEnd none, .access, .access, .getViInfo]

theorem hostile_client_confined_forged_events :
    ∃ s, run step (start [] 0 0 0x80000000 fun _ => 0) hostileCalls = some s ∧
      s.written = [.tx 511 1 0x00010000000ff800, .rx 511 0x08000000800ff800] ∧
        s.touched.length = 12 ∧ Safe 0 0x80000000 s := by
  have hend : (run step (start [] 0 0 0x80000000 fun _ => 0) hostileCalls).map
      (fun s => (s.written, s.touched.length)) =
        some ([.tx 511 1 0x00010000000ff800, .rx 511 0x08000000800ff800], 12) := by
    decide +kernel
  obtain ⟨s, hs, hlogs⟩ := Option.map_eq_some_iff.mp hend
  obtain ⟨hwritten, htouched⟩ := Prod.mk.inj hlogs
  exact ⟨s, hs, hwritten, htouched, hostile_client_confined hs⟩

end Sfc7120.Hostile

import Sfc7120.DataPath.Hostile

/-! Left alone, the handlers of the hostile-client model are the calls of the number model: with
cursors that are indices, no product and no increment of the `int`s differs from the one on
numbers, and the accesses of a call add up to what the call does at once. -/
namespace Sfc7120.Hostile

open ByteMemory Machine RingCursor

/-- The request with its lengths as numbers, and the bytes behind its capability. -/
def TxReq.view (req : TxReq) (bytes : List Byte) : Sfc7120.TxReq where
  tag := req.tag
  permLoad := req.permLoad
  capLen := req.capLen.toNat
  length := req.length.toNat
  bytes := bytes

def EvqSyncReq.view (req : EvqSyncReq) : Handover.EvqSyncReq where
  evqReadPtr := req.evqReadPtr.toNat
  txHead := req.txHead.toNat
  rxHead := req.rxHead.toNat

theorem txValidate_view (req : TxReq) (bytes : List Byte) :
    Sfc7120.txValidate (req.view bytes) = txValidate req := by
  have hzero : req.length = 0 ↔ req.length.toNat = 0 := by
    rw [← BitVec.toNat_inj]
    rfl
  unfold Sfc7120.txValidate txValidate TxReq.view
  grind

theorem setEvqRptr_view (sc : Softc) (req : EvqSyncReq) :
    (setEvqRptr sc req).map Softc.view = Handover.setEvqRptr sc.view req.view := by
  unfold setEvqRptr Handover.setEvqRptr EvqSyncReq.view
  split_ifs <;> rfl

section
variable {sc : Softc}

theorem slotPa_view {base : Word} {n size : ℕ} {head : BitVec 32} (hhead : InRange n head)
    (hfit : 2 * (n * size) ≤ 2 ^ 32) :
    slotPa base size head = Sfc7120.slotPa base size head.toNat := by
  unfold slotPa Sfc7120.slotPa
  congr 1
  apply BitVec.eq_of_toNat_eq
  have hlt := hhead.two_mul_offset_lt hfit
  rw [hhead.toNat_signExtend_offset hfit (by decide), BitVec.toNat_ofNat]
  exact (Nat.mod_eq_of_lt (by omega)).symm

theorem Softc.InRange.txSlotAddr_eq (h : sc.InRange) :
    sc.txSlotAddr = sc.view.txBufferPaddr.toNat + sc.view.txHead * txBufferSize := by
  have hoff : (offset txBufferSize sc.txHead).toNat = sc.txHead.toNat * txBufferSize :=
    h.tx.toNat_offset (by decide)
  rw [Softc.txSlotAddr, hoff]
  rfl

theorem Softc.InRange.rxSlotAddr_eq (h : sc.InRange) :
    sc.rxSlotAddr = sc.view.rxBufferPaddr.toNat + sc.view.rxHead * rxBufferSize := by
  have hoff : (offset rxBufferSize sc.rxHead).toNat = sc.rxHead.toNat * rxBufferSize :=
    h.rx.toNat_offset (by decide)
  rw [Softc.rxSlotAddr, hoff]
  rfl

theorem ackEvq_view (sc : Softc) (w : World) (consumed : ℕ) :
    ackEvq sc w consumed = Sfc7120.ackEvq sc.view w consumed := by
  have hmask : sc.dataEvqReadPtr &&& BitVec.ofNat 32 evqRptrMask =
      BitVec.ofNat 32 (sc.dataEvqReadPtr.toNat &&& evqRptrMask) := by
    rw [BitVec.ofNat_and, BitVec.ofNat_toNat, BitVec.setWidth_eq]
  unfold ackEvq Sfc7120.ackEvq
  rw [hmask]
  rfl

end

/-- The system without the client. -/
def alone (s : Sys) : Act → Option Sys
  | .client _ => none
  | a => step s a

/-- Where the handler is, with the softc as numbers, the shared memory and the replies so far. -/
structure At (s : Sys) (sc : Sfc7120.Softc) (w : World) (pc : Pc) (rs : List Reply) : Prop where
  inRange : s.sc.InRange
  softc : s.sc.view = sc
  world : s.w = w
  pc : s.pc = pc
  replies : s.replies = rs

/-- What `consumeEv` does to the cursor, as a number. -/
theorem view_next_evq (sc : Softc) :
    Softc.view { sc with dataEvqReadPtr := next numEvqEntry sc.dataEvqReadPtr } =
      { sc.view with dataEvqReadPtr := (sc.view.dataEvqReadPtr + 1) &&& (numEvqEntry - 1) } := by
  have hnext : (next numEvqEntry sc.dataEvqReadPtr).toNat = _ :=
    toNat_next_eq_and (k := 9) (by decide) sc.dataEvqReadPtr
  simp only [Softc.view, hnext]
  rfl

theorem view_next_tx (sc : Softc) :
    Softc.view { sc with txHead := next numTxDesc sc.txHead } =
      { sc.view with txHead := (sc.view.txHead + 1) &&& (numTxDesc - 1) } := by
  have hnext : (next numTxDesc sc.txHead).toNat = _ :=
    toNat_next_eq_and (k := 9) (by decide) sc.txHead
  simp only [Softc.view, hnext]
  rfl

theorem view_next_rx (sc : Softc) :
    Softc.view { sc with rxHead := next numRxDesc sc.rxHead } =
      { sc.view with rxHead := (sc.view.rxHead + 1) &&& (numRxDesc - 1) } := by
  have hnext : (next numRxDesc sc.rxHead).toNat = _ :=
    toNat_next_eq_and (k := 9) (by decide) sc.rxHead
  simp only [Softc.view, hnext]
  rfl

section
variable {s : Sys} {sc : Sfc7120.Softc} {w : World} {rs : List Reply}

theorem At.move {pc pc' : Pc} {e : Entry} (h : At s sc w pc rs) :
    At ({ s with pc := pc' }.touch e) sc w pc' rs :=
  ⟨h.inRange, h.softc, h.world, rfl, h.replies⟩

theorem At.consume {pc pc' : Pc} (h : At s sc w pc rs) :
    At { consumeEv s with pc := pc' } (Sfc7120.consumeEv sc w).1 (Sfc7120.consumeEv sc w).2 pc'
      rs := by
  obtain ⟨hrange, rfl, rfl, -, rfl⟩ := h
  exact ⟨⟨inRange_next (by decide : 9 < 32) _, hrange.tx, hrange.rx⟩, view_next_evq s.sc, rfl, rfl,
    rfl⟩

/-- One iteration of the TX poll is one access to an empty entry, or two to one with an event. -/
theorem At.txPoll {t : TxWait} (h : At s sc w (.txRead t) rs) (hagain : t.again = true) :
    ∃ u, Reaches alone s u ∧ At u (txPollIter sc w t).1 (txPollIter sc w t).2.1
      (.txRead (txPollIter sc w t).2.2) rs := by
  have hat := h
  obtain ⟨hrange, rfl, rfl, hpc, rfl⟩ := h
  have hread : alone s .access = some ({ s with
      pc := if evEmpty (s.w.dataEvq s.sc.view.dataEvqReadPtr)
        then .txRead { t with tries := t.tries + 1 }
        else .txZero t (s.w.dataEvq s.sc.view.dataEvqReadPtr) }.touch s.sc.event) := by
    simp only [alone, step, access, hpc, hagain, if_true]
    rfl
  unfold txPollIter
  dsimp only
  by_cases hempty : evEmpty (s.w.dataEvq s.sc.view.dataEvqReadPtr) = true
  · rw [if_pos hempty] at hread ⊢
    exact ⟨_, .step hread (.refl _ _), hat.move⟩
  · rw [if_neg hempty] at hread ⊢
    exact ⟨_, .step hread (.step (a := .access) rfl (.refl _ _)), hat.move.consume⟩

theorem At.txPollLoop {n : ℕ} {t : TxWait} (h : At s sc w (.txRead t) rs)
    (hn : txTries ≤ t.tries + n) :
    ∃ u, Reaches alone s u ∧ (txPollLoop n sc w t).2.2.again = false ∧
      At u (txPollLoop n sc w t).1 (txPollLoop n sc w t).2.1
        (.txRead (txPollLoop n sc w t).2.2) rs := by
  induction n generalizing s sc w t with
  | zero => exact ⟨s, .refl _ _, TxWait.again_eq_false hn, h⟩
  | succ n ih =>
    unfold Sfc7120.txPollLoop
    split_ifs with hagain
    · obtain ⟨v, hiter, hv⟩ := h.txPoll hagain
      have htries := txPollIter_tries sc w t
      obtain ⟨u, hloop, hend⟩ := ih hv (by omega)
      exact ⟨u, hiter.trans hloop, hend⟩
    · exact ⟨s, .refl _ _, by simpa using hagain, h⟩

theorem At.txReturn {t : TxWait} (h : At s sc w (.txRead t) rs) (hagain : t.again = false) :
    ∃ u, Reaches alone s u ∧ At u (txFinish sc t).1 (Sfc7120.ackEvq sc w t.consumed) .idle
      (rs ++ [.tx (txFinish sc t).2]) := by
  obtain ⟨hrange, rfl, rfl, hpc, rfl⟩ := h
  have hreturn : alone s .access = some ({ s with
      w := ackEvq s.sc s.w t.consumed
      sc := { s.sc with txHead := next numTxDesc s.sc.txHead } }.finish
        (.tx (if t.done then none else some .ETIMEDOUT))) := by
    simp only [alone, step, access, hpc, hagain, Bool.false_eq_true, if_false]
  exact ⟨_, .step hreturn (.refl _ _),
    ⟨hrange.evq, inRange_next (by decide : 9 < 32) _, hrange.rx⟩, view_next_tx s.sc,
    ackEvq_view _ _ _, rfl, rfl⟩

theorem At.copyinByte {req : ValidReq} {k : ℕ} (h : At s sc w (.txCopyin req k) rs)
    (hk : k < req.1.length.toNat) (b : Byte) :
    ∃ u, alone s (.copyinByte b) = some u ∧
      At u sc { w with
        mem := writeBytes w.mem (sc.txBufferPaddr.toNat + sc.txHead * txBufferSize + k) [b] }
        (.txCopyin req (k + 1)) rs := by
  obtain ⟨hrange, rfl, rfl, hpc, rfl⟩ := h
  have hbyte : alone s (.copyinByte b) = some ({ s with
      w := { s.w with mem := Function.update s.w.mem (s.sc.txSlotAddr + k) b }
      pc := .txCopyin req (k + 1) }.touch s.sc.txSlot) := by
    simp only [alone, step, hpc, if_pos hk]
  rw [hrange.txSlotAddr_eq, ← writeBytes_singleton] at hbyte
  exact ⟨_, hbyte, hrange, rfl, rfl, rfl, rfl⟩

/-- The copyin, byte by byte. -/
theorem At.copyin {req : ValidReq} {k : ℕ} (h : At s sc w (.txCopyin req k) rs) (bs : List Byte)
    (hk : k + bs.length ≤ req.1.length.toNat) :
    ∃ u, Reaches alone s u ∧
      At u sc { w with
        mem := writeBytes w.mem (sc.txBufferPaddr.toNat + sc.txHead * txBufferSize + k) bs }
        (.txCopyin req (k + bs.length)) rs := by
  induction bs generalizing s w k with
  | nil => exact ⟨s, .refl _ _, by simpa using h⟩
  | cons b bs ih =>
    rw [List.length_cons] at hk
    obtain ⟨v, hbyte, hv⟩ := h.copyinByte (by omega) b
    obtain ⟨u, hrest, hu⟩ := ih hv (by omega)
    refine ⟨u, .step hbyte hrest, ?_⟩
    rw [← List.singleton_append, ← writeBytes_append, List.length_append, ← Nat.add_assoc k]
    exact hu

/-- Once the packet is in: its descriptor, and the doorbell. -/
theorem At.txPost {req : ValidReq} {bytes : List Byte} (h : At s sc w (.txCopyin req 0) rs)
    (hbytes : req.1.length.toNat ≤ bytes.length) :
    ∃ u, Reaches alone s u ∧
      At u sc (txPost sc w (req.1.view bytes)) (.txRead ⟨sc.txHead, 0, false, 0⟩) rs := by
  have hlen : (bytes.take req.1.length.toNat).length = req.1.length.toNat :=
    List.length_take_of_le hbytes
  obtain ⟨v, hcopy, hv⟩ := h.copyin (bytes.take req.1.length.toNat) (by omega)
  obtain ⟨hrange, rfl, hw, hpc, rfl⟩ := hv
  rw [hlen, Nat.zero_add] at hpc
  have hend : alone v (.copyinEnd none) = some { v with pc := .txDesc req } := by
    simp only [alone, step, hpc, if_true]
  have hpa : slotPa v.sc.txBufferPaddr txBufferSize v.sc.txHead =
      Sfc7120.slotPa v.sc.txBufferPaddr txBufferSize v.sc.txHead.toNat :=
    slotPa_view hrange.tx (by decide)
  have hwptr : next numTxDesc v.sc.txHead =
      BitVec.ofNat 32 ((v.sc.txHead.toNat + 1) &&& (numTxDesc - 1)) := by
    have hnext : (next numTxDesc v.sc.txHead).toNat =
        (v.sc.txHead.toNat + 1) &&& (numTxDesc - 1) :=
      toNat_next_eq_and (k := 9) (by decide) v.sc.txHead
    rw [← hnext, BitVec.ofNat_toNat, BitVec.setWidth_eq]
  refine ⟨_, hcopy.trans (.step hend (.step (a := .access) rfl
    (.step (a := .access) rfl (.refl _ _)))), hrange, rfl, ?_, rfl, rfl⟩
  simp only [Sys.touch, hw, hpa, hwptr]
  simp only [Sfc7120.txPost, TxReq.view, BitVec.ofNat_toNat, BitVec.setWidth_eq]
  rfl

theorem At.tx {req : TxReq} {bytes : List Byte} {copyErr : Option Errno} (h : At s sc w .idle rs)
    (hbytes : req.length.toNat ≤ bytes.length) :
    ∃ u, Reaches alone s u ∧
      At u (ioctlTx sc w (req.view bytes) copyErr).1 (ioctlTx sc w (req.view bytes) copyErr).2.1
        .idle (rs ++ [.tx (ioctlTx sc w (req.view bytes) copyErr).2.2]) := by
  unfold ioctlTx
  rw [txValidate_view]
  split
  next e hbad =>
    have hrefused : alone s (.tx req) = some (s.answer (.tx (some e))) := by
      simp [alone, step, hbad]
    exact ⟨_, .step hrefused (.refl _ _), h.inRange, h.softc, h.world, h.pc, by
      rw [Sys.answer, h.replies]⟩
  next e hvalid =>
    have hstart : alone s (.tx req) = some { s with pc := .txCopyin ⟨req, hvalid⟩ 0 } := by
      simp only [alone, step, hvalid, h.pc, dif_pos]
    exact ⟨_, .step hstart (.step (a := .copyinEnd (some e)) rfl (.refl _ _)), h.inRange, h.softc,
      h.world, rfl, by rw [Sys.finish, Sys.answer, h.replies]⟩
  next hvalid =>
    have hstart : alone s (.tx req) = some { s with pc := .txCopyin ⟨req, hvalid⟩ 0 } := by
      simp only [alone, step, hvalid, h.pc, dif_pos]
    have hcopyin : At { s with pc := .txCopyin ⟨req, hvalid⟩ 0 } sc w _ rs :=
      ⟨h.inRange, h.softc, h.world, rfl, h.replies⟩
    obtain ⟨v₁, hpost, hat₁⟩ := hcopyin.txPost hbytes
    obtain ⟨v₂, hpoll, hagain, hat₂⟩ := hat₁.txPollLoop (n := txTries) (by simp)
    obtain ⟨u, hreturn, hu⟩ := hat₂.txReturn hagain
    exact ⟨u, .step hstart (hpost.trans (hpoll.trans hreturn)), hu⟩

/-- One iteration of the RX poll, as for TX. -/
theorem At.rxPoll {r : RxWait} (h : At s sc w (.rxRead r) rs) (hagain : r.again = true) :
    ∃ u, Reaches alone s u ∧ At u (rxPollIter sc w r).1 (rxPollIter sc w r).2.1
      (.rxRead (rxPollIter sc w r).2.2) rs := by
  have hat := h
  obtain ⟨hrange, rfl, rfl, hpc, rfl⟩ := h
  have hread : alone s .access = some ({ s with
      pc := if evEmpty (s.w.dataEvq s.sc.view.dataEvqReadPtr)
        then .rxRead { r with tries := r.tries + 1 }
        else .rxZero r (s.w.dataEvq s.sc.view.dataEvqReadPtr) }.touch s.sc.event) := by
    simp only [alone, step, access, hpc, hagain, if_true]
    rfl
  unfold rxPollIter
  dsimp only
  by_cases hempty : evEmpty (s.w.dataEvq s.sc.view.dataEvqReadPtr) = true
  · rw [if_pos hempty] at hread ⊢
    exact ⟨_, .step hread (.refl _ _), hat.move⟩
  · rw [if_neg hempty] at hread ⊢
    exact ⟨_, .step hread (.step (a := .access) rfl (.refl _ _)), hat.move.consume⟩

theorem At.rxPollLoop {n : ℕ} {r : RxWait} (h : At s sc w (.rxRead r) rs)
    (hn : rxTries ≤ r.tries + n) :
    ∃ u, Reaches alone s u ∧ (rxPollLoop n sc w r).2.2.again = false ∧
      At u (rxPollLoop n sc w r).1 (rxPollLoop n sc w r).2.1
        (.rxRead (rxPollLoop n sc w r).2.2) rs := by
  induction n generalizing s sc w r with
  | zero => exact ⟨s, .refl _ _, RxWait.again_eq_false hn, h⟩
  | succ n ih =>
    unfold Sfc7120.rxPollLoop
    split_ifs with hagain
    · obtain ⟨v, hiter, hv⟩ := h.rxPoll hagain
      have htries := rxPollIter_tries sc w r
      obtain ⟨u, hloop, hend⟩ := ih hv (by omega)
      exact ⟨u, hiter.trans hloop, hend⟩
    · exact ⟨s, .refl _ _, by simpa using hagain, h⟩

theorem At.rxAck {r : RxWait} (h : At s sc w (.rxRead r) rs) (hagain : r.again = false) :
    ∃ u, Reaches alone s u ∧ match r.found with
      | none => At u sc (Sfc7120.ackEvq sc w r.consumed) .idle (rs ++ [.rx (.error .ETIMEDOUT)])
      | some b => At u sc (Sfc7120.ackEvq sc w r.consumed) (.rxLenLow b) rs := by
  obtain ⟨hrange, rfl, rfl, hpc, rfl⟩ := h
  cases hfound : r.found with
  | none =>
    have hack : alone s .access = some (Sys.finish
        { s with w := ackEvq s.sc s.w r.consumed } (.rx (.error .ETIMEDOUT))) := by
      simp only [alone, step, access, hpc, hagain, Bool.false_eq_true, if_false, hfound]
    exact ⟨_, .step hack (.refl _ _), hrange, rfl, ackEvq_view _ _ _, rfl, rfl⟩
  | some b =>
    have hack : alone s .access = some { s with
        w := ackEvq s.sc s.w r.consumed, pc := .rxLenLow b } := by
      simp only [alone, step, access, hpc, hagain, Bool.false_eq_true, if_false, hfound]
    exact ⟨_, .step hack (.refl _ _), hrange, rfl, ackEvq_view _ _ _, rfl, rfl⟩

/-- The two length bytes, read with nobody in between, are those of one prefix. -/
theorem At.rxLengths {b : BitVec 16} (h : At s sc w (.rxLenLow b) rs) :
    ∃ u, Reaches alone s u ∧
      At u sc w (.rxCopyout (slotPlen w.mem
        (sc.rxBufferPaddr.toNat + sc.rxHead * rxBufferSize) b) []) rs := by
  obtain ⟨hrange, rfl, rfl, hpc, rfl⟩ := h
  have hlow : alone s .access = some ({ s with
      pc := .rxLenHigh b (s.w.mem (s.sc.rxSlotAddr + 8)) }.touch s.sc.rxSlot) := by
    simp only [alone, step, access, hpc]
  refine ⟨_, .step hlow (.step (a := .access) rfl (.refl _ _)), hrange, rfl, rfl, ?_, rfl⟩
  rw [← hrange.rxSlotAddr_eq]
  rfl

/-- The copyout, byte by byte. -/
theorem At.copyout {plen k n : ℕ} (hplen : k + n = plen)
    (h : At s sc w (.rxCopyout plen (readBytes w.mem
      (sc.rxBufferPaddr.toNat + sc.rxHead * rxBufferSize + ef10RxPrefixLen) k)) rs) :
    ∃ u, Reaches alone s u ∧
      At u sc w (.rxCopyout plen (readBytes w.mem
        (sc.rxBufferPaddr.toNat + sc.rxHead * rxBufferSize + ef10RxPrefixLen) plen)) rs := by
  induction n generalizing s k with
  | zero => exact ⟨s, .refl _ _, hplen ▸ h⟩
  | succ n ih =>
    obtain ⟨hrange, rfl, rfl, hpc, rfl⟩ := h
    have hlt : k < plen := by omega
    have hbyte : alone s .access = some ({ s with
        pc := .rxCopyout plen (readBytes s.w.mem (s.sc.rxSlotAddr + ef10RxPrefixLen) k ++
          [s.w.mem (s.sc.rxSlotAddr + ef10RxPrefixLen + k)]) }.touch s.sc.rxSlot) := by
      rw [← hrange.rxSlotAddr_eq] at hpc
      simp only [alone, step, access, hpc, readBytes_length, if_pos hlt]
    rw [← readBytes_succ, hrange.rxSlotAddr_eq] at hbyte
    have hnext : At s s.sc.view s.w s.pc s.replies := ⟨hrange, rfl, rfl, rfl, rfl⟩
    obtain ⟨u, hrest, hu⟩ := ih (k := k + 1) (by omega) hnext.move
    exact ⟨u, .step hbyte hrest, hu⟩

/-- After the copy: the descriptor, the doorbell and the head. -/
theorem At.rxRepost {plen : ℕ} {frame : Frame} (hlen : frame.length = plen)
    (h : At s sc w (.rxCopyout plen frame) rs) :
    ∃ u, Reaches alone s u ∧
      At u (rxRepost sc w).1 (rxRepost sc w).2 .idle (rs ++ [.rx (.ok frame)]) := by
  obtain ⟨hrange, rfl, rfl, hpc, rfl⟩ := h
  have hend : alone s (.copyoutEnd none) = some { s with pc := .rxDesc frame } := by
    simp only [alone, step, hpc, if_pos hlen]
  have hpa : slotPa s.sc.rxBufferPaddr rxBufferSize s.sc.rxHead =
      Sfc7120.slotPa s.sc.rxBufferPaddr rxBufferSize s.sc.rxHead.toNat :=
    slotPa_view hrange.rx (by decide)
  refine ⟨_, .step hend (.step (a := .access) rfl (.step (a := .access) rfl (.refl _ _))),
    ⟨hrange.evq, hrange.tx, inRange_next (by decide : 9 < 32) _⟩, view_next_rx s.sc, ?_, rfl, rfl⟩
  simp only [Sys.finish, Sys.answer, Sys.touch, hpa]
  simp only [Sfc7120.rxRepost, Softc.view, rxDesc, BitVec.ofNat_toNat, BitVec.setWidth_eq]

theorem At.rx {copyErr : Option Errno} (h : At s sc w .idle rs) :
    ∃ u, Reaches alone s u ∧
      At u (ioctlRx sc w copyErr).1 (ioctlRx sc w copyErr).2.1 .idle
        (rs ++ [.rx (ioctlRx sc w copyErr).2.2]) := by
  have hstart : alone s .rx = some { s with pc := .rxRead ⟨0, none, 0⟩ } := by
    simp only [alone, step, h.pc]
  have hread : At { s with pc := .rxRead ⟨0, none, 0⟩ } sc w _ rs :=
    ⟨h.inRange, h.softc, h.world, rfl, h.replies⟩
  obtain ⟨v₁, hpoll, hagain, hat₁⟩ := hread.rxPollLoop (n := rxTries) (by simp)
  obtain ⟨v₂, hack, hat₂⟩ := hat₁.rxAck hagain
  have hacked : Reaches alone s v₂ := .step hstart (hpoll.trans hack)
  unfold ioctlRx
  dsimp only
  split
  next hfound =>
    rw [hfound] at hat₂
    exact ⟨v₂, hacked, hat₂⟩
  next b e hfound =>
    rw [hfound] at hat₂
    obtain ⟨v₃, hlen, hat₃⟩ := hat₂.rxLengths
    have hend : alone v₃ (.copyoutEnd (some e)) = some (v₃.finish (.rx (.error e))) := by
      simp only [alone, step, hat₃.pc]
    exact ⟨_, hacked.trans (hlen.trans (.step hend (.refl _ _))), hat₃.inRange, hat₃.softc,
      hat₃.world, rfl, by rw [Sys.finish, Sys.answer, hat₃.replies]⟩
  next b hfound =>
    rw [hfound] at hat₂
    obtain ⟨v₃, hlen, hat₃⟩ := hat₂.rxLengths
    obtain ⟨v₄, hcopy, hat₄⟩ := At.copyout (k := 0) (Nat.zero_add _) hat₃
    obtain ⟨u, hrepost, hu⟩ := hat₄.rxRepost (readBytes_length _ _ _)
    exact ⟨u, hacked.trans (hlen.trans (hcopy.trans hrepost)), hu⟩

theorem At.setEvqRptr (h : At s sc w .idle rs) (req : EvqSyncReq) :
    ∃ u, Reaches alone s u ∧ match Handover.setEvqRptr sc req.view with
      | .error e => At u sc w .idle (rs ++ [.setEvqRptr (some e)])
      | .ok sc' => At u sc' w .idle (rs ++ [.setEvqRptr none]) := by
  obtain ⟨hrange, rfl, rfl, hpc, rfl⟩ := h
  rw [← setEvqRptr_view]
  cases hset : Hostile.setEvqRptr s.sc req with
  | error e =>
    have hrefused : alone s (.setEvqRptr req) = some (s.answer (.setEvqRptr (some e))) := by
      simp only [alone, step, hset]
    exact ⟨_, .step hrefused (.refl _ _), hrange, rfl, rfl, hpc, rfl⟩
  | ok sc' =>
    have hinstalled : alone s (.setEvqRptr req) =
        some ({ s with sc := sc' }.answer (.setEvqRptr none)) := by
      simp only [alone, step, hset, hpc]
    exact ⟨_, .step hinstalled (.refl _ _), .setEvqRptr hset, rfl, rfl, hpc, rfl⟩

end

/-- An ioctl that moves the rings, with what it finds behind the client's pointers. -/
inductive Call where
  | setEvqRptr (req : EvqSyncReq)
  | tx (req : TxReq) (bytes : List Byte) (copyErr : Option Errno)
  | rx (copyErr : Option Errno)

/-- The capability of a transmit request has the bytes that the request asks for. -/
def Call.Backed : Call → Prop
  | .tx req bytes _ => req.length.toNat ≤ bytes.length
  | _ => True

/-- The call on numbers, at once. -/
def Call.exec (c : Call) (sc : Sfc7120.Softc) (w : World) : Sfc7120.Softc × World × Reply :=
  match c with
  | .setEvqRptr req =>
      match Handover.setEvqRptr sc req.view with
      | .error e => (sc, w, .setEvqRptr (some e))
      | .ok sc' => (sc', w, .setEvqRptr none)
  | .tx req bytes copyErr =>
      let r := ioctlTx sc w (req.view bytes) copyErr
      (r.1, r.2.1, .tx r.2.2)
  | .rx copyErr =>
      let r := ioctlRx sc w copyErr
      (r.1, r.2.1, .rx r.2.2)

/-- Whatever a client has done so far, a call that it lets alone is the call on numbers. -/
theorem call_undisturbed {macAddr : List Byte} {viBase : BitVec 32} {txBase rxBase : Word}
    {mem : ℕ → Byte} {as : List Act} {s : Sys} {c : Call}
    (hrun : run step (start macAddr viBase txBase rxBase mem) as = some s) (hidle : s.pc = .idle)
    (hc : c.Backed) :
    ∃ u, Reaches alone s u ∧
      At u (c.exec s.sc.view s.w).1 (c.exec s.sc.view s.w).2.1 .idle
        (s.replies ++ [(c.exec s.sc.view s.w).2.2]) := by
  have hat : At s s.sc.view s.w .idle s.replies := ⟨(inv_run hrun).inRange, rfl, rfl, hidle, rfl⟩
  cases c with
  | setEvqRptr req =>
    obtain ⟨u, hcall, hu⟩ := hat.setEvqRptr req
    refine ⟨u, hcall, ?_⟩
    simp only [Call.exec]
    split at hu
    next => exact hu
    next => exact hu
  | tx req bytes copyErr => exact hat.tx hc
  | rx copyErr => exact hat.rx

end Sfc7120.Hostile

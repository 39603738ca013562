import Sfc7120.DataPath.Kernel

/-! The copy at the end of a receive: the range of the RX buffer it covers, on the kernel and on
the direct path, and what `SFC7120_RX` leaves behind when it fails. -/
namespace Sfc7120

open ByteMemory RingQueue

/-- The address range the handler copies out: its start and its length. -/
def Softc.copyRange (sc : Softc) (w : World) (rxBytes : BitVec 16) : ℕ × ℕ :=
  let slot := sc.rxBufferPaddr.toNat + sc.rxHead * rxBufferSize
  (slot + ef10RxPrefixLen, slotPlen w.mem slot rxBytes)

/-- The same for `sfc7120_rx_recv`. -/
def SfcIf.copyRange (sfc : SfcIf) (w : World) (rxBytes : BitVec 16) : ℕ × ℕ :=
  let slot := sfc.rxBufferPaddr.toNat + sfc.rxHead * rxBufferSize
  (slot + ef10RxPrefixLen, slotPlen w.mem slot rxBytes)

/-- The range lies in slot `head` of the RX buffer, so in the buffer, and fits a receive buffer of
one slot's size. -/
structure InSlot (base head : ℕ) (r : ℕ × ℕ) : Prop where
  start : base + head * rxBufferSize ≤ r.1
  slot : r.1 + r.2 ≤ base + (head + 1) * rxBufferSize
  buffer : r.1 + r.2 ≤ base + numRxDesc * rxBufferSize
  receiver : r.2 ≤ rxBufferSize

/-- The length field of the prefix, as the slot holds it. -/
def lengthField (mem : ℕ → Byte) (slot : ℕ) : ℕ :=
  (mem (slot + 8)).toNat + 256 * (mem (slot + 9)).toNat

/-- Field and event count stay within the slot; the count only matters where the field is zero. -/
def LengthsFit (mem : ℕ → Byte) (slot : ℕ) (rxBytes : BitVec 16) : Prop :=
  lengthField mem slot ≤ rxBufferSize - ef10RxPrefixLen ∧
    (lengthField mem slot = 0 → rxBytes.toNat ≤ rxBufferSize)

theorem slotPlen_le_iff (mem : ℕ → Byte) (slot : ℕ) (rxBytes : BitVec 16) :
    slotPlen mem slot rxBytes ≤ rxBufferSize - ef10RxPrefixLen ↔ LengthsFit mem slot rxBytes := by
  unfold slotPlen LengthsFit lengthField
  dsimp only
  split_ifs <;> simp only [rxBufferSize, ef10RxPrefixLen] at * <;> omega

theorem inSlot_iff {base head plen : ℕ} (hhead : head < numRxDesc) :
    InSlot base head (base + head * rxBufferSize + ef10RxPrefixLen, plen) ↔
      plen ≤ rxBufferSize - ef10RxPrefixLen := by
  simp only [numRxDesc] at hhead
  constructor
  · intro h
    have hslot := h.slot
    simp only [rxBufferSize, ef10RxPrefixLen] at hslot ⊢
    omega
  · intro h
    simp only [rxBufferSize, ef10RxPrefixLen] at h
    constructor <;> simp only [rxBufferSize, ef10RxPrefixLen, numRxDesc] <;> omega

/-- Both receive paths copy inside the slot exactly when the length they find there does. -/
theorem rx_copy_in_slot_iff (w : World) (ev : Word) (rxBytes : BitVec 16) {sc : Softc}
    {sfc : SfcIf} (hsc : sc.rxHead < numRxDesc) (hsfc : sfc.rxHead < numRxDesc) :
    (rxCopyFrame sc w (evRxBytes ev) = readBytes w.mem (sc.copyRange w (evRxBytes ev)).1
        (sc.copyRange w (evRxBytes ev)).2 ∧
      (InSlot sc.rxBufferPaddr.toNat sc.rxHead (sc.copyRange w (evRxBytes ev)) ↔
        LengthsFit w.mem (sc.rxBufferPaddr.toNat + sc.rxHead * rxBufferSize) (evRxBytes ev))) ∧
    (rxRecvCopy sfc w rxBytes = readBytes w.mem (sfc.copyRange w rxBytes).1
        (sfc.copyRange w rxBytes).2 ∧
      (InSlot sfc.rxBufferPaddr.toNat sfc.rxHead (sfc.copyRange w rxBytes) ↔
        LengthsFit w.mem (sfc.rxBufferPaddr.toNat + sfc.rxHead * rxBufferSize) rxBytes)) := by
  refine ⟨⟨rfl, ?_⟩, ⟨rfl, ?_⟩⟩
  · rw [Softc.copyRange, inSlot_iff hsc, slotPlen_le_iff]
  · rw [SfcIf.copyRange, inSlot_iff hsfc, slotPlen_le_iff]

/-- Slot 511 with a 60-byte frame in it: the copy stays inside, on both paths. -/
theorem rx_copy_in_slot_last :
    InSlot 0 511 ((Softc.mk 0 0 0 0 511).copyRange
      (World.fresh fun a => if a = 511 * 2048 + 8 then 60 else 0) (evRxBytes 74)) ∧
    InSlot 0 511 ({ SfcIf.fresh 0 0 with rxHead := 511 }.copyRange
      (World.fresh fun a => if a = 511 * 2048 + 8 then 60 else 0) 74) := by
  have hsc : (Softc.mk 0 0 0 0 511).rxHead < numRxDesc := by decide
  have hsfc : { SfcIf.fresh 0 0 with rxHead := 511 }.rxHead < numRxDesc := by decide
  have h := rx_copy_in_slot_iff (World.fresh fun a => if a = 511 * 2048 + 8 then 60 else 0) 74 74
    hsc hsfc
  have hfits : LengthsFit (World.fresh fun a => if a = 511 * 2048 + 8 then 60 else 0).mem
      (0 + 511 * rxBufferSize) 74 := by
    refine ⟨by decide, fun hzero => absurd hzero (by decide)⟩
  exact ⟨h.1.2.mpr hfits, h.2.2.mpr hfits⟩

/-- A slot whose length field was overwritten with `0xffff`: both paths copy 65535 bytes. -/
theorem rx_copy_past_slot :
    ¬ ∀ (w : World) (ev : Word) (sc : Softc) (sfc : SfcIf), sc.rxHead < numRxDesc →
      sfc.rxHead < numRxDesc →
      InSlot sc.rxBufferPaddr.toNat sc.rxHead (sc.copyRange w (evRxBytes ev)) ∧
        InSlot sfc.rxBufferPaddr.toNat sfc.rxHead (sfc.copyRange w (evRxBytes ev)) := by
  intro h
  have hkernel := (h (World.fresh fun _ => 0xff) 74 ⟨0, 0, 0, 0, 0⟩ (SfcIf.fresh 0 0) (by decide)
    (by decide)).1.receiver
  exact absurd hkernel (by decide)

/-- The events a handler finds in the data EVQ, oldest first. -/
def evqPending (sc : Softc) (w : World) : List Word :=
  pending numEvqEntry evEmpty w.dataEvq sc.dataEvqReadPtr

/-- The RX events among them. -/
def rxPending (sc : Softc) (w : World) : List Word :=
  (evqPending sc w).filter fun ev => evCode ev == 0#32

/-- A failed call lost nothing: the same RX events wait, the slot cursor is where it was, and
where a good buffer would have had a frame from this call, it has the same frame from the next. -/
structure LosesNothing (sc : Softc) (w : World) (sc' : Softc) (w' : World) : Prop where
  events : rxPending sc' w' = rxPending sc w
  head : sc'.rxHead = sc.rxHead
  again : ∀ f, (ioctlRx sc w none).2.2 = .ok f → (ioctlRx sc' w' none).2.2 = .ok f

section
variable {sc : Softc} {w : World}

theorem evqPending_of_empty (hptr : sc.dataEvqReadPtr < numEvqEntry)
    (hev : evEmpty (w.dataEvq sc.dataEvqReadPtr) = true) : evqPending sc w = [] := by
  apply (pending_eq_nil_iff _ _ _ (by decide)).mpr
  rwa [Nat.mod_eq_of_lt hptr]

theorem evqPending_consumeEv (hptr : sc.dataEvqReadPtr < numEvqEntry)
    (hev : evEmpty (w.dataEvq sc.dataEvqReadPtr) = false) :
    evqPending sc w = w.dataEvq sc.dataEvqReadPtr ::
      evqPending (consumeEv sc w).1 (consumeEv sc w).2 := by
  have hmod := Nat.mod_eq_of_lt hptr
  rw [← hmod] at hev
  have hnext := pending_of_present (e := 0) (by decide) hev (by decide)
  rw [hmod] at hnext
  simpa only [evqPending, consumeEv, and_ringMask, pending_mod] using hnext

end

/-- What is left to see when everything before the first RX event has gone. -/
def fromRx (evs : List Word) : List Word := evs.dropWhile fun ev => !(evCode ev == 0#32)

theorem fromRx_cons_of_rx {ev : Word} (evs : List Word) (h : evCode ev = 0#32) :
    fromRx (ev :: evs) = ev :: evs := by simp [fromRx, h]

theorem fromRx_cons_of_other {ev : Word} (evs : List Word) (h : ¬ evCode ev = 0#32) :
    fromRx (ev :: evs) = fromRx evs := by simp [fromRx, h]

/-- The RX poll walks to the first RX event and takes it, or takes all there is. It touches
neither the slots nor the cursor. -/
theorem rxPollLoop_pending {n : ℕ} {sc : Softc} {w : World} {q : RxWait}
    (hptr : sc.dataEvqReadPtr < numEvqEntry) (hfound : q.found = none)
    (htries : q.tries + n ≤ rxTries) (hn : (evqPending sc w).length ≤ n) :
    let r := rxPollLoop n sc w q
    r.1 = { sc with dataEvqReadPtr := r.1.dataEvqReadPtr } ∧
      r.1.dataEvqReadPtr < numEvqEntry ∧ r.2.1.mem = w.mem ∧
      r.2.2.found = (fromRx (evqPending sc w)).head?.map evRxBytes ∧
      evqPending r.1 r.2.1 = (fromRx (evqPending sc w)).tail := by
  induction n generalizing sc w q with
  | zero =>
    have hnil : evqPending sc w = [] := List.length_eq_zero_iff.mp (Nat.le_zero.mp hn)
    refine ⟨rfl, hptr, rfl, ?_, ?_⟩
    · rw [hnil]
      exact hfound
    · rw [hnil]
      exact hnil
  | succ n ih =>
    have hagain : q.again = true := RxWait.again_eq_true (by omega) hfound
    have htries' : q.tries + 1 + n ≤ rxTries := by omega
    simp only [rxPollLoop, hagain, if_true]
    cases hempty : evEmpty (w.dataEvq sc.dataEvqReadPtr) with
    | true =>
      have hnil := evqPending_of_empty hptr hempty
      simp only [rxPollIter, hempty, if_true]
      exact ih hptr hfound htries' (by rw [hnil]; exact Nat.zero_le n)
    | false =>
      have hcons := evqPending_consumeEv hptr hempty
      have hptr' : (consumeEv sc w).1.dataEvqReadPtr < numEvqEntry := by
        simp only [consumeEv, and_ringMask]
        exact Nat.mod_lt _ (by decide)
      simp only [rxPollIter, hempty, Bool.false_eq_true, if_false]
      by_cases hrx : evCode (w.dataEvq sc.dataEvqReadPtr) = 0#32
      · have hstop : rxPollLoop n (consumeEv sc w).1 (consumeEv sc w).2
            ⟨q.tries + 1, some (evRxBytes (w.dataEvq sc.dataEvqReadPtr)), q.consumed + 1⟩ =
            ((consumeEv sc w).1, (consumeEv sc w).2,
              ⟨q.tries + 1, some (evRxBytes (w.dataEvq sc.dataEvqReadPtr)), q.consumed + 1⟩) := by
          cases n <;> simp [rxPollLoop, RxWait.again]
        rw [hcons, fromRx_cons_of_rx _ hrx]
        simp only [hrx, if_true, hstop, List.head?_cons, Option.map_some, List.tail_cons]
        exact ⟨rfl, hptr', rfl, trivial, trivial⟩
      · rw [hcons, fromRx_cons_of_other _ hrx]
        simp only [hrx, if_false]
        rw [hcons, List.length_cons] at hn
        exact ih (q := ⟨q.tries + 1, q.found, q.consumed + 1⟩) hptr' hfound htries' (by omega)

theorem fromRx_head {evs rest : List Word} {ev : Word} (h : fromRx evs = ev :: rest) :
    evCode ev = 0#32 := by
  have hhead := List.head?_dropWhile_not (fun ev => !(evCode ev == 0#32)) evs
  rw [← fromRx, h] at hhead
  simpa using hhead

theorem filter_fromRx (evs : List Word) :
    (fromRx evs).filter (fun ev => evCode ev == 0#32) =
      evs.filter fun ev => evCode ev == 0#32 := by
  induction evs with
  | nil => rfl
  | cons ev evs ih =>
    by_cases hrx : evCode ev = 0#32
    · rw [fromRx_cons_of_rx _ hrx]
    · rw [fromRx_cons_of_other _ hrx, ih, List.filter_cons_of_neg (by simpa using hrx)]

@[simp] theorem ackEvq_mem (sc : Softc) (w : World) (n : ℕ) : (ackEvq sc w n).mem = w.mem := by
  unfold ackEvq
  split_ifs <;> rfl

@[simp] theorem ackEvq_dataEvq (sc : Softc) (w : World) (n : ℕ) :
    (ackEvq sc w n).dataEvq = w.dataEvq := by
  unfold ackEvq
  split_ifs <;> rfl

section
variable {sc : Softc} {w : World}

/-- The handler by the first RX event that waits: without one it times out, with one the copy
decides, and by then the event is gone. -/
theorem ioctlRx_pending (hptr : sc.dataEvqReadPtr < numEvqEntry) :
    ∃ sc' w', sc'.rxHead = sc.rxHead ∧
      evqPending sc' w' = (fromRx (evqPending sc w)).tail ∧
      ∀ copyErr, ioctlRx sc w copyErr =
        match (fromRx (evqPending sc w)).head?, copyErr with
        | none, _ => (sc', w', .error .ETIMEDOUT)
        | some _, some e => (sc', w', .error e)
        | some ev, none =>
            ((rxRepost sc' w').1, (rxRepost sc' w').2, .ok (rxCopyFrame sc w (evRxBytes ev))) := by
  have hlen := pending_length_le numEvqEntry evEmpty w.dataEvq sc.dataEvqReadPtr
  obtain ⟨hsc, -, hmem, hfound, hrest⟩ := rxPollLoop_pending (n := rxTries) (q := ⟨0, none, 0⟩)
    hptr rfl (Nat.zero_add rxTries).le (hlen.trans (by decide))
  unfold ioctlRx
  generalize rxPollLoop rxTries sc w ⟨0, none, 0⟩ = q at *
  have hhead : q.1.rxHead = sc.rxHead := by rw [hsc]
  have hpaddr : q.1.rxBufferPaddr = sc.rxBufferPaddr := by rw [hsc]
  refine ⟨q.1, ackEvq q.1 q.2.1 q.2.2.consumed, hhead, ?_, fun copyErr => ?_⟩
  · simpa only [evqPending, ackEvq_dataEvq] using hrest
  · dsimp only
    rw [hfound]
    cases (fromRx (evqPending sc w)).head? with
    | none => rfl
    | some ev =>
      cases copyErr with
      | some e => rfl
      | none =>
        simp only [Option.map_some, rxCopyFrame, ackEvq_mem, hmem, hhead, hpaddr]

end

/-- A receive that fails loses nothing exactly when it is not the copy that fails, or no RX event
waited. -/
theorem failed_rx_loses_nothing_iff {sc : Softc} {w : World} {copyErr : Option Errno}
    (hptr : sc.dataEvqReadPtr < numEvqEntry) :
    (∀ e sc' w', ioctlRx sc w copyErr = (sc', w', .error e) → LosesNothing sc w sc' w') ↔
      copyErr = none ∨ rxPending sc w = [] := by
  obtain ⟨sc', w', hhead, hrest, hcall⟩ := ioctlRx_pending (w := w) hptr
  have hrx : rxPending sc w = (fromRx (evqPending sc w)).filter fun ev => evCode ev == 0#32 :=
    (filter_fromRx _).symm
  cases hfrom : fromRx (evqPending sc w) with
  | nil =>
    simp only [hfrom, List.head?_nil, List.tail_nil] at hcall hrest
    refine iff_of_true (fun e sc₁ w₁ h => ?_) (.inr (by rw [hrx, hfrom]; rfl))
    rw [hcall] at h
    obtain ⟨rfl, rfl, -⟩ : _ ∧ _ ∧ _ := by simpa using h
    refine ⟨?_, hhead, fun f hf => ?_⟩
    · rw [hrx, hfrom, rxPending, hrest]
    · rw [hcall] at hf
      cases hf
  | cons ev rest =>
    have hcode := fromRx_head hfrom
    simp only [hfrom, List.head?_cons, List.tail_cons] at hcall hrest
    have hwaits : rxPending sc w ≠ [] := by
      rw [hrx, hfrom, List.filter_cons_of_pos (by simpa using hcode)]
      exact List.cons_ne_nil _ _
    cases copyErr with
    | none =>
      refine iff_of_true (fun e sc₁ w₁ h => ?_) (.inl rfl)
      rw [hcall] at h
      simp at h
    | some e =>
      refine iff_of_false (fun h => ?_) (by simp [hwaits])
      -- the event of the frame is behind the read pointer
      have hevents := congrArg List.length (h e sc' w' (hcall _)).events
      rw [hrx, hfrom, List.filter_cons_of_pos (by simpa using hcode), rxPending, hrest] at hevents
      simp at hevents

/-- A data EVQ with one event in it. -/
def World.withEvent (ev : Word) : World :=
  { World.fresh fun _ => 0 with
    dataEvq := Function.update (World.fresh fun _ => 0).dataEvq 0 ev }

/-- A transmit completion is all there is: the call times out and loses nothing, even with a bad
buffer. -/
theorem failed_rx_loses_nothing_no_frame :
    rxPending ⟨0, 0, 0, 0, 0⟩ (.withEvent 0x2000000000000000) = [] ∧
    ∀ e sc' w', ioctlRx ⟨0, 0, 0, 0, 0⟩ (.withEvent 0x2000000000000000) (some .EFAULT) =
      (sc', w', .error e) →
        LosesNothing ⟨0, 0, 0, 0, 0⟩ (.withEvent 0x2000000000000000) sc' w' := by
  have hnone : rxPending ⟨0, 0, 0, 0, 0⟩ (.withEvent 0x2000000000000000) = [] := by decide +kernel
  exact ⟨hnone, (failed_rx_loses_nothing_iff (by decide)).mpr (.inr hnone)⟩

/-- The event of a 60-byte frame waits and the caller's buffer is bad: the event is consumed and
acknowledged, and the frame it stands for was not delivered. -/
theorem failed_rx_loses_event :
    ¬ ∀ (sc : Softc) (w : World) (copyErr : Option Errno) (e : Errno) (sc' : Softc) (w' : World),
      sc.dataEvqReadPtr < numEvqEntry → ioctlRx sc w copyErr = (sc', w', .error e) →
      LosesNothing sc w sc' w' := by
  intro h
  have hfrom : fromRx (evqPending ⟨0, 0, 0, 0, 0⟩ (.withEvent 74)) = [74] := by decide +kernel
  have hptr : (Softc.mk 0 0 0 0 0).dataEvqReadPtr < numEvqEntry := by decide
  obtain ⟨sc', w', -, hrest, hcall⟩ := ioctlRx_pending (w := .withEvent 74) hptr
  rw [hfrom] at hrest hcall
  have hevents := (h _ _ (some .EFAULT) .EFAULT sc' w' (by decide) (hcall _)).events
  rw [rxPending, hrest] at hevents
  exact absurd hevents (by decide +kernel)

end Sfc7120

import Sfc7120.DataPath.User

/-! Two invariants of the shared data path, each indexed by one free-running host cursor: the
RX ring after `n` slots were re-posted, and the data EVQ after `c` events were consumed. The
userspace direct path and the kernel handlers both live on them. -/
namespace Sfc7120

open ByteMemory RingQueue

/-- A slot at bus address `a` holds a frame behind a prefix the NIC may have written. -/
def SlotHolds (mem : ℕ → Byte) (a : ℕ) (frame : Frame) : Prop :=
  ∃ pre, prefixOk pre frame = true ∧
    readBytes mem a (ef10RxPrefixLen + frame.length) = pre ++ frame

/-- Bus address of RX slot `j`. -/
def rxSlotAddr (base : Word) (j : ℕ) : ℕ := base.toNat + j * rxBufferSize

/-- The RX ring when `n` slots have been re-posted since attach: the doorbell stands one slot
behind the next to consume, every descriptor names its own slot, and each frame the host has
not taken back is still in its slot. -/
structure RxRing (base : Word) (w : World) (n : ℕ) : Prop where
  doorbell : w.regs regDataRxDescDbl = some (BitVec.ofNat 32 ((n + 511) % numRxDesc))
  desc : ∀ j < numRxDesc, w.rxRing j = rxDesc base j
  filled : w.accepted.length ≤ n + 511
  fits : ∀ f ∈ w.accepted, ef10RxPrefixLen + f.length ≤ rxBufferSize
  slots : ∀ k (h : k < w.accepted.length), n ≤ k →
    SlotHolds w.mem (rxSlotAddr base (k % numRxDesc)) w.accepted[k]

/-- The byte counts of the RX events among some event words. -/
def rxBytesOf (evs : List Word) : List (BitVec 16) :=
  (evs.filter fun ev => evCode ev = 0#32).map evRxBytes

/-- The data EVQ when `c` events have been consumed since attach, and the RX events in it: one
per accepted frame, in order, with the frame's length. -/
structure EvqView (w : World) (c : ℕ) : Prop where
  ring : Holds numEvqEntry (fun ev => evEmpty ev = true) w.dataEvq w.evLog c
  present : ∀ ev ∈ w.evLog, evEmpty ev = false
  acked : w.evqAcked ≤ c
  room : w.evLog.length ≤ w.evqAcked + numEvqEntry
  rxEvents : w.rxEvents ≤ w.accepted.length
  reports : (rxBytesOf w.evLog).map BitVec.toNat =
    (w.accepted.take w.rxEvents).map fun f => ef10RxPrefixLen + f.length

theorem foldl_update_range {α : Type*} (f : ℕ → α) (n : ℕ) (g : ℕ → α) (j : ℕ) :
    (List.range n).foldl (fun r i => Function.update r i (f i)) g j =
      if j < n then f j else g j := by
  induction n with
  | zero => simp
  | succ n ih =>
    rw [List.range_succ, List.foldl_append]
    by_cases hj : j = n
    · simp [hj]
    · have hlt : j < n + 1 ↔ j < n := by omega
      simp [hj, ih, hlt]

theorem rxRing_start (base : Word) (mem : ℕ → Byte) :
    RxRing base (postRxBuffers base (World.fresh mem)) 0 where
  doorbell := by simp [postRxBuffers, World.writeReg, numRxDesc]
  desc j hj := by
    simp only [postRxBuffers, World.writeReg]
    rw [foldl_update_range, if_pos hj]
  filled := by simp [postRxBuffers, World.writeReg, World.fresh]
  fits := by simp [postRxBuffers, World.writeReg, World.fresh]
  slots := by simp [postRxBuffers, World.writeReg, World.fresh]

theorem evqView_start (base : Word) (mem : ℕ → Byte) :
    EvqView (postRxBuffers base (World.fresh mem)) 0 where
  ring := Holds.init fun j _ => by simp [postRxBuffers, World.writeReg, World.fresh, evEmpty]
  present := by simp [postRxBuffers, World.writeReg, World.fresh]
  acked := le_rfl
  room := by simp [postRxBuffers, World.writeReg, World.fresh]
  rxEvents := le_rfl
  reports := rfl

theorem rxSlotAddr_desc {base : Word} (hbase : base.toNat + numRxDesc * rxBufferSize ≤ 2 ^ 48)
    {j : ℕ} (hj : j < numRxDesc) :
    (descAddr (rxDesc base j)).toNat = rxSlotAddr base j ∧
      (descBytes (rxDesc base j)).toNat = rxBufferSize := by
  have hpa := slotPa_toNat hbase hj
  have hlt : (slotPa base rxBufferSize j).toNat < 2 ^ 48 := by
    rw [hpa]
    simp only [numRxDesc, rxBufferSize] at *
    omega
  constructor
  · rw [rxDesc, descAddr_kernDesc hlt, hpa, rxSlotAddr]
  · rw [rxDesc, descBytes_kernDesc (by decide)]
    rfl

/-- A slot's frame is what the receive code copies out of it, in either prefix mode. -/
theorem SlotHolds.copy {mem : ℕ → Byte} {a : ℕ} {f : Frame} (h : SlotHolds mem a f)
    {b : BitVec 16} (hb : b.toNat = ef10RxPrefixLen + f.length) :
    readBytes mem (a + ef10RxPrefixLen) (slotPlen mem a b) = f := by
  obtain ⟨pre, hok, hread⟩ := h
  simp only [prefixOk, Bool.and_eq_true, Bool.or_eq_true, beq_iff_eq] at hok
  obtain ⟨hlen, hplen⟩ := hok
  have hbyte (i : ℕ) (hi : i < ef10RxPrefixLen) : mem (a + i) = pre.getD i 0 := by
    have hget := congrArg (fun l => l.getD i 0) hread
    have hir : i < ef10RxPrefixLen + f.length := by omega
    simpa [readBytes, hir, hlen ▸ hi, List.getElem?_append] using hget
  have hplen_eq : slotPlen mem a b = f.length := by
    have hpre : (mem (a + 8)).toNat + 256 * (mem (a + 9)).toNat = prefixLen pre := by
      rw [hbyte 8 (by decide), hbyte 9 (by decide), prefixLen]
    simp only [slotPlen, hpre]
    split_ifs <;> omega
  have hdrop : (readBytes mem a (ef10RxPrefixLen + f.length)).drop ef10RxPrefixLen = f := by
    rw [hread, ← hlen, List.drop_left]
  rw [drop_readBytes, Nat.add_sub_cancel_left] at hdrop
  rw [hplen_eq]
  exact hdrop

theorem SlotHolds.congr {mem mem' : ℕ → Byte} {a : ℕ} {f : Frame} (h : SlotHolds mem a f)
    (heq : ∀ i < ef10RxPrefixLen + f.length, mem' (a + i) = mem (a + i)) :
    SlotHolds mem' a f := by
  obtain ⟨pre, hok, hread⟩ := h
  exact ⟨pre, hok, (readBytes_congr heq).trans hread⟩

/-- RX slots `j` and `k` share no byte. -/
theorem rxSlotAddr_disjoint {base : Word} {j k i l : ℕ} (hjk : j ≠ k) (hi : i < rxBufferSize)
    (hl : l ≤ rxBufferSize) :
    rxSlotAddr base k + i < rxSlotAddr base j ∨ rxSlotAddr base j + l ≤ rxSlotAddr base k + i := by
  simp only [rxSlotAddr, rxBufferSize] at *
  rcases Nat.lt_or_gt_of_ne hjk with h | h <;> omega

theorem RxRing.congr {base : Word} {w u : World} {n : ℕ} (h : RxRing base w n)
    (hregs : u.regs regDataRxDescDbl = w.regs regDataRxDescDbl) (hring : u.rxRing = w.rxRing)
    (hacc : u.accepted = w.accepted)
    (hmem : ∀ j < numRxDesc, ∀ i < rxBufferSize,
      u.mem (rxSlotAddr base j + i) = w.mem (rxSlotAddr base j + i)) : RxRing base u n where
  doorbell := hregs.trans h.doorbell
  desc := hring ▸ h.desc
  filled := hacc ▸ h.filled
  fits := hacc ▸ h.fits
  slots k hk hn := by
    simp only [hacc] at hk ⊢
    refine (h.slots k hk hn).congr fun i hi => ?_
    have hfit := h.fits _ (List.getElem_mem hk)
    exact hmem _ (Nat.mod_lt _ (by decide)) i (by omega)

/-- The NIC only fills a slot the host has given back, and no other byte of the RX buffer
changes. -/
theorem RxRing.nicRxFill {base : Word} {w u : World} {n : ℕ} {pre : List Byte} {frame : Frame}
    (h : RxRing base w n) (hbase : base.toNat + numRxDesc * rxBufferSize ≤ 2 ^ 48)
    (hfill : w.nicRxFill pre frame = some u) :
    w.accepted.length < n + 511 ∧ RxRing base u n ∧
      ∀ k < numRxDesc, k ≠ w.accepted.length % numRxDesc → ∀ i < rxBufferSize,
        u.mem (rxSlotAddr base k + i) = w.mem (rxSlotAddr base k + i) := by
  have hj : w.accepted.length % numRxDesc < numRxDesc := Nat.mod_lt _ (by decide)
  obtain ⟨haddr, hcap⟩ := rxSlotAddr_desc hbase hj
  simp only [World.nicRxFill, h.desc _ hj, haddr, hcap] at hfill
  split_ifs at hfill with hguard
  obtain ⟨havail, hok, hfit⟩ := hguard
  obtain rfl := Option.some.inj hfill
  have hroom : w.accepted.length < n + 511 := by
    have hfilled := h.filled
    simp only [World.rxAvail, h.doorbell, numRxDesc, BitVec.toNat_ofNat] at havail
    omega
  have hlen : (pre ++ frame).length = ef10RxPrefixLen + frame.length := by
    simp only [prefixOk, Bool.and_eq_true, beq_iff_eq] at hok
    simp [hok.1]
  have hother : ∀ k < numRxDesc, k ≠ w.accepted.length % numRxDesc → ∀ i < rxBufferSize,
      writeBytes w.mem (rxSlotAddr base (w.accepted.length % numRxDesc)) (pre ++ frame)
        (rxSlotAddr base k + i) = w.mem (rxSlotAddr base k + i) := by
    intro k _ hne i hi
    exact writeBytes_outside (hlen ▸ rxSlotAddr_disjoint (Ne.symm hne) hi hfit)
  refine ⟨hroom, ⟨h.doorbell, h.desc, ?_, ?_, ?_⟩, hother⟩
  · simp only [List.length_append, List.length_singleton]
    omega
  · intro f hf
    rcases List.mem_append.mp hf with hf | hf
    · exact h.fits f hf
    · obtain rfl := List.mem_singleton.mp hf
      exact hfit
  · intro k hk hn
    simp only [List.length_append, List.length_singleton] at hk
    rcases Nat.lt_or_ge k w.accepted.length with hlt | hge
    · -- an older frame: its slot is another one, so its bytes stay
      have hne := mod_ne_of_lt numRxDesc hlt (by simp only [numRxDesc]; omega)
      simp only [List.getElem_append_left hlt]
      refine (h.slots k hlt hn).congr fun i hi => ?_
      have hf := h.fits _ (List.getElem_mem hlt)
      exact hother _ (Nat.mod_lt _ (by decide)) hne i (by omega)
    · obtain rfl : k = w.accepted.length := by omega
      simp only [List.getElem_append_right le_rfl, Nat.sub_self, List.getElem_singleton]
      refine ⟨pre, hok, ?_⟩
      rw [← hlen]
      exact readBytes_writeBytes_self _ _ _

/-- Writing a slot's own descriptor back changes nothing. -/
theorem RxRing.repost {base : Word} {w : World} {n j : ℕ} (h : RxRing base w n) :
    RxRing base { w with rxRing := Function.update w.rxRing j (rxDesc base j) } n where
  doorbell := h.doorbell
  desc k hk := by
    by_cases hkj : k = j
    · simp [hkj]
    · simpa [hkj] using h.desc k hk
  filled := h.filled
  fits := h.fits
  slots := h.slots

/-- Ringing the doorbell with the slot just re-posted gives the NIC one more slot: the one
before it. -/
theorem RxRing.ring {base : Word} {w : World} {n : ℕ} (h : RxRing base w n) :
    RxRing base (w.writeReg regDataRxDescDbl (BitVec.ofNat 32 (n % numRxDesc))) (n + 1) where
  doorbell := by
    have : (n + 1 + 511) % numRxDesc = n % numRxDesc := by
      simp only [numRxDesc]
      omega
    simp [World.writeReg, this]
  desc := h.desc
  filled := by
    have := h.filled
    show w.accepted.length ≤ n + 1 + 511
    omega
  fits := h.fits
  slots k hk hn := h.slots k hk (by omega)

/-- What `postEvent` leaves alone, and the room it needs. -/
theorem World.postEvent_eq {w u : World} {ev : Word} (h : w.postEvent ev = some u) :
    w.evLog.length < w.evqAcked + numEvqEntry ∧
      u = { w with
        dataEvq := Function.update w.dataEvq (w.evLog.length % numEvqEntry) ev
        evLog := w.evLog ++ [ev] } := by
  unfold World.postEvent at h
  split_ifs at h with hroom
  refine ⟨?_, (Option.some.inj h).symm⟩
  have : 0 < numEvqEntry := by decide
  omega

theorem World.nicRxEvent_eq {w u : World} {ev : Word} (h : w.nicRxEvent ev = some u) :
    ∃ frame v, w.accepted[w.rxEvents]? = some frame ∧ evCode ev = 0#32 ∧
      (evRxBytes ev).toNat = ef10RxPrefixLen + frame.length ∧
      w.postEvent ev = some v ∧ u = { v with rxEvents := v.rxEvents + 1 } := by
  unfold World.nicRxEvent at h
  split at h
  · cases h
  next frame hframe =>
    split_ifs at h with hev
    obtain ⟨v, hv, rfl⟩ := Option.map_eq_some_iff.mp h
    exact ⟨frame, v, hframe, hev.1, hev.2, hv, rfl⟩

theorem World.nicRxFill_eq {w u : World} {pre : List Byte} {frame : Frame}
    (h : w.nicRxFill pre frame = some u) :
    ∃ mem, u = { w with mem := mem, accepted := w.accepted ++ [frame] } := by
  simp only [World.nicRxFill] at h
  split_ifs at h
  exact ⟨_, (Option.some.inj h).symm⟩

theorem RxRing.nicRxEvent {base : Word} {w u : World} {n : ℕ} {ev : Word}
    (h : RxRing base w n) (hev : w.nicRxEvent ev = some u) : RxRing base u n := by
  obtain ⟨frame, v, -, -, -, hpost, rfl⟩ := World.nicRxEvent_eq hev
  obtain ⟨-, rfl⟩ := World.postEvent_eq hpost
  exact h.congr rfl rfl rfl fun _ _ _ _ => rfl

theorem RxRing.postEvent {base : Word} {w u : World} {n : ℕ} {ev : Word}
    (h : RxRing base w n) (hev : w.postEvent ev = some u) : RxRing base u n := by
  obtain ⟨-, rfl⟩ := World.postEvent_eq hev
  exact h.congr rfl rfl rfl fun _ _ _ _ => rfl

theorem rxBytesOf_append (evs : List Word) (ev : Word) :
    rxBytesOf (evs ++ [ev]) = rxBytesOf evs ++ if evCode ev = 0#32 then [evRxBytes ev] else [] := by
  by_cases h : evCode ev = 0#32 <;> simp [rxBytesOf, List.filter_append, h]

/-- A word that looks like an RX event is never one of the two empty markers. -/
theorem evEmpty_of_rx {ev : Word} (hcode : evCode ev = 0#32) (hlen : 0 < (evRxBytes ev).toNat) :
    evEmpty ev = false := by
  rw [Bool.eq_false_iff]
  intro hempty
  rcases (evEmpty_iff ev).mp hempty with rfl | rfl
  · exact absurd hcode (by decide)
  · exact absurd hlen (by decide)

theorem evEmpty_of_tx {ev : Word} (hcode : evCode ev = 2#32) : evEmpty ev = false := by
  rw [Bool.eq_false_iff]
  intro hempty
  rcases (evEmpty_iff ev).mp hempty with rfl | rfl
  · exact absurd hcode (by decide)
  · exact absurd hcode (by decide)

theorem EvqView.congr {w u : World} {c : ℕ} (h : EvqView w c) (hevq : u.dataEvq = w.dataEvq)
    (hlog : u.evLog = w.evLog) (hack : u.evqAcked = w.evqAcked)
    (hrx : u.rxEvents = w.rxEvents) (hacc : u.accepted = w.accepted) : EvqView u c where
  ring := by rw [hevq, hlog]; exact h.ring
  present := hlog ▸ h.present
  acked := hack ▸ h.acked
  room := by rw [hlog, hack]; exact h.room
  rxEvents := by rw [hrx, hacc]; exact h.rxEvents
  reports := by rw [hlog, hrx, hacc]; exact h.reports

theorem EvqView.nicRxFill {w u : World} {c : ℕ} {pre : List Byte} {frame : Frame}
    (h : EvqView w c) (hfill : w.nicRxFill pre frame = some u) : EvqView u c := by
  obtain ⟨mem, rfl⟩ := World.nicRxFill_eq hfill
  refine ⟨h.ring, h.present, h.acked, h.room, ?_, ?_⟩
  · simpa using h.rxEvents.trans (Nat.le_succ _)
  · simpa [List.take_append_of_le_length h.rxEvents] using h.reports

/-- The part of an event write that does not depend on what the event says. -/
theorem EvqView.push {w u : World} {c : ℕ} {ev : Word} (h : EvqView w c)
    (hpost : w.postEvent ev = some u) :
    Holds numEvqEntry (fun ev => evEmpty ev = true) u.dataEvq u.evLog c ∧
      u.evqAcked ≤ c ∧ u.evLog.length ≤ u.evqAcked + numEvqEntry := by
  obtain ⟨hroom, rfl⟩ := World.postEvent_eq hpost
  have hack := h.acked
  refine ⟨h.ring.push (by omega) ev, hack, ?_⟩
  simp only [List.length_append, List.length_singleton]
  omega

theorem EvqView.postEvent {w u : World} {c : ℕ} {ev : Word} (h : EvqView w c)
    (hcode : evCode ev ≠ 0#32) (hev : evEmpty ev = false) (hpost : w.postEvent ev = some u) :
    EvqView u c := by
  obtain ⟨hring, hack, hroom⟩ := h.push hpost
  obtain ⟨-, rfl⟩ := World.postEvent_eq hpost
  refine ⟨hring, ?_, hack, hroom, h.rxEvents, ?_⟩
  · intro e he
    rcases List.mem_append.mp he with he | he
    · exact h.present e he
    · rwa [List.mem_singleton.mp he]
  · simpa [rxBytesOf_append, hcode] using h.reports

theorem EvqView.nicRxEvent {w u : World} {c : ℕ} {ev : Word} (h : EvqView w c)
    (hev : w.nicRxEvent ev = some u) : EvqView u c := by
  obtain ⟨frame, v, hframe, hcode, hbytes, hpost, rfl⟩ := World.nicRxEvent_eq hev
  obtain ⟨hring, hack, hroom⟩ := h.push hpost
  obtain ⟨-, rfl⟩ := World.postEvent_eq hpost
  obtain ⟨hlt, hget⟩ := List.getElem?_eq_some_iff.mp hframe
  refine ⟨hring, ?_, hack, hroom, hlt, ?_⟩
  · intro e he
    rcases List.mem_append.mp he with he | he
    · exact h.present e he
    · rw [List.mem_singleton.mp he]
      exact evEmpty_of_rx hcode (by rw [hbytes, ef10RxPrefixLen]; omega)
  · have htake : w.accepted.take (w.rxEvents + 1) = w.accepted.take w.rxEvents ++ [frame] := by
      rw [List.take_add_one, hframe]
      rfl
    simp only [rxBytesOf_append, hcode, if_true, List.map_append, htake, h.reports,
      List.map_cons, List.map_nil, hbytes]

/-- A present event at the read pointer is the oldest unconsumed one; taking it frees its slot
and nothing else. -/
theorem EvqView.consume {w : World} {c : ℕ} (h : EvqView w c)
    (hev : evEmpty (w.dataEvq (c % numEvqEntry)) = false) :
    ∃ hc : c < w.evLog.length, w.dataEvq (c % numEvqEntry) = w.evLog[c] ∧
      EvqView { w with dataEvq := Function.update w.dataEvq (c % numEvqEntry) 0 } (c + 1) := by
  have hc : c < w.evLog.length := by
    refine (h.ring.not_empty_iff (by decide) fun ev hmem => ?_).mp (by simp [hev])
    simp [h.present ev hmem]
  exact ⟨hc, h.ring.head_eq hc, h.ring.pop hc (by decide), h.present,
    h.acked.trans (Nat.le_succ c), h.room, h.rxEvents, h.reports⟩

/-- The bytes the receive code copies for RX event `n` are frame `n`, as long as `n` is the next
slot to take back. -/
theorem EvqView.frame_of_report {base : Word} {w : World} {c n : ℕ} {b : BitVec 16}
    (h : EvqView w c) (hrx : RxRing base w n) (hb : (rxBytesOf w.evLog)[n]? = some b) :
    w.accepted[n]? = some (readBytes w.mem (rxSlotAddr base (n % numRxDesc) + ef10RxPrefixLen)
      (slotPlen w.mem (rxSlotAddr base (n % numRxDesc)) b)) := by
  have hrep := congrArg (fun l => l[n]?) h.reports
  simp only [List.getElem?_map, hb, Option.map_some] at hrep
  obtain ⟨f, hf, hbytes⟩ := Option.map_eq_some_iff.mp hrep.symm
  have hfa : w.accepted[n]? = some f := by
    rw [List.getElem?_take] at hf
    split_ifs at hf
    exact hf
  obtain ⟨hlt, hfe⟩ := List.getElem?_eq_some_iff.mp hfa
  have hslot := hrx.slots _ hlt le_rfl
  rw [hfe] at hslot
  rw [hfa, hslot.copy hbytes.symm]

/-- The RX events consumed so far are the first ones written. -/
theorem rxBytesOf_take_isPrefix (log : List Word) (c : ℕ) :
    rxBytesOf (log.take c) <+: rxBytesOf log := by
  have hpre : log.take c <+: log := List.take_prefix c log
  exact (hpre.filter _).map _

theorem rxBytesOf_take_succ {log : List Word} {c : ℕ} (hc : c < log.length) :
    rxBytesOf (log.take (c + 1)) =
      rxBytesOf (log.take c) ++ if evCode log[c] = 0#32 then [evRxBytes log[c]] else [] := by
  rw [List.take_add_one, List.getElem?_eq_getElem hc, Option.toList_some, rxBytesOf_append]

/-- Acknowledging the read pointer after at least one event was consumed tells the NIC the
exact number consumed, although the doorbell only carries it modulo the ring. -/
theorem EvqView.ack {w : World} {c : ℕ} (h : EvqView w c) (hc : w.evqAcked < c) :
    (w.writeReg regDataEvqRptrDbl (BitVec.ofNat 32 (c % numEvqEntry))).evqAcked = c ∧
      EvqView (w.writeReg regDataEvqRptrDbl (BitVec.ofNat 32 (c % numEvqEntry))) c := by
  have hle := h.ring.read_le
  have hroom := h.room
  have hacked : (w.writeReg regDataEvqRptrDbl (BitVec.ofNat 32 (c % numEvqEntry))).evqAcked =
      c := by
    simp only [World.writeReg, if_true]
    rw [unacked_eq hle (by omega)]
    omega
  exact ⟨hacked, h.ring, h.present, hacked.le,
    by rw [hacked]; exact h.ring.within, h.rxEvents, h.reports⟩

end Sfc7120

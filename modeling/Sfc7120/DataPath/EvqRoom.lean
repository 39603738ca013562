import Sfc7120.DataPath.Rings
import Sfc7120.DataPath.Handover

/-! Whether the data EVQ can overflow. Its 512 slots take one event for every received frame and
one for every completed send. The RX doorbell exposes at most 511 slots at a time, but nothing in
the direct path makes a post or a recycled slot wait for `sfc7120_poll`, so the bound is the
application's to keep. The NIC here writes its events whether or not there is room. -/
namespace Sfc7120.EvqRoom

open ByteMemory Machine RingQueue

inductive Act where
  | host (a : Handover.Act)
  | fill (pre : List Byte) (frame : Frame)
  | rxEvent (ev : Word)
  | txDone (ev : Word)

/-- The application keeps to the direct path. -/
def follows : Handover.Act → Bool
  | .initCall _ _ mode => mode == .direct
  | .nic _ => false
  | _ => true

/-- Steps of the application, at most 511 descriptors posted and not completed, and of a NIC that
writes one event for each frame and each completed descriptor. -/
def step (s : Handover.Sys) : Act → Option Handover.Sys
  | .host a =>
      if follows a then
        match Handover.step s a with
        | none => none
        | some t => if t.posted ≤ t.w.txFetched + (numTxDesc - 1) then some t else none
      else none
  | .fill pre frame =>
      match s.w.nicRxFill pre frame with
      | none => none
      | some w => some { s with w := w }
  | .rxEvent ev =>
      match s.w.accepted[s.w.rxEvents]? with
      | none => none
      | some frame =>
          if evCode ev = 0#32 ∧ (evRxBytes ev).toNat = ef10RxPrefixLen + frame.length then
            some { s with w := { s.w.writeEvent ev with rxEvents := s.w.rxEvents + 1 } }
          else none
  | .txDone ev =>
      if s.w.txPending = true ∧ evCode ev = 2#32 ∧
          (evTxDescIdx ev).toNat = s.w.txFetched % 2 ^ 16 then
        some { s with w := { s.w.writeEvent ev with txFetched := s.w.txFetched + 1 } }
      else none

/-- Events written and not acknowledged through the RPTR doorbell. -/
def unacked (s : Handover.Sys) : ℕ := s.w.evLog.length - s.w.evqAcked

/-- A packet is posted, or a slot recycled, only when every earlier one has been paid for by an
event that `sfc7120_poll` has acknowledged. -/
def Credit (s : Handover.Sys) : Act → Prop
  | .host (.callPost _ len) =>
      txPostReady s.sfc len = true → s.posted + s.reposted ≤ s.w.evqAcked
  | .host .callRecv => rxRecvReady s.sfc = true → s.posted + s.reposted ≤ s.w.evqAcked
  | _ => True

/-- The session uses the ioctls. -/
def onKernel : Handover.Pc → Bool
  | .ready .ioctl => true
  | .txWait _ => true
  | .rxWait _ => true
  | .rxCopy _ => true
  | .rxRepost => true
  | _ => false

/-- A post or a receive in progress has yet to ring its doorbell. -/
def owing : Handover.Pc → ℕ
  | .recvCopied => 1
  | .recvPosted => 1
  | .postCopied _ => 1
  | .postDescribed => 1
  | _ => 0

/-- Frames are bounded by the slots the doorbell has shown, completions by the posts, and both
together by what has been acknowledged. -/
structure Inv (s : Handover.Sys) : Prop where
  host : Handover.Inv s
  direct : onKernel s.pc = false
  queue : Holds numEvqEntry (fun ev => evEmpty ev = true) s.w.dataEvq s.w.evLog s.consumed
  present : ∀ ev ∈ s.w.evLog, evEmpty ev = false
  acked : s.w.evqAcked + s.pc.unacked = s.consumed
  events : s.w.evLog.length = s.w.rxEvents + s.w.txFetched
  reported : s.w.rxEvents ≤ s.w.accepted.length
  filled : s.w.accepted.length ≤ s.reposted + (numRxDesc - 1)
  fetched : s.w.txFetched ≤ s.posted
  outstanding : s.posted ≤ s.w.txFetched + (numTxDesc - 1)
  credit : s.posted + s.reposted + owing s.pc ≤ s.w.evqAcked + 1

theorem inv_start (viBase : ℕ) (txBase rxBase : Word) (mem : ℕ → Byte) :
    Inv (Handover.start viBase txBase rxBase mem) where
  host := Handover.inv_start viBase txBase rxBase mem
  direct := rfl
  queue := Holds.init fun _ _ => rfl
  present ev hev := by cases hev
  acked := rfl
  events := rfl
  reported := le_rfl
  filled := Nat.zero_le _
  fetched := le_rfl
  outstanding := Nat.zero_le _
  credit := Nat.zero_le _

section
variable {s t : Handover.Sys}

/-- The two producers together: the slots the doorbell has shown, and the sends. -/
theorem Inv.accepted_add_posted_le (h : Inv s) :
    s.w.accepted.length + s.posted ≤ s.w.evqAcked + numEvqEntry := by
  have hfilled := h.filled
  have hcredit := h.credit
  simp only [numRxDesc, numEvqEntry] at *
  omega

theorem Inv.room (h : Inv s) : s.w.evLog.length ≤ s.w.evqAcked + numEvqEntry := by
  have hevents := h.events
  have hreported := h.reported
  have hfetched := h.fetched
  have htotal := h.accepted_add_posted_le
  omega

/-- Queue and counters of the NIC are as they were. -/
structure SameNic (w u : World) : Prop where
  dataEvq : u.dataEvq = w.dataEvq
  evLog : u.evLog = w.evLog
  evqAcked : u.evqAcked = w.evqAcked
  accepted : u.accepted = w.accepted
  rxEvents : u.rxEvents = w.rxEvents
  txFetched : u.txFetched = w.txFetched

theorem SameNic.refl (w : World) : SameNic w w := ⟨rfl, rfl, rfl, rfl, rfl, rfl⟩

/-- Doorbells other than RPTR leave them. -/
theorem SameNic.writeReg {w u : World} (h : SameNic w u) {off : ℕ}
    (hoff : off ≠ regDataEvqRptrDbl) (v : BitVec 32) : SameNic w (u.writeReg off v) :=
  ⟨h.dataEvq, h.evLog, (World.writeReg_evqAcked_of_ne _ hoff v).trans h.evqAcked, h.accepted,
    h.rxEvents, h.txFetched⟩

/-- A step of a call that neither reads the queue nor acknowledges. -/
theorem Inv.frame (h : Inv s) (hhost : Handover.Inv t) (hdirect : onKernel t.pc = false)
    (hnic : SameNic s.w t.w) (hconsumed : t.consumed = s.consumed)
    (hunacked : t.pc.unacked = s.pc.unacked) (hreposted : s.reposted ≤ t.reposted)
    (hposted : s.posted ≤ t.posted) (hout : t.posted ≤ t.w.txFetched + (numTxDesc - 1))
    (hcredit : t.posted + t.reposted + owing t.pc ≤ s.w.evqAcked + 1) : Inv t := by
  refine ⟨hhost, hdirect, ?_, ?_, ?_, ?_, ?_, ?_, ?_, hout, ?_⟩
  · rw [hnic.dataEvq, hnic.evLog, hconsumed]
    exact h.queue
  · rw [hnic.evLog]
    exact h.present
  · rw [hnic.evqAcked, hunacked, hconsumed]
    exact h.acked
  · rw [hnic.evLog, hnic.rxEvents, hnic.txFetched]
    exact h.events
  · rw [hnic.rxEvents, hnic.accepted]
    exact h.reported
  · rw [hnic.accepted]
    exact h.filled.trans (Nat.add_le_add_right hreposted _)
  · rw [hnic.txFetched]
    exact h.fetched.trans hposted
  · rw [hnic.evqAcked]
    exact hcredit

/-- The same, where the totals stay. -/
theorem Inv.quiet (h : Inv s) (hhost : Handover.Inv t) (hdirect : onKernel t.pc = false)
    (hnic : SameNic s.w t.w) (hconsumed : t.consumed = s.consumed)
    (hunacked : t.pc.unacked = s.pc.unacked) (hreposted : t.reposted = s.reposted)
    (hposted : t.posted = s.posted) (howing : owing t.pc ≤ owing s.pc) : Inv t := by
  have hout := h.outstanding
  have hcredit := h.credit
  refine h.frame hhost hdirect hnic hconsumed hunacked hreposted.ge hposted.ge ?_ ?_
  · rw [hposted, hnic.txFetched]
    exact hout
  · omega

/-- `sfc7120_poll` reads one event. -/
theorem Inv.pollTake (h : Inv s) {room n : ℕ} (hpc : s.pc = .polling (room + 1) n) {ev : Ev}
    {sfc : SfcIf} {w : World} (hiter : pollIter s.sfc s.w = some (ev, sfc, w))
    (hhost : Handover.Inv { s with
      w := w, sfc := sfc, pc := .polling room (n + 1), consumed := s.consumed + 1 }) :
    Inv { s with
      w := w, sfc := sfc, pc := .polling room (n + 1), consumed := s.consumed + 1 } := by
  have hptr : s.sfc.evqReadPtr = s.consumed % numEvqEntry :=
    (h.host.userSynced (by simp [hpc, Handover.Pc.direct])).evq
  simp only [pollIter] at hiter
  split_ifs at hiter with hev
  obtain ⟨rfl, rfl, rfl⟩ : _ ∧ _ ∧ _ := by simpa using hiter
  have hlt : s.consumed < s.w.evLog.length := by
    refine (h.queue.not_empty_iff (by decide) fun ev hmem => ?_).mp ?_
    · simp [h.present ev hmem]
    · rwa [← hptr]
  have hacked := h.acked
  have hcredit := h.credit
  rw [hpc] at hacked hcredit
  refine ⟨hhost, rfl, ?_, h.present, ?_, h.events, h.reported, h.filled, h.fetched,
    h.outstanding, hcredit⟩
  · rw [hptr]
    exact h.queue.pop hlt (by decide)
  · simp only [Handover.Pc.unacked] at hacked ⊢
    omega

/-- `sfc7120_poll` acknowledges what it read. -/
theorem Inv.pollReturn (h : Inv s) {n : ℕ} (hpc : s.pc = .acking n)
    (hhost : Handover.Inv { s with w := pollAck s.sfc s.w n, pc := .ready .direct }) :
    Inv { s with w := pollAck s.sfc s.w n, pc := .ready .direct } := by
  have hacked := h.acked
  have hcredit := h.credit
  rw [hpc] at hacked hcredit
  simp only [Handover.Pc.unacked, owing, Nat.add_zero] at hacked hcredit
  have hack : (pollAck s.sfc s.w n).evqAcked = s.consumed := by
    unfold pollAck
    split_ifs with hpos
    · have hptr : s.sfc.evqReadPtr = s.consumed % numEvqEntry :=
        (h.host.userSynced (by simp [hpc, Handover.Pc.direct])).evq
      have hread := h.queue.read_le
      have hroom := h.room
      have hmask : s.sfc.evqReadPtr &&& evqRptrMask = s.consumed % numEvqEntry := by
        rw [hptr, and_rptrMask (Nat.mod_lt _ (by decide))]
      simp only [World.writeReg, if_true, hmask]
      rw [Sfc7120.unacked_eq hread (by omega)]
      omega
    · omega
  obtain ⟨hevq, hlog, htx, hacc, hrx⟩ := pollAck_nic s.sfc s.w n
  refine ⟨hhost, rfl, ?_, ?_, ?_, ?_, ?_, ?_, ?_, ?_, ?_⟩
  · rw [hevq, hlog]
    exact h.queue
  · rw [hlog]
    exact h.present
  · rw [hack]
    rfl
  · rw [hlog, hrx, htx]
    exact h.events
  · rw [hrx, hacc]
    exact h.reported
  · rw [hacc]
    exact h.filled
  · rw [htx]
    exact h.fetched
  · rw [htx]
    exact h.outstanding
  · simp only [hack, owing]
    omega

/-- A frame goes into a slot the doorbell has shown. -/
theorem Inv.fill (h : Inv s) {pre : List Byte} {frame : Frame} {w : World}
    (hfill : s.w.nicRxFill pre frame = some w) : Inv { s with w := w } := by
  have havail : 0 < s.w.rxAvail := by
    simp only [World.nicRxFill] at hfill
    split_ifs at hfill with hok
    exact hok.1
  obtain ⟨mem, rfl⟩ := World.nicRxFill_eq hfill
  have hlt : s.w.accepted.length < s.reposted + (numRxDesc - 1) := by
    unfold World.rxAvail at havail
    split at havail
    next => exact absurd havail (Nat.lt_irrefl 0)
    next v hreg =>
      -- the doorbell stands 511 slots ahead of the last one handed back
      have hv := h.host.synced.rxDbl v hreg
      have hfilled := h.filled
      simp only [hv, BitVec.toNat_ofNat, numRxDesc] at havail hfilled ⊢
      by_contra hge
      have heq : s.w.accepted.length = s.reposted + 511 := by omega
      rw [heq] at havail
      omega
  refine ⟨h.host.nic rfl, h.direct,
    h.queue, h.present, h.acked, h.events, ?_, ?_, h.fetched, h.outstanding, h.credit⟩
  · simpa using h.reported.trans (Nat.le_succ _)
  · simpa [Nat.succ_le_iff] using hlt

/-- An event is written, for one more frame or one more send. -/
theorem Inv.writeEvent (h : Inv s) {ev : Word} {rx tx : ℕ} (hev : evEmpty ev = false)
    (hone : rx + tx = s.w.rxEvents + s.w.txFetched + 1) (hrx : rx ≤ s.w.accepted.length)
    (htx : tx ≤ s.posted) (hle : s.w.txFetched ≤ tx) :
    Inv { s with w := { s.w.writeEvent ev with rxEvents := rx, txFetched := tx } } := by
  have hacked := h.acked
  have hevents := h.events
  have hout := h.outstanding
  have htotal := h.accepted_add_posted_le
  refine ⟨h.host.nic rfl, h.direct,
    h.queue.push (by omega) ev, ?_, h.acked, ?_, hrx, h.filled, htx, ?_, h.credit⟩
  · intro e he
    rcases List.mem_append.mp he with hold | hnew
    · exact h.present e hold
    · rwa [List.mem_singleton.mp hnew]
  · simp only [World.writeEvent, List.length_append, List.length_singleton]
    omega
  · simp only
    omega

theorem Inv.rxEvent (h : Inv s) {ev : Word} {frame : Frame}
    (hframe : s.w.accepted[s.w.rxEvents]? = some frame) (hcode : evCode ev = 0#32)
    (hbytes : (evRxBytes ev).toNat = ef10RxPrefixLen + frame.length) :
    Inv { s with w := { s.w.writeEvent ev with rxEvents := s.w.rxEvents + 1 } } := by
  have hlt : s.w.rxEvents < s.w.accepted.length := (List.getElem?_eq_some_iff.mp hframe).1
  have hpresent : evEmpty ev = false :=
    evEmpty_of_rx hcode (by rw [hbytes, ef10RxPrefixLen]; omega)
  have hone : s.w.rxEvents + 1 + s.w.txFetched = s.w.rxEvents + s.w.txFetched + 1 :=
    Nat.add_right_comm _ _ _
  exact h.writeEvent hpresent hone hlt h.fetched le_rfl

theorem Inv.txDone (h : Inv s) {ev : Word} (hpending : s.w.txPending = true)
    (hcode : evCode ev = 2#32) :
    Inv { s with w := { s.w.writeEvent ev with txFetched := s.w.txFetched + 1 } } := by
  have hlt := h.host.fetched_lt h.fetched hpending
  exact h.writeEvent (evEmpty_of_tx hcode) rfl h.reported hlt (Nat.le_succ _)

/-- No ioctl is in progress. -/
theorem Inv.not_onKernel (h : Inv s) {pc : Handover.Pc} (hpc : s.pc = pc)
    (hkernel : onKernel pc = true) : False := by
  have hdirect := h.direct
  rw [hpc, hkernel] at hdirect
  cases hdirect

/-- Opening, setting up and closing a session leave queue and totals. -/
theorem Inv.session (h : Inv s) (hhost : Handover.Inv t) (hdirect : onKernel t.pc = false)
    (hw : t.w = s.w) (hunacked : t.pc.unacked = s.pc.unacked) (howing : owing t.pc = 0)
    (hcounts : t.consumed = s.consumed ∧ t.posted = s.posted ∧ t.reposted = s.reposted) :
    Inv t := by
  obtain ⟨hconsumed, hposted, hreposted⟩ := hcounts
  refine h.quiet hhost hdirect ?_ hconsumed hunacked hreposted hposted ?_
  · rw [hw]
    exact .refl _
  · rw [howing]
    exact Nat.zero_le _

theorem Inv.initOk (h : Inv s) {slices : ℕ} {stage : Handover.InitStage}
    (hpc : s.pc = .init stage) (hhost : Handover.Inv (Handover.initOk s slices .direct stage)) :
    Inv (Handover.initOk s slices .direct stage) := by
  have hunacked : s.pc.unacked = 0 := by rw [hpc]; rfl
  cases stage <;> exact h.session hhost rfl rfl hunacked.symm rfl ⟨rfl, rfl, rfl⟩

/-- The application's step: a call it starts is paid for, and a call that ends owes nothing more. -/
theorem Inv.hostStep (h : Inv s) {a : Handover.Act} (hmove : Handover.Moves s a t)
    (hhost : Handover.Inv t) (hfollows : follows a = true)
    (hout : t.posted ≤ t.w.txFetched + (numTxDesc - 1)) (hpaid : Credit s (.host a)) : Inv t := by
  have hcredit := h.credit
  cases hmove with
  | @openDev ok hpc =>
    have hunacked : s.pc.unacked = 0 := by rw [hpc]; rfl
    cases ok <;> exact h.session hhost rfl rfl hunacked.symm rfl ⟨rfl, rfl, rfl⟩
  | @initOk slices mode stage hpc =>
    obtain rfl : mode = .direct := by simpa [follows] using hfollows
    exact h.initOk hpc hhost
  | initFails hpc => exact h.session hhost rfl rfl (by rw [hpc]; rfl) rfl ⟨rfl, rfl, rfl⟩
  | destroy hpc => exact h.session hhost rfl rfl (by rw [hpc]; rfl) rfl ⟨rfl, rfl, rfl⟩
  | tx hpc => exact (h.not_onKernel hpc rfl).elim
  | txRefused => exact h
  | txPoll hpc => exact (h.not_onKernel hpc rfl).elim
  | txReturn hpc => exact (h.not_onKernel hpc rfl).elim
  | rx hpc => exact (h.not_onKernel hpc rfl).elim
  | rxPoll hpc => exact (h.not_onKernel hpc rfl).elim
  | rxAck hpc => exact (h.not_onKernel hpc rfl).elim
  | rxCopyout hpc => exact (h.not_onKernel hpc rfl).elim
  | rxReturn hpc => exact (h.not_onKernel hpc rfl).elim
  | poll hpc => exact h.session hhost rfl rfl (by rw [hpc]; rfl) rfl ⟨rfl, rfl, rfl⟩
  | pollRefused => exact h
  | pollStop hpc => exact h.session hhost rfl rfl (by rw [hpc]; rfl) rfl ⟨rfl, rfl, rfl⟩
  | pollTake hpc hiter => exact h.pollTake hpc hiter hhost
  | pollReturn hpc => exact h.pollReturn hpc hhost
  | recv hpc hready =>
    exact h.frame hhost rfl (.refl _) rfl (by rw [hpc]; rfl) le_rfl le_rfl hout
      (Nat.succ_le_succ (hpaid hready))
  | recvRefused => exact h
  | recvPost hpc =>
    refine h.quiet hhost rfl ⟨rfl, rfl, rfl, rfl, rfl, rfl⟩ rfl (by rw [hpc]; rfl) rfl rfl ?_
    rw [hpc]
    rfl
  | recvReturn hpc =>
    rw [hpc] at hcredit
    exact h.frame hhost rfl ((SameNic.refl _).writeReg (by decide) _) rfl (by rw [hpc]; rfl)
      (Nat.le_succ _) le_rfl hout hcredit
  | post hpc hready =>
    exact h.frame hhost rfl ⟨rfl, rfl, rfl, rfl, rfl, rfl⟩ rfl (by rw [hpc]; rfl) le_rfl le_rfl
      hout (Nat.succ_le_succ (hpaid hready))
  | postRefused => exact h
  | postDesc hpc =>
    refine h.quiet hhost rfl ⟨rfl, rfl, rfl, rfl, rfl, rfl⟩ rfl (by rw [hpc]; rfl) rfl rfl ?_
    rw [hpc]
    rfl
  | postReturn hpc =>
    rw [hpc] at hcredit
    refine h.frame hhost rfl ((SameNic.refl _).writeReg (by decide) _) rfl (by rw [hpc]; rfl)
      le_rfl (Nat.le_succ _) hout ?_
    simp only [owing] at hcredit ⊢
    omega
  | nic => cases hfollows

end

/-- Whatever the queue does, the cursors agree. -/
theorem host_step (s : Handover.Sys) (a : Act) (t : Handover.Sys) (h : Handover.Inv s)
    (hstep : step s a = some t) : Handover.Inv t := by
  cases a with
  | host a =>
    simp only [step] at hstep
    split_ifs at hstep
    split at hstep
    next => cases hstep
    next u hhost =>
      split_ifs at hstep
      exact Option.some.inj hstep ▸ Handover.inv_step _ _ _ h hhost
  | fill pre frame =>
    simp only [step] at hstep
    split at hstep
    next => cases hstep
    next w hfill =>
      obtain ⟨mem, rfl⟩ := World.nicRxFill_eq hfill
      exact Option.some.inj hstep ▸ h.nic rfl
  | rxEvent ev =>
    simp only [step] at hstep
    split at hstep
    next => cases hstep
    next frame hframe =>
      split_ifs at hstep
      exact Option.some.inj hstep ▸ h.nic rfl
  | txDone ev =>
    simp only [step] at hstep
    split_ifs at hstep
    exact Option.some.inj hstep ▸ h.nic rfl

theorem inv_step (s : Handover.Sys) (a : Act) (t : Handover.Sys) (h : Inv s)
    (hpaid : Credit s a) (hstep : step s a = some t) : Inv t := by
  cases a with
  | host a =>
    simp only [step] at hstep
    split_ifs at hstep with hfollows
    split at hstep
    next => cases hstep
    next u hhost =>
      split_ifs at hstep with hout
      obtain rfl := Option.some.inj hstep
      exact h.hostStep (Handover.step_moves hhost) (Handover.inv_step _ _ _ h.host hhost) hfollows
        hout hpaid
  | fill pre frame =>
    simp only [step] at hstep
    split at hstep
    next => cases hstep
    next w hfill => exact Option.some.inj hstep ▸ h.fill hfill
  | rxEvent ev =>
    simp only [step] at hstep
    split at hstep
    next => cases hstep
    next frame hframe =>
      split_ifs at hstep with hev
      exact Option.some.inj hstep ▸ h.rxEvent hframe hev.1 hev.2
  | txDone ev =>
    simp only [step] at hstep
    split_ifs at hstep with hev
    exact Option.some.inj hstep ▸ h.txDone hev.1 hev.2.1

/-- No event had to be dropped, delayed or written over another: there is room for all that are
not acknowledged, and each that was not read is in its slot. -/
structure NoOverflow (s : Handover.Sys) : Prop where
  room : unacked s ≤ numEvqEntry
  intact : ∀ i (hi : i < s.w.evLog.length), s.consumed ≤ i →
    s.w.dataEvq (i % numEvqEntry) = s.w.evLog[i]

/-- In every run in which posts and recycled slots are paid for by acknowledged events, the data
EVQ never overflows. -/
theorem data_evq_no_overflow {viBase : ℕ} {txBase rxBase : Word} {mem : ℕ → Byte}
    {as : List Act} {s : Handover.Sys}
    (hrun : run step (Handover.start viBase txBase rxBase mem) as = some s)
    (hpaid : Along step Credit (Handover.start viBase txBase rxBase mem) as) :
    NoOverflow s := by
  have h := run_invariant_along inv_step (inv_start viBase txBase rxBase mem) hpaid hrun
  have hroom := h.room
  refine ⟨?_, h.queue.full⟩
  unfold unacked
  omega

/-- A direct session opened. -/
def openSession : List Act := (Handover.openCalls .direct).map .host

/-- The shortest Ethernet frame. -/
def minFrame : Frame := List.replicate 60 0

/-- It arrives and is reported. -/
def frameIn : List Act := [.fill (List.replicate ef10RxPrefixLen 0) minFrame, .rxEvent 74#64]

def postOne : List Act := (Handover.postCalls [1] 1).map .host

/-- One packet received and one sent, both events polled, and the slot recycled. -/
def sendAndPoll : List Act := postOne ++
  [.txDone 0x2000000000000000#64, .host (.callPoll 2), .host .pollStep, .host .pollStep,
    .host .pollStep, .host .pollReturn]

def recycle : List Act := Handover.recvCalls.map .host

theorem data_evq_no_overflow_oneEach :
    ∃ s, run step (Handover.start 8 0x100000#64 0x200000#64 fun _ => 0)
        (openSession ++ frameIn ++ sendAndPoll ++ recycle) = some s ∧
      s.posted = 1 ∧ s.reposted = 1 ∧ NoOverflow s := by
  have hsome : (run step (Handover.start 8 0x100000#64 0x200000#64 fun _ => 0)
      (openSession ++ frameIn ++ sendAndPoll ++ recycle)).map
      (fun s => (s.posted, s.reposted)) = some (1, 1) := by decide +kernel
  have hfirst : (run step (Handover.start 8 0x100000#64 0x200000#64 fun _ => 0)
      (openSession ++ frameIn)).map (fun s => (s.posted + s.reposted, s.w.evqAcked)) =
      some (0, 0) := by decide +kernel
  have hsecond : (run step (Handover.start 8 0x100000#64 0x200000#64 fun _ => 0)
      (openSession ++ frameIn ++ sendAndPoll)).map
      (fun s => (s.posted + s.reposted, s.w.evqAcked)) = some (1, 2) := by decide +kernel
  obtain ⟨s, hs, heq⟩ := Option.map_eq_some_iff.mp hsome
  obtain ⟨u, hu, huc⟩ := Option.map_eq_some_iff.mp hfirst
  obtain ⟨v, hv, hvc⟩ := Option.map_eq_some_iff.mp hsecond
  have hpost : u.posted + u.reposted ≤ u.w.evqAcked := by simp_all
  have hrecv : v.posted + v.reposted ≤ v.w.evqAcked := by simp_all
  have hopening : ∀ a ∈ openSession ++ frameIn, ∀ s, Credit s a := by
    simp [openSession, Handover.openCalls, frameIn, Credit]
  have hsend : Along step Credit u sendAndPoll :=
    ⟨fun _ => hpost, fun t _ => along_of_forall (by simp [Credit]) t⟩
  have hrecycle : Along step Credit v recycle :=
    ⟨fun _ => hrecv, fun t _ => along_of_forall (by simp [Credit]) t⟩
  have hpaid := ((along_of_forall hopening _).append hu hsend).append hv hrecycle
  exact ⟨s, hs, congrArg Prod.fst heq, congrArg Prod.snd heq, data_evq_no_overflow hs hpaid⟩

/-- A direct session that has not polled: `f` frames received and `r` of their slots recycled, and
`c` of `k` posted packets sent, all of them reported. -/
structure Unread (s : Handover.Sys) (f r k c : ℕ) : Prop where
  host : Handover.Inv s
  pc : s.pc = .ready .direct
  txReady : txPostReady s.sfc 1 = true
  rxReady : rxRecvReady s.sfc = true
  ring : ∀ j < numRxDesc, (descBytes (s.w.rxRing j)).toNat = rxBufferSize
  shown : (s.w.regs regDataRxDescDbl).isSome
  rung : 0 < k → (s.w.regs regDataTxWptrDbl).isSome
  accepted : s.w.accepted = List.replicate f minFrame
  rxEvents : s.w.rxEvents = f
  reposted : s.reposted = r
  posted : s.posted = k
  fetched : s.w.txFetched = c
  log : s.w.evLog.length = f + c
  acked : s.w.evqAcked = 0

section
variable {s t : Handover.Sys} {f r k c : ℕ}

theorem Unread.frameIn (h : Unread s f r k c) (hle : r ≤ f) (hlt : f < r + 511) :
    ∃ t, run step s frameIn = some t ∧ Unread t (f + 1) r k c := by
  have havail : 0 < s.w.rxAvail := by
    obtain ⟨v, hreg⟩ := Option.isSome_iff_exists.mp h.shown
    have hv := h.host.synced.rxDbl v hreg
    simp only [World.rxAvail, hreg, hv, h.reposted, h.accepted, List.length_replicate, numRxDesc,
      BitVec.toNat_ofNat]
    omega
  have hfits : ef10RxPrefixLen + minFrame.length ≤
      (descBytes (s.w.rxRing (s.w.accepted.length % numRxDesc))).toNat := by
    rw [h.ring _ (Nat.mod_lt _ (by decide))]
    decide
  have hfill : s.w.nicRxFill (List.replicate ef10RxPrefixLen 0) minFrame = some { s.w with
      mem := writeBytes s.w.mem
        (descAddr (s.w.rxRing (s.w.accepted.length % numRxDesc))).toNat
        (List.replicate ef10RxPrefixLen 0 ++ minFrame)
      accepted := s.w.accepted ++ [minFrame] } :=
    if_pos ⟨havail, by decide, hfits⟩
  have hget : (s.w.accepted ++ [minFrame])[s.w.rxEvents]? = some minFrame := by
    simp [h.accepted, h.rxEvents]
  have hev : evCode 74#64 = 0#32 ∧
      (evRxBytes 74#64).toNat = ef10RxPrefixLen + minFrame.length := by decide
  refine ⟨_, run_cons.mpr ⟨_, by simp only [step, hfill]; rfl, run_cons.mpr ⟨_, by
    simp only [step, hget, if_pos hev]; rfl, rfl⟩⟩, ?_⟩
  refine ⟨h.host.nic rfl, h.pc, h.txReady, h.rxReady, h.ring, h.shown, h.rung, ?_,
    congrArg (· + 1) h.rxEvents, h.reposted, h.posted, h.fetched, ?_, h.acked⟩
  · simp [World.writeEvent, h.accepted, List.replicate_succ']
  · simp only [World.writeEvent, List.length_append, List.length_singleton, h.log]
    omega

theorem Unread.framesIn (n : ℕ) (h : Unread s f r k c) (hle : r ≤ f) (hn : f + n ≤ r + 511) :
    ∃ t, Reaches step s t ∧ Unread t (f + n) r k c := by
  induction n generalizing s f with
  | zero => exact ⟨s, .refl _ _, h⟩
  | succ n ih =>
    obtain ⟨t, hrun, ht⟩ := h.frameIn hle (by omega)
    obtain ⟨u, hreach, hu⟩ := ih ht (by omega) (by omega)
    rw [Nat.add_assoc, Nat.add_comm 1] at hu
    exact ⟨u, .trans ⟨_, hrun⟩ hreach, hu⟩

/-- Calls of an application that keeps to the direct path. -/
theorem calls_run {as : List Handover.Act} (hcalls : ∀ a ∈ as, follows a = true)
    (hrun : run Handover.step s as = some t) (hout : t.posted ≤ t.w.txFetched + (numTxDesc - 1)) :
    run step s (as.map .host) = some t := by
  have hone : ∀ g a u, follows a = true → Handover.step g a = some u →
      u.posted ≤ u.w.txFetched + (numTxDesc - 1) →
      g.posted ≤ g.w.txFetched + (numTxDesc - 1) ∧ step g (.host a) = some u := by
    intro g a u hfollows hstep hroom
    have hnic : ∀ w, a ≠ .nic w := by
      rintro w rfl
      cases hfollows
    obtain ⟨hposted, hfetched⟩ := Handover.step_posted hnic hstep
    refine ⟨hfetched ▸ hposted.trans hroom, ?_⟩
    simp only [step, hfollows, if_true, hstep, if_pos hroom]
  exact (run_map hone hcalls hrun hout).2

theorem Unread.post (h : Unread s f r k c) (hout : k + 1 ≤ c + (numTxDesc - 1)) :
    ∃ t, run step s postOne = some t ∧ Unread t f r (k + 1) c := by
  rw [← h.posted, ← h.fetched] at hout
  have hcalls := Handover.postCalls_run [1] 1 h.pc (if_pos h.txReady)
  have hrun := calls_run (by simp [Handover.postCalls, follows]) hcalls hout
  refine ⟨_, hrun, run_invariant host_step h.host hrun, h.pc, h.txReady, h.rxReady, h.ring, ?_,
    fun _ => ?_, h.accepted, h.rxEvents, h.reposted, congrArg (· + 1) h.posted, h.fetched, h.log,
    ?_⟩
  · exact (congrArg Option.isSome (World.writeReg_regs_of_ne _ (by decide) _)).trans h.shown
  · simp [txPostRing, World.writeReg, regDataTxWptrDbl]
  · rw [← h.acked]
    exact World.writeReg_evqAcked_of_ne _ (by decide) _

theorem Unread.txDone (h : Unread s f r k c) {ev : Word} (hlt : c < k)
    (hout : k ≤ c + (numTxDesc - 1)) (hcode : evCode ev = 2#32)
    (hidx : (evTxDescIdx ev).toNat = c % 2 ^ 16) :
    ∃ t, step s (.txDone ev) = some t ∧ Unread t f r k (c + 1) := by
  have hpending : s.w.txPending = true := by
    refine h.host.txPending (h.rung (Nat.zero_lt_of_lt hlt)) ?_ ?_
    · rwa [h.posted, h.fetched]
    · rwa [h.posted, h.fetched]
  rw [← h.fetched] at hidx
  refine ⟨_, if_pos ⟨hpending, hcode, hidx⟩, h.host.nic rfl, h.pc, h.txReady, h.rxReady, h.ring,
    h.shown, h.rung, h.accepted, h.rxEvents, h.reposted, h.posted, congrArg (· + 1) h.fetched, ?_,
    h.acked⟩
  simp only [World.writeEvent, List.length_append, List.length_singleton, h.log]
  rfl

theorem Unread.recycle (h : Unread s f r k c) (hout : k ≤ c + (numTxDesc - 1)) :
    ∃ t, run step s recycle = some t ∧ Unread t f (r + 1) k c := by
  rw [← h.posted, ← h.fetched] at hout
  have hrun := calls_run (by simp [Handover.recvCalls, follows])
    (Handover.recvCalls_run h.pc h.rxReady) hout
  refine ⟨_, hrun, run_invariant host_step h.host hrun, h.pc, h.txReady, h.rxReady, ?_, ?_, ?_,
    h.accepted, h.rxEvents, congrArg (· + 1) h.reposted, h.posted, h.fetched, h.log, ?_⟩
  · intro j hj
    by_cases hhead : j = s.sfc.rxHead
    · subst hhead
      simp only [rxRecvRing, rxRecvPost, World.writeReg, Function.update_self, rxDesc]
      rw [descBytes_kernDesc (by decide)]
      rfl
    · simpa [rxRecvRing, rxRecvPost, World.writeReg, hhead] using h.ring j hj
  · simp [rxRecvRing, World.writeReg]
  · intro hk
    exact (congrArg Option.isSome (World.writeReg_regs_of_ne _ (by decide) _)).trans (h.rung hk)
  · rw [← h.acked]
    exact World.writeReg_evqAcked_of_ne _ (by decide) _

end

theorem unread_opened : ∃ s, run step (Handover.start 8 0x100000#64 0x200000#64 fun _ => 0)
    openSession = some s ∧ Unread s 0 0 0 0 := by
  have hring := rxRing_start 0x200000#64 fun _ => 0
  have hrun : run step (Handover.start 8 0x100000#64 0x200000#64 fun _ => 0) openSession =
      some _ := calls_run (by simp [Handover.openCalls, follows])
    (Handover.openCalls_run .direct rfl) (Nat.zero_le _)
  refine ⟨_, hrun, run_invariant host_step (Handover.inv_start _ _ _ _) hrun, rfl, by decide,
    by decide, fun j hj => ?_, Option.isSome_of_eq_some hring.doorbell,
    fun hlt => absurd hlt (Nat.lt_irrefl 0), rfl, rfl, rfl, rfl, rfl, rfl, rfl⟩
  have hdesc := hring.desc j hj
  exact (congrArg (fun d => (descBytes d).toNat) hdesc).trans (rxSlotAddr_desc (by decide) hj).2

/-- Two packets sent while 511 frames wait to be read are one event too many. -/
theorem data_evq_overflows :
    ¬ ∀ (viBase : ℕ) (txBase rxBase : Word) (mem : ℕ → Byte) (as : List Act) (s : Handover.Sys),
      run step (Handover.start viBase txBase rxBase mem) as = some s →
      unacked s ≤ numEvqEntry := by
  intro h
  obtain ⟨s₀, hr₀, h₀⟩ := unread_opened
  obtain ⟨s₁, hr₁, h₁⟩ := h₀.framesIn 511 le_rfl (by decide)
  obtain ⟨s₂, hr₂, h₂⟩ := h₁.post (by decide)
  obtain ⟨s₃, hr₃, h₃⟩ := h₂.txDone (by decide) (by decide)
    (show evCode 0x2000000000000000#64 = 2#32 by decide) (by decide)
  obtain ⟨s₄, hr₄, h₄⟩ := h₃.post (by decide)
  obtain ⟨s₅, hr₅, h₅⟩ := h₄.txDone (by decide) (by decide)
    (show evCode 0x2000000000000001#64 = 2#32 by decide) (by decide)
  obtain ⟨as, hrun⟩ := Reaches.trans ⟨_, hr₀⟩ (hr₁.trans (.trans ⟨_, hr₂⟩ (.step hr₃
    (.trans ⟨_, hr₄⟩ (.step hr₅ (.refl _ _))))))
  have hle := h _ _ _ _ as s₅ hrun
  rw [unacked, h₅.log, h₅.acked] at hle
  exact absurd hle (by decide)

/-- So are two slots recycled before their events are acknowledged, with nothing sent. -/
theorem data_evq_overflows_unsent :
    ¬ ∀ (viBase : ℕ) (txBase rxBase : Word) (mem : ℕ → Byte) (as : List Act) (s : Handover.Sys),
      run step (Handover.start viBase txBase rxBase mem) as = some s → s.posted = 0 →
      unacked s ≤ numEvqEntry := by
  intro h
  obtain ⟨s₀, hr₀, h₀⟩ := unread_opened
  obtain ⟨s₁, hr₁, h₁⟩ := h₀.framesIn 511 le_rfl (by decide)
  obtain ⟨s₂, hr₂, h₂⟩ := h₁.recycle (by decide)
  obtain ⟨s₃, hr₃, h₃⟩ := h₂.recycle (by decide)
  obtain ⟨s₄, hr₄, h₄⟩ := h₃.framesIn 2 (by decide) (by decide)
  obtain ⟨as, hrun⟩ := Reaches.trans ⟨_, hr₀⟩ (hr₁.trans (.trans ⟨_, hr₂⟩ (.trans ⟨_, hr₃⟩ hr₄)))
  have hle := h _ _ _ _ as s₄ hrun h₄.posted
  rw [unacked, h₄.log, h₄.acked] at hle
  exact absurd hle (by decide)

end Sfc7120.EvqRoom

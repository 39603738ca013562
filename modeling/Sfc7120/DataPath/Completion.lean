import Sfc7120.DataPath.Rings
import Sfc7120.DataPath.Handover

/-! What a successful `SFC7120_TX` means. The handler takes for its own completion any TX event
whose index falls on the slot it posted, and the queue it reads may still hold events of earlier
sessions and of sends that were given up. Sessions run as in `Handover`; the NIC reports its
completions honestly, one event for one descriptor or for several. -/
namespace Sfc7120.Completion

open Machine RingQueue

structure Sys where
  host : Handover.Sys
  /-- Descriptors covered by the TX events written so far. -/
  reported : ℕ
  /-- Free-running index of the descriptor of every `SFC7120_TX` that returned 0. -/
  succeeded : List ℕ

inductive Act where
  | host (a : Handover.Act)
  | complete
  | txEvent (ev : Word)
  | otherEvent (ev : Word)
  | dma (mem : ℕ → ByteMemory.Byte)

/-- Events in the data EVQ that no session has consumed. -/
def Sys.backlog (s : Sys) : List Word := s.host.w.evLog.drop s.host.consumed

/-- The descriptor of the call that returns, if it returns 0. -/
def returned (h : Handover.Sys) : Handover.Act → List ℕ
  | .txReturn =>
      match h.pc with
      | .txWait t => if (txFinish h.sc t).2.isNone then [h.posted - 1] else []
      | _ => []
  | _ => []

/-- Steps of the sessions and of an honest NIC. At most 511 descriptors are posted and not
completed, and at most 512 events wait in the queue. -/
def step (s : Sys) : Act → Option Sys
  | .host (.nic _) => none
  | .host a =>
      match Handover.step s.host a with
      | none => none
      | some h =>
          if h.posted ≤ h.w.txFetched + (numTxDesc - 1) then
            some { s with host := h, succeeded := s.succeeded ++ returned s.host a }
          else none
  | .complete =>
      if s.host.w.txPending then
        some { s with
          host := { s.host with w := { s.host.w with txFetched := s.host.w.txFetched + 1 } } }
      else none
  | .txEvent ev =>
      -- the index of the last completed descriptor; what lies between it and the last event's
      -- is merged into this one
      if s.reported < s.host.w.txFetched ∧ evCode ev = 2#32 ∧
          (evTxDescIdx ev).toNat = (s.host.w.txFetched - 1) % 2 ^ 16 ∧
          s.backlog.length < numEvqEntry then
        some { s with
          host := { s.host with w := s.host.w.writeEvent ev }, reported := s.host.w.txFetched }
      else none
  | .otherEvent ev =>
      if evCode ev ≠ 2#32 ∧ evEmpty ev = false ∧ s.backlog.length < numEvqEntry then
        some { s with host := { s.host with w := s.host.w.writeEvent ev } }
      else none
  | .dma mem => some { s with host := { s.host with w := { s.host.w with mem := mem } } }

def start (viBase : ℕ) (txBase rxBase : Word) (mem : ℕ → ByteMemory.Byte) : Sys :=
  ⟨Handover.start viBase txBase rxBase mem, 0, []⟩

/-- When `SFC7120_TX` posts, no event left in the queue completes the slot it is about to use. -/
def NoStale (s : Sys) : Act → Prop
  | .host (.tx req copyErr) => txValidate req = none → copyErr = none →
      ∀ ev ∈ s.backlog, isTxCompletion ev s.host.sc.txHead = false
  | _ => True

instance NoStale.decidable (s : Sys) : (a : Act) → Decidable (NoStale s a)
  | .host (.tx req copyErr) => inferInstanceAs (Decidable (txValidate req = none →
      copyErr = none → ∀ ev ∈ s.backlog, isTxCompletion ev s.host.sc.txHead = false))
  | .host (.openDev ..) | .host (.initCall ..) | .host .destroy | .host .txPoll | .host .txReturn
  | .host .rx | .host .rxPoll | .host .rxAck | .host (.rxCopyout ..) | .host .rxReturn
  | .host (.callPoll ..) | .host .pollStep | .host .pollReturn | .host .callRecv
  | .host .recvPost | .host .recvReturn | .host (.callPost ..) | .host .postDesc
  | .host .postReturn | .host (.nic ..) | .complete | .txEvent .. | .otherEvent .. | .dma .. =>
      inferInstanceAs (Decidable True)

/-- What a step of a session does to the queue and to a send in progress. -/
inductive HostMove (s : Handover.Sys) : Handover.Act → Handover.Sys → Prop
  | tx {req : TxReq} (hpc : s.pc = .ready .ioctl) (hvalid : txValidate req = none) :
      HostMove s (.tx req none) { s with
        w := txPost s.sc s.w req
        pc := .txWait ⟨s.sc.txHead, 0, false, 0⟩
        posted := s.posted + 1 }
  | txPoll {t : TxWait} (hpc : s.pc = .txWait t) :
      HostMove s .txPoll { s with
        w := (txPollIter s.sc s.w t).2.1
        sc := (txPollIter s.sc s.w t).1
        pc := .txWait (txPollIter s.sc s.w t).2.2
        consumed := s.consumed + ((txPollIter s.sc s.w t).2.2.consumed - t.consumed) }
  | txReturn {t : TxWait} (hpc : s.pc = .txWait t) :
      HostMove s .txReturn { s with
        w := ackEvq s.sc s.w t.consumed, sc := (txFinish s.sc t).1, pc := .ready .ioctl }
  | quiet {a : Handover.Act} {u : Handover.Sys} (hret : returned s a = [])
      (hevq : u.w.dataEvq = s.w.dataEvq) (hlog : u.w.evLog = s.w.evLog)
      (hconsumed : u.consumed = s.consumed) (hpc : ∀ t, u.pc ≠ .txWait t) : HostMove s a u
  | take {a : Handover.Act} {u : Handover.Sys} (hret : returned s a = [])
      (hev : evEmpty (s.w.dataEvq s.owner.evq) = false)
      (hevq : u.w.dataEvq = Function.update s.w.dataEvq s.owner.evq 0)
      (hlog : u.w.evLog = s.w.evLog) (hconsumed : u.consumed = s.consumed + 1)
      (hpc : ∀ t, u.pc ≠ .txWait t) : HostMove s a u

section
variable {s t : Handover.Sys}

theorem rxPoll_move {r : RxWait} (hpc : s.pc = .rxWait r) :
    HostMove s .rxPoll { s with
      w := (rxPollIter s.sc s.w r).2.1
      sc := (rxPollIter s.sc s.w r).1
      pc := .rxWait (rxPollIter s.sc s.w r).2.2
      consumed := s.consumed + ((rxPollIter s.sc s.w r).2.2.consumed - r.consumed) } := by
  have hptr : s.owner.evq = s.sc.dataEvqReadPtr := by
    simp [Handover.Sys.owner, hpc, Handover.Pc.direct, Handover.kernelCursors]
  unfold rxPollIter
  dsimp only
  split
  next => exact .quiet rfl rfl rfl (by simp) (by simp)
  next hev =>
    exact .take rfl (by simpa [hptr] using hev) (by rw [hptr]; rfl) rfl (by simp) (by simp)

theorem pollTake_move {room n : ℕ} (hpc : s.pc = .polling (room + 1) n) {ev : Ev} {sfc : SfcIf}
    {w : World} (hiter : pollIter s.sfc s.w = some (ev, sfc, w)) :
    HostMove s .pollStep { s with
      w := w, sfc := sfc, pc := .polling room (n + 1), consumed := s.consumed + 1 } := by
  have hptr : s.owner.evq = s.sfc.evqReadPtr := by
    simp [Handover.Sys.owner, hpc, Handover.Pc.direct, Handover.userCursors]
  simp only [pollIter] at hiter
  split_ifs at hiter with hev
  obtain ⟨rfl, rfl, rfl⟩ : _ ∧ _ ∧ _ := by simpa using hiter
  exact .take rfl (by simpa [hptr] using hev) (by rw [hptr]; rfl) rfl rfl (by simp)

/-- Every step of a session is one of these moves. -/
theorem step_hostMove {a : Handover.Act} (hnic : ∀ u, a ≠ .nic u)
    (hstep : Handover.step s a = some t) : HostMove s a t := by
  cases Handover.step_moves hstep with
  | tx hpc hvalid => exact .tx hpc hvalid
  | txPoll hpc => exact .txPoll hpc
  | txReturn hpc => exact .txReturn hpc
  | rxPoll hpc => exact rxPoll_move hpc
  | @rxAck r hpc =>
    obtain ⟨hevq, hlog, -⟩ := Handover.ackEvq_queue s.sc s.w r.consumed
    refine .quiet rfl hevq hlog rfl ?_
    cases r.found <;> simp
  | pollTake hpc hiter => exact pollTake_move hpc hiter
  | @pollReturn n hpc =>
    obtain ⟨hevq, hlog, -⟩ := pollAck_nic s.sfc s.w n
    exact .quiet rfl hevq hlog rfl (by simp)
  | @openDev ok hpc => exact .quiet rfl rfl rfl rfl (by cases ok <;> simp)
  | @initOk slices mode stage hpc =>
    cases stage <;> exact .quiet rfl rfl rfl rfl (by simp [Handover.initOk])
  | @rxCopyout b copyErr hpc =>
    exact .quiet rfl rfl rfl rfl (by cases copyErr <;> simp)
  | postReturn => exact .quiet rfl rfl rfl rfl (by simp)
  | nic => exact absurd rfl (hnic _)
  | initFails => exact .quiet rfl rfl rfl rfl (by simp [Handover.destroy])
  | destroy => exact .quiet rfl rfl rfl rfl (by simp [Handover.destroy])
  | txRefused hpc => exact .quiet rfl rfl rfl rfl (by simp [hpc])
  | pollRefused hpc => exact .quiet rfl rfl rfl rfl (by simp [hpc])
  | recvRefused hpc => exact .quiet rfl rfl rfl rfl (by simp [hpc])
  | postRefused hpc => exact .quiet rfl rfl rfl rfl (by simp [hpc])
  | rx | rxReturn | poll | pollStop | recv | recvPost | recvReturn | post | postDesc =>
    exact .quiet rfl rfl rfl rfl (by simp)

end

/-- Queue and counters agree, whatever the sends have made of it. -/
structure Consistent (s : Sys) : Prop where
  host : Handover.Inv s.host
  queue : Holds numEvqEntry (fun ev => evEmpty ev = true) s.host.w.dataEvq s.host.w.evLog
    s.host.consumed
  present : ∀ ev ∈ s.host.w.evLog, evEmpty ev = false
  fetched : s.host.w.txFetched ≤ s.host.posted
  outstanding : s.host.posted ≤ s.host.w.txFetched + (numTxDesc - 1)

/-- While a send waits, whatever in the queue would end the wait is its own completion. -/
structure Waiting (s : Sys) (t : TxWait) : Prop where
  pos : 0 < s.host.posted
  idx : t.postedIdx = (s.host.posted - 1) % numTxDesc
  done : t.done = true → s.host.posted - 1 < s.host.w.txFetched
  own : ∀ ev ∈ s.backlog, isTxCompletion ev t.postedIdx = true →
    s.host.posted - 1 < s.host.w.txFetched

structure Inv (s : Sys) : Prop where
  consistent : Consistent s
  waiting : ∀ t, s.host.pc = .txWait t → Waiting s t
  completed : ∀ n ∈ s.succeeded, n < s.host.w.txFetched

theorem consistent_start (viBase : ℕ) (txBase rxBase : Word) (mem : ℕ → ByteMemory.Byte) :
    Consistent (start viBase txBase rxBase mem) where
  host := Handover.inv_start viBase txBase rxBase mem
  queue := Holds.init fun _ _ => rfl
  present := by simp [start, Handover.start, postRxBuffers, World.writeReg, World.fresh]
  fetched := le_rfl
  outstanding := Nat.zero_le _

theorem inv_start (viBase : ℕ) (txBase rxBase : Word) (mem : ℕ → ByteMemory.Byte) :
    Inv (start viBase txBase rxBase mem) where
  consistent := consistent_start viBase txBase rxBase mem
  waiting t ht := by simp [start, Handover.start] at ht
  completed := by simp [start]

/-- A masked index names one descriptor among those an event written now can be about. -/
theorem isTxCompletion_last {ev : Word} {fetched posted : ℕ} (hpos : 0 < fetched)
    (hle : fetched ≤ posted) (hout : posted ≤ fetched + (numTxDesc - 1))
    (hidx : (evTxDescIdx ev).toNat = (fetched - 1) % 2 ^ 16)
    (h : isTxCompletion ev ((posted - 1) % numTxDesc) = true) : posted - 1 < fetched := by
  simp only [isTxCompletion, Bool.and_eq_true, beq_iff_eq] at h
  have hmask : (evTxDescIdx ev).toNat &&& (numTxDesc - 1) = (fetched - 1) % numTxDesc := by
    rw [show numTxDesc - 1 = numEvqEntry - 1 from rfl, and_ringMask, hidx]
    simp only [numTxDesc, numEvqEntry]
    omega
  have hmod : (fetched - 1) % numTxDesc = (posted - 1) % numTxDesc := hmask.symm.trans h.2
  simp only [numTxDesc] at hmod hout
  omega

section
variable {s : Sys}

/-- The slot the next read looks at. -/
theorem Consistent.owner_evq (hs : Consistent s) :
    s.host.owner.evq = s.host.consumed % numEvqEntry := hs.host.synced.evq

theorem Consistent.readPtr_of_txWait (hs : Consistent s) {t : TxWait}
    (hpc : s.host.pc = .txWait t) :
    s.host.sc.dataEvqReadPtr = s.host.consumed % numEvqEntry := by
  rw [← hs.owner_evq]
  simp [Handover.Sys.owner, hpc, Handover.Pc.direct, Handover.kernelCursors]

/-- An event that is read is the oldest of the backlog. -/
theorem Consistent.take (hs : Consistent s)
    (hev : evEmpty (s.host.w.dataEvq (s.host.consumed % numEvqEntry)) = false) :
    s.backlog = s.host.w.dataEvq (s.host.consumed % numEvqEntry) ::
        s.host.w.evLog.drop (s.host.consumed + 1) ∧
      Holds numEvqEntry (fun ev => evEmpty ev = true)
        (Function.update s.host.w.dataEvq (s.host.consumed % numEvqEntry) 0) s.host.w.evLog
        (s.host.consumed + 1) := by
  have hlt : s.host.consumed < s.host.w.evLog.length := by
    refine (hs.queue.not_empty_iff (by decide) fun ev hmem => ?_).mp (by simp [hev])
    simp [hs.present ev hmem]
  refine ⟨?_, hs.queue.pop hlt (by decide)⟩
  rw [Sys.backlog, List.drop_eq_getElem_cons hlt, hs.queue.head_eq hlt]

/-- The oldest of the backlog is what the next read sees. -/
theorem Consistent.head (hs : Consistent s) {ev : Word} {rest : List Word}
    (h : s.backlog = ev :: rest) :
    s.host.w.dataEvq (s.host.consumed % numEvqEntry) = ev ∧ evEmpty ev = false ∧
      s.host.w.evLog.drop (s.host.consumed + 1) = rest := by
  have hlt : s.host.consumed < s.host.w.evLog.length := by
    by_contra hge
    rw [Sys.backlog, List.drop_eq_nil_of_le (Nat.not_lt.mp hge)] at h
    cases h
  rw [Sys.backlog, List.drop_eq_getElem_cons hlt] at h
  obtain ⟨rfl, hrest⟩ := List.cons.inj h
  exact ⟨hs.queue.head_eq hlt, hs.present _ (List.getElem_mem hlt), hrest⟩

/-- One iteration of the wait reads nothing, or the oldest of the backlog. -/
theorem Consistent.txPoll_cases (hs : Consistent s) {t : TxWait} (hpc : s.host.pc = .txWait t) :
    (txPollIter s.host.sc s.host.w t = (s.host.sc, s.host.w, { t with tries := t.tries + 1 })) ∨
      ∃ ev rest, s.backlog = ev :: rest ∧ s.host.w.evLog.drop (s.host.consumed + 1) = rest ∧
        txPollIter s.host.sc s.host.w t =
          ((consumeEv s.host.sc s.host.w).1, (consumeEv s.host.sc s.host.w).2,
            { t with
              tries := t.tries + 1
              done := t.done || isTxCompletion ev t.postedIdx
              consumed := t.consumed + 1 }) := by
  have hptr := hs.readPtr_of_txWait hpc
  unfold txPollIter
  dsimp only
  split
  next => exact .inl rfl
  next hev =>
    rw [hptr] at hev ⊢
    exact .inr ⟨_, _, (hs.take (by simpa using hev)).1, rfl, rfl⟩

/-- A session's step. -/
theorem Consistent.hostStep (hs : Consistent s) {a : Handover.Act} {h : Handover.Sys}
    (hmove : HostMove s.host a h) (hhost : Handover.Inv h)
    (hposted : s.host.posted ≤ h.posted ∧ h.w.txFetched = s.host.w.txFetched)
    (hout : h.posted ≤ h.w.txFetched + (numTxDesc - 1)) (l : List ℕ) :
    Consistent { s with host := h, succeeded := l } := by
  have hfetched : h.w.txFetched ≤ h.posted := hposted.2 ▸ hs.fetched.trans hposted.1
  cases hmove with
  | tx hpc hvalid => exact ⟨hhost, hs.queue, hs.present, hfetched, hout⟩
  | @txPoll t hpc =>
    have hptr := hs.readPtr_of_txWait hpc
    obtain hnone | ⟨ev, rest, hback, -, hone⟩ := hs.txPoll_cases hpc
    · simp only [hnone] at hhost hfetched hout ⊢
      exact ⟨hhost, by simpa using hs.queue, hs.present, hfetched, hout⟩
    · obtain ⟨hslot, hev, -⟩ := hs.head hback
      simp only [hone] at hhost hfetched hout ⊢
      refine ⟨hhost, ?_, hs.present, hfetched, hout⟩
      simpa [consumeEv, hptr] using (hs.take (by rwa [hslot])).2
  | @txReturn t hpc =>
    obtain ⟨hevq, hlog, -⟩ := Handover.ackEvq_queue s.host.sc s.host.w t.consumed
    refine ⟨hhost, ?_, ?_, hfetched, hout⟩
    · rw [hevq, hlog]
      exact hs.queue
    · rw [hlog]
      exact hs.present
  | quiet hret hevq hlog hconsumed hpc =>
    refine ⟨hhost, ?_, ?_, hfetched, hout⟩
    · rw [hevq, hlog, hconsumed]
      exact hs.queue
    · rw [hlog]
      exact hs.present
  | take hret hev hevq hlog hconsumed hpc =>
    rw [hs.owner_evq] at hev hevq
    refine ⟨hhost, ?_, ?_, hfetched, hout⟩
    · rw [hevq, hlog, hconsumed]
      exact (hs.take hev).2
    · rw [hlog]
      exact hs.present

theorem Consistent.complete (hs : Consistent s) (hpending : s.host.w.txPending = true) :
    Consistent { s with
      host := { s.host with w := { s.host.w with txFetched := s.host.w.txFetched + 1 } } } := by
  have hout := hs.outstanding
  exact ⟨hs.host.nic rfl, hs.queue, hs.present, hs.host.fetched_lt hs.fetched hpending,
    by simp only; omega⟩

theorem Consistent.writeEvent (hs : Consistent s) {ev : Word} (hev : evEmpty ev = false)
    (hroom : s.backlog.length < numEvqEntry) (n : ℕ) :
    Consistent { s with
      host := { s.host with w := s.host.w.writeEvent ev }, reported := n } := by
  have hle := hs.queue.read_le
  rw [Sys.backlog, List.length_drop] at hroom
  refine ⟨hs.host.nic rfl, hs.queue.push (by omega) ev, ?_, hs.fetched, hs.outstanding⟩
  intro e he
  rcases List.mem_append.mp he with hold | hnew
  · exact hs.present e hold
  · rwa [List.mem_singleton.mp hnew]

theorem Consistent.mem_backlog_writeEvent (hs : Consistent s) {ev e : Word} {n : ℕ}
    (h : e ∈ Sys.backlog { s with
      host := { s.host with w := s.host.w.writeEvent ev }, reported := n }) :
    e ∈ s.backlog ∨ e = ev := by
  simpa only [Sys.backlog, World.writeEvent, List.drop_append_of_le_length hs.queue.read_le,
    List.mem_append, List.mem_singleton] using h

end

/-- A step of a session, and the room it leaves. -/
theorem step_host_eq_some {s t : Sys} {a : Handover.Act} (hstep : step s (.host a) = some t) :
    ∃ h, Handover.step s.host a = some h ∧ HostMove s.host a h ∧
      (s.host.posted ≤ h.posted ∧ h.w.txFetched = s.host.w.txFetched) ∧
      h.posted ≤ h.w.txFetched + (numTxDesc - 1) ∧
      t = { s with host := h, succeeded := s.succeeded ++ returned s.host a } := by
  by_cases hnic : ∃ u, a = .nic u
  · obtain ⟨u, rfl⟩ := hnic
    cases hstep
  · have hne : ∀ u, a ≠ .nic u := fun u hu => hnic ⟨u, hu⟩
    simp only [step] at hstep
    split at hstep
    next => cases hstep
    next h hhost =>
      split_ifs at hstep with hout
      exact ⟨h, hhost, step_hostMove hne hhost, Handover.step_posted hne hhost, hout,
        (Option.some.inj hstep).symm⟩

theorem consistent_step (s : Sys) (a : Act) (t : Sys) (hs : Consistent s)
    (hstep : step s a = some t) : Consistent t := by
  cases a with
  | host a =>
    obtain ⟨h, hhost, hmove, hposted, hout, rfl⟩ := step_host_eq_some hstep
    exact hs.hostStep hmove (Handover.inv_step _ _ _ hs.host hhost) hposted hout _
  | complete =>
    simp only [step] at hstep
    split_ifs at hstep with hpending
    exact Option.some.inj hstep ▸ hs.complete hpending
  | txEvent ev =>
    simp only [step] at hstep
    split_ifs at hstep with hevent
    obtain ⟨-, hcode, -, hroom⟩ := hevent
    exact Option.some.inj hstep ▸ hs.writeEvent (evEmpty_of_tx hcode) hroom _
  | otherEvent ev =>
    simp only [step] at hstep
    split_ifs at hstep with hevent
    obtain ⟨-, hev, hroom⟩ := hevent
    exact Option.some.inj hstep ▸ hs.writeEvent hev hroom s.reported
  | dma mem =>
    obtain rfl := Option.some.inj hstep
    exact ⟨hs.host.nic rfl, hs.queue, hs.present, hs.fetched, hs.outstanding⟩

section
variable {s : Sys}

/-- A send starts: nothing in the queue is taken for its completion. -/
theorem Inv.waiting_tx (hs : Inv s) (hpc : s.host.pc = .ready .ioctl)
    (hfresh : ∀ ev ∈ s.backlog, isTxCompletion ev s.host.sc.txHead = false) (req : TxReq)
    (l : List ℕ) : Waiting { s with
      host := { s.host with
        w := txPost s.host.sc s.host.w req
        pc := .txWait ⟨s.host.sc.txHead, 0, false, 0⟩
        posted := s.host.posted + 1 }
      succeeded := l } ⟨s.host.sc.txHead, 0, false, 0⟩ where
  pos := Nat.succ_pos _
  idx := by
    have htx := (hs.consistent.host.kernelSynced (by simp [hpc, Handover.Pc.direct])).tx
    rw [hpc] at htx
    exact htx
  done hdone := by simp at hdone
  own ev hmem hev := by
    rw [hfresh ev hmem] at hev
    cases hev

/-- The wait goes on: an event that ends it was in the queue. -/
theorem Inv.waiting_txPoll (hs : Inv s) {t : TxWait} (hpc : s.host.pc = .txWait t)
    (l : List ℕ) : Waiting { s with
      host := { s.host with
        w := (txPollIter s.host.sc s.host.w t).2.1
        sc := (txPollIter s.host.sc s.host.w t).1
        pc := .txWait (txPollIter s.host.sc s.host.w t).2.2
        consumed :=
          s.host.consumed + ((txPollIter s.host.sc s.host.w t).2.2.consumed - t.consumed) }
      succeeded := l } (txPollIter s.host.sc s.host.w t).2.2 := by
  have hw := hs.waiting t hpc
  obtain hnone | ⟨ev, rest, hback, hrest, hone⟩ := hs.consistent.txPoll_cases hpc
  · simp only [hnone]
    exact ⟨hw.pos, hw.idx, hw.done, by simpa [Sys.backlog] using hw.own⟩
  · simp only [hone]
    refine ⟨hw.pos, hw.idx, fun hend => ?_, fun e hmem => hw.own e ?_⟩
    · rcases Bool.or_eq_true_iff.mp hend with hbefore | hnow
      · exact hw.done hbefore
      · exact hw.own ev (by rw [hback]; exact List.mem_cons_self) hnow
    · rw [hback, ← hrest]
      refine List.mem_cons_of_mem _ ?_
      simpa [Sys.backlog, consumeEv] using hmem

/-- What the call that returns is recorded with. -/
theorem Inv.completed_returned (hs : Inv s) {a : Handover.Act} {n : ℕ}
    (h : n ∈ returned s.host a) : n < s.host.w.txFetched := by
  unfold returned at h
  split at h
  next =>
    split at h
    next t hpc =>
      cases hdone : t.done with
      | true =>
        obtain rfl : n = s.host.posted - 1 := by simpa [txFinish, hdone] using h
        exact (hs.waiting t hpc).done hdone
      | false => simp [txFinish, hdone] at h
    next => cases h
  next => cases h

/-- The NIC's completions and events end no wait that is not theirs to end. -/
theorem Inv.waiting_congr {t : Sys} (hs : Inv s) (hpc : t.host.pc = s.host.pc)
    (hposted : t.host.posted = s.host.posted)
    (hfetched : s.host.w.txFetched ≤ t.host.w.txFetched)
    (hback : ∀ u, s.host.pc = .txWait u → ∀ ev ∈ t.backlog, ev ∈ s.backlog ∨
      (isTxCompletion ev u.postedIdx = true → s.host.posted - 1 < t.host.w.txFetched)) :
    ∀ u, t.host.pc = .txWait u → Waiting t u := by
  intro u hu
  rw [hpc] at hu
  have hw := hs.waiting u hu
  refine ⟨hposted ▸ hw.pos, hposted ▸ hw.idx, fun hdone => ?_, fun ev hmem hev => ?_⟩
  · rw [hposted]
    exact (hw.done hdone).trans_le hfetched
  · rw [hposted]
    rcases hback u hu ev hmem with hold | hnew
    · exact (hw.own ev hold hev).trans_le hfetched
    · exact hnew hev

end

theorem inv_step (s : Sys) (a : Act) (t : Sys) (hs : Inv s) (hfresh : NoStale s a)
    (hstep : step s a = some t) : Inv t := by
  have hconsistent := consistent_step s a t hs.consistent hstep
  cases a with
  | host a =>
    obtain ⟨h, -, hmove, ⟨-, hfetched⟩, -, rfl⟩ := step_host_eq_some hstep
    refine ⟨hconsistent, ?_, fun n hn => ?_⟩
    · intro u hu
      cases hmove with
      | tx hpc hvalid =>
        obtain rfl := Handover.Pc.txWait.inj hu
        exact hs.waiting_tx hpc (hfresh hvalid rfl) _ _
      | txPoll hpc =>
        obtain rfl := Handover.Pc.txWait.inj hu
        exact hs.waiting_txPoll hpc _
      | txReturn => cases hu
      | quiet _ _ _ _ hpc => exact absurd hu (hpc u)
      | take _ _ _ _ _ hpc => exact absurd hu (hpc u)
    · rw [hfetched]
      rcases List.mem_append.mp hn with hold | hnew
      · exact hs.completed n hold
      · exact hs.completed_returned hnew
  | complete =>
    simp only [step] at hstep
    split_ifs at hstep with hpending
    obtain rfl := Option.some.inj hstep
    refine ⟨hconsistent, hs.waiting_congr rfl rfl (Nat.le_succ _) fun u _ ev hev => .inl hev,
      fun n hn => Nat.lt_succ_of_lt (hs.completed n hn)⟩
  | txEvent ev =>
    simp only [step] at hstep
    split_ifs at hstep with hevent
    obtain ⟨hreported, -, hidx, -⟩ := hevent
    obtain rfl := Option.some.inj hstep
    refine ⟨hconsistent, hs.waiting_congr rfl rfl le_rfl fun u hu e he => ?_, hs.completed⟩
    refine (hs.consistent.mem_backlog_writeEvent he).imp_right ?_
    rintro rfl hcompletes
    rw [(hs.waiting u hu).idx] at hcompletes
    exact isTxCompletion_last (Nat.zero_lt_of_lt hreported) hs.consistent.fetched
      hs.consistent.outstanding hidx hcompletes
  | otherEvent ev =>
    simp only [step] at hstep
    split_ifs at hstep with hevent
    obtain ⟨hcode, -, -⟩ := hevent
    obtain rfl := Option.some.inj hstep
    refine ⟨hconsistent, hs.waiting_congr rfl rfl le_rfl fun u _ e he => ?_, hs.completed⟩
    refine (hs.consistent.mem_backlog_writeEvent (n := s.reported) he).imp_right ?_
    rintro rfl hcompletes
    simp [isTxCompletion, hcode] at hcompletes
  | dma mem =>
    obtain rfl := Option.some.inj hstep
    exact ⟨hconsistent, hs.waiting_congr rfl rfl le_rfl fun u _ ev hev => .inl hev, hs.completed⟩

/-- A session opened for one of the two paths. -/
def openSession (mode : Handover.Mode) : List Act :=
  (Handover.openCalls mode).map .host

def oneByte : TxReq := ⟨true, true, 1, 1, [1]⟩

section
variable {s : Sys}

theorem step_host {a : Handover.Act} {h : Handover.Sys} (hnic : ∀ u, a ≠ .nic u)
    (hstep : Handover.step s.host a = some h)
    (hout : h.posted ≤ h.w.txFetched + (numTxDesc - 1)) :
    step s (.host a) = some { s with
      host := h, succeeded := s.succeeded ++ returned s.host a } := by
  cases a <;> first
    | exact absurd rfl (hnic _)
    | simp only [step, hstep, if_pos hout]

/-- Calls of a session, none of which returns from `SFC7120_TX`. -/
theorem calls_run {as : List Handover.Act} {h : Handover.Sys}
    (hcalls : ∀ a ∈ as, (∀ u, a ≠ .nic u) ∧ a ≠ .txReturn)
    (hrun : run Handover.step s.host as = some h)
    (hout : h.posted ≤ h.w.txFetched + (numTxDesc - 1)) :
    run step s (as.map .host) = some { s with host := h } := by
  have hone : ∀ g a u, (∀ w, a ≠ .nic w) ∧ a ≠ .txReturn → Handover.step g a = some u →
      u.posted ≤ u.w.txFetched + (numTxDesc - 1) → g.posted ≤ g.w.txFetched + (numTxDesc - 1) ∧
        step { s with host := g } (.host a) = some { s with host := u } := by
    rintro g a u ⟨hnic, hreturn⟩ hstep hroom
    obtain ⟨hposted, hfetched⟩ := Handover.step_posted hnic hstep
    have hnone : returned g a = [] := by
      cases a <;> first | rfl | exact absurd rfl hreturn
    have hhost := step_host (s := { s with host := g }) hnic hstep hroom
    rw [hnone, List.append_nil] at hhost
    exact ⟨hfetched ▸ hposted.trans hroom, hhost⟩
  exact (run_map hone hcalls hrun hout).2

/-- `sfc7120_init` with every call succeeding. -/
theorem openSession_run (mode : Handover.Mode) (hpc : s.host.pc = .closed)
    (hout : s.host.posted ≤ s.host.w.txFetched + (numTxDesc - 1)) :
    run step s (openSession mode) = some { s with host := { s.host with
      sfc := { SfcIf.fresh s.host.sc.txBufferPaddr s.host.sc.rxBufferPaddr with
        evqReadPtr := s.host.sc.dataEvqReadPtr
        rxHead := s.host.sc.rxHead
        txHead := s.host.sc.txHead }
      viInfoValid := true
      pc := .ready mode } } :=
  calls_run (by simp [Handover.openCalls]) (Handover.openCalls_run mode hpc) hout

end

/-- In every run in which no send is posted to a slot that an event left in the queue completes,
every send that returned 0 was completed by the NIC. -/
theorem tx_success_completed {viBase : ℕ} {txBase rxBase : Word} {mem : ℕ → ByteMemory.Byte}
    {as : List Act} {s : Sys} (hrun : run step (start viBase txBase rxBase mem) as = some s)
    (hfresh : Along step NoStale (start viBase txBase rxBase mem) as) :
    ∀ n ∈ s.succeeded, n < s.host.w.txFetched :=
  (run_invariant_along inv_step (inv_start viBase txBase rxBase mem) hfresh hrun).completed

/-- A session opened and one send, completed while it waits. -/
def sendOnce : List Act :=
  openSession .ioctl ++ [.host (.tx oneByte none), .complete, .txEvent 0x2000000000000000#64,
    .host .txPoll, .host .txReturn]

theorem tx_success_completed_once :
    ∃ s, run step (start 8 0x100000#64 0x200000#64 fun _ => 0) sendOnce = some s ∧
      s.succeeded = [0] ∧ ∀ n ∈ s.succeeded, n < s.host.w.txFetched := by
  have hsome : (run step (start 8 0x100000#64 0x200000#64 fun _ => 0) sendOnce).map
      Sys.succeeded = some [0] := by decide +kernel
  obtain ⟨s, hs, heq⟩ := Option.map_eq_some_iff.mp hsome
  have hopening : ∀ a ∈ openSession .ioctl, ∀ s, NoStale s a := by
    intro a ha s
    simp only [openSession, Handover.openCalls, List.map_cons, List.map_replicate, List.mem_cons,
      List.mem_replicate] at ha
    rcases ha with rfl | ⟨-, rfl⟩ <;> trivial
  have hfresh : Along step NoStale (start 8 0x100000#64 0x200000#64 fun _ => 0) sendOnce := by
    refine (along_of_forall hopening _).append (openSession_run .ioctl rfl (Nat.zero_le _)) ?_
    -- the queue is empty, so the send cannot meet anything
    exact ⟨fun _ _ ev hev => absurd hev List.not_mem_nil,
      fun t _ => along_of_forall (by simp [NoStale]) t⟩
  exact ⟨s, hs, heq, tx_success_completed hs hfresh⟩

section
variable {s : Sys}

/-- The wait reads the oldest event of the backlog. -/
theorem txPoll_step {ev : Word} {rest : List Word} {t : TxWait} (hs : Consistent s)
    (hpc : s.host.pc = .txWait t) (hagain : t.again = true) (hback : s.backlog = ev :: rest) :
    ∃ u, step s (.host .txPoll) = some u ∧ Consistent u ∧ u.backlog = rest ∧
      u.host.pc = .txWait { t with
        tries := t.tries + 1
        done := t.done || isTxCompletion ev t.postedIdx
        consumed := t.consumed + 1 } ∧
      u.host.posted = s.host.posted ∧ u.host.w.txFetched = s.host.w.txFetched ∧
      u.succeeded = s.succeeded := by
  obtain ⟨hslot, hev, hrest⟩ := hs.head hback
  have hiter : txPollIter s.host.sc s.host.w t =
      ((consumeEv s.host.sc s.host.w).1, (consumeEv s.host.sc s.host.w).2,
        { t with
          tries := t.tries + 1
          done := t.done || isTxCompletion ev t.postedIdx
          consumed := t.consumed + 1 }) := by
    simp only [txPollIter, hs.readPtr_of_txWait hpc, hslot, hev, Bool.false_eq_true, if_false]
  have hhost : Handover.step s.host .txPoll = some { s.host with
      w := (consumeEv s.host.sc s.host.w).2
      sc := (consumeEv s.host.sc s.host.w).1
      pc := .txWait { t with
        tries := t.tries + 1
        done := t.done || isTxCompletion ev t.postedIdx
        consumed := t.consumed + 1 }
      consumed := s.host.consumed + 1 } := by
    simp only [Handover.step, hpc, hagain, if_true, hiter, Nat.add_sub_cancel_left]
  have hstep := step_host (by simp) hhost hs.outstanding
  exact ⟨_, hstep, consistent_step _ _ _ hs hstep, hrest, rfl, rfl, rfl, List.append_nil _⟩

/-- A send waits for an event that is already there: it reads up to it and is done. -/
theorem txPoll_run {pre rest : List Word} {ev : Word} {t : TxWait} (hs : Consistent s)
    (hpc : s.host.pc = .txWait t) (hback : s.backlog = pre ++ ev :: rest)
    (hpre : ∀ e ∈ pre, isTxCompletion e t.postedIdx = false)
    (hev : isTxCompletion ev t.postedIdx = true) (hdone : t.done = false)
    (htries : t.tries + pre.length < txTries) :
    ∃ u v, run step s (List.replicate (pre.length + 1) (.host .txPoll)) = some u ∧
      Consistent u ∧ u.host.pc = .txWait v ∧ v.done = true ∧ u.host.posted = s.host.posted ∧
      u.host.w.txFetched = s.host.w.txFetched ∧ u.succeeded = s.succeeded := by
  have hagain : t.again = true := TxWait.again_eq_true (by omega) hdone
  induction pre generalizing s t with
  | nil =>
    obtain ⟨u, hstep, hu, -, hpcu, hrest⟩ := txPoll_step hs hpc hagain hback
    exact ⟨u, _, run_cons.mpr ⟨u, hstep, rfl⟩, hu, hpcu, by simp [hev], hrest⟩
  | cons e pre ih =>
    obtain ⟨hne, hpre⟩ := List.forall_mem_cons.mp hpre
    obtain ⟨u, hstep, hu, hbacku, hpcu, hposted, hfetched, hsucc⟩ :=
      txPoll_step hs hpc hagain hback
    rw [hne, Bool.or_false] at hpcu
    rw [List.length_cons] at htries
    obtain ⟨x, v, hrun, hx, hpcx, hv, hpostedx, hfetchedx, hsuccx⟩ :=
      ih hu hpcu hbacku hpre hev hdone (by simp only; omega)
        (TxWait.again_eq_true (by simp only; omega) hdone)
    exact ⟨x, v, run_cons.mpr ⟨u, hstep, hrun⟩, hx, hpcx, hv, hpostedx.trans hposted,
      hfetchedx.trans hfetched, hsuccx.trans hsucc⟩

/-- A call whose wait is over returns 0. -/
theorem txReturn_step {v : TxWait} (hs : Consistent s) (hpc : s.host.pc = .txWait v)
    (hdone : v.done = true) :
    ∃ u, step s (.host .txReturn) = some u ∧ u.succeeded = s.succeeded ++ [s.host.posted - 1] ∧
      u.host.w.txFetched = s.host.w.txFetched := by
  have hfetched := (Handover.ackEvq_queue s.host.sc s.host.w v.consumed).2.2
  have hhost : Handover.step s.host .txReturn = some { s.host with
      w := ackEvq s.host.sc s.host.w v.consumed
      sc := (txFinish s.host.sc v).1
      pc := .ready .ioctl } := by
    simp [Handover.step, hpc, TxWait.again, hdone]
  have hstep := step_host (by simp) hhost (by simp only [hfetched]; exact hs.outstanding)
  refine ⟨_, hstep, ?_, hfetched⟩
  simp [returned, hpc, txFinish, hdone]

/-- A send that meets an event left for its slot can return 0 before the NIC has completed it. -/
theorem stale_send_reaches {req : TxReq} (hs : Consistent s) (hpc : s.host.pc = .ready .ioctl)
    (hvalid : txValidate req = none)
    (hout : s.host.posted + 1 ≤ s.host.w.txFetched + (numTxDesc - 1))
    (hstale : ¬ NoStale s (.host (.tx req none))) :
    ∃ u, Reaches step s u ∧ ∃ n ∈ u.succeeded, ¬ n < u.host.w.txFetched := by
  obtain ⟨ev, hmem, hev⟩ : ∃ ev ∈ s.backlog, isTxCompletion ev s.host.sc.txHead = true := by
    simpa [NoStale, hvalid] using hstale
  have hsome : (s.backlog.find? fun ev => isTxCompletion ev s.host.sc.txHead).isSome :=
    List.find?_isSome.mpr ⟨ev, hmem, hev⟩
  obtain ⟨first, hfind⟩ := Option.isSome_iff_exists.mp hsome
  obtain ⟨hfirst, pre, rest, hback, hpre⟩ := List.find?_eq_some_iff_append.mp hfind
  -- the queue is shorter than the wait
  have hlen : pre.length < txTries := by
    have hwithin := hs.queue.within
    have hlength := congrArg List.length hback
    simp only [Sys.backlog, List.length_drop, List.length_append, List.length_cons] at hlength
    simp only [numEvqEntry, txTries] at hwithin ⊢
    omega
  have hhost : Handover.step s.host (.tx req none) = some { s.host with
      w := txPost s.host.sc s.host.w req
      pc := .txWait ⟨s.host.sc.txHead, 0, false, 0⟩
      posted := s.host.posted + 1 } := by
    simp [Handover.step, hpc, hvalid]
  have hstep := step_host (by simp) hhost hout
  obtain ⟨u, v, hrun, hu, hpcu, hv, hposted, hfetched, -⟩ :=
    txPoll_run (consistent_step _ _ _ hs hstep) rfl hback (by simpa using hpre) hfirst rfl
      (by simpa using hlen)
  obtain ⟨x, hreturn, hsucc, hfetchedx⟩ := txReturn_step hu hpcu hv
  refine ⟨x, .step hstep (.trans ⟨_, hrun⟩ (.step hreturn (.refl _ _))), s.host.posted, ?_, ?_⟩
  · simp [hsucc, hposted]
  · rw [hfetchedx, hfetched]
    exact Nat.not_lt.mpr hs.fetched

end

/-- A direct session that has posted `k` descriptors, `c` of them completed, and polls nothing. -/
structure Sending (s : Sys) (k c r : ℕ) (evs : List Word) : Prop where
  consistent : Consistent s
  pc : s.host.pc = .ready .direct
  ready : txPostReady s.host.sfc 1 = true
  posted : s.host.posted = k
  fetched : s.host.w.txFetched = c
  reported : s.reported = r
  log : s.host.w.evLog = evs
  consumed : s.host.consumed = 0
  rung : 0 < k → (s.host.w.regs regDataTxWptrDbl).isSome

section
variable {s : Sys} {k c r : ℕ} {evs : List Word}

theorem Sending.post (h : Sending s k c r evs) (hout : k + 1 ≤ c + (numTxDesc - 1)) :
    ∃ t, run step s ((Handover.postCalls [1] 1).map .host) = some t ∧
      Sending t (k + 1) c r evs := by
  rw [← h.posted, ← h.fetched] at hout
  have hcalls := Handover.postCalls_run [1] 1 h.pc (if_pos h.ready)
  have hrun := calls_run (by simp [Handover.postCalls]) hcalls hout
  refine ⟨_, hrun, run_invariant consistent_step h.consistent hrun, h.pc, h.ready,
    congrArg (· + 1) h.posted, h.fetched, h.reported, h.log, h.consumed, fun _ => ?_⟩
  simp [txPostRing, World.writeReg, regDataTxWptrDbl]

theorem Sending.posts (n : ℕ) (h : Sending s k c r evs) (hout : k + n ≤ c + (numTxDesc - 1)) :
    ∃ t, Reaches step s t ∧ Sending t (k + n) c r evs := by
  induction n generalizing s k with
  | zero => exact ⟨s, .refl _ _, h⟩
  | succ n ih =>
    obtain ⟨t, hrun, ht⟩ := h.post (by omega)
    obtain ⟨u, hreach, hu⟩ := ih ht (by omega)
    rw [Nat.add_assoc, Nat.add_comm 1] at hu
    exact ⟨u, .trans ⟨_, hrun⟩ hreach, hu⟩

theorem Sending.complete (h : Sending s k c r evs) (hlt : c < k) :
    ∃ t, step s .complete = some t ∧ Sending t k (c + 1) r evs := by
  have hpending : s.host.w.txPending = true := by
    refine h.consistent.host.txPending (h.rung (Nat.zero_lt_of_lt hlt)) ?_ h.consistent.outstanding
    rwa [h.posted, h.fetched]
  have hstep : step s .complete = some { s with
      host := { s.host with w := { s.host.w with txFetched := s.host.w.txFetched + 1 } } } := by
    simp only [step, hpending, if_true]
  exact ⟨_, hstep, consistent_step _ _ _ h.consistent hstep, h.pc, h.ready, h.posted,
    congrArg (· + 1) h.fetched, h.reported, h.log, h.consumed, h.rung⟩

theorem Sending.completes (n : ℕ) (h : Sending s k c r evs) (hle : c + n ≤ k) :
    ∃ t, Reaches step s t ∧ Sending t k (c + n) r evs := by
  induction n generalizing s c with
  | zero => exact ⟨s, .refl _ _, h⟩
  | succ n ih =>
    obtain ⟨t, hstep, ht⟩ := h.complete (by omega)
    obtain ⟨u, hreach, hu⟩ := ih ht (by omega)
    rw [Nat.add_assoc, Nat.add_comm 1] at hu
    exact ⟨u, .step hstep hreach, hu⟩

theorem Sending.txEvent (h : Sending s k c r evs) (ev : Word) (hlt : r < c)
    (hcode : evCode ev = 2#32) (hidx : (evTxDescIdx ev).toNat = (c - 1) % 2 ^ 16)
    (hroom : evs.length < numEvqEntry) :
    ∃ t, step s (.txEvent ev) = some t ∧ Sending t k c c (evs ++ [ev]) := by
  have hstep : step s (.txEvent ev) = some { s with
      host := { s.host with w := s.host.w.writeEvent ev }
      reported := s.host.w.txFetched } := by
    simp only [step, Sys.backlog, h.reported, h.fetched, h.log, h.consumed, List.drop_zero]
    rw [if_pos ⟨hlt, hcode, hidx, hroom⟩]
  exact ⟨_, hstep, consistent_step _ _ _ h.consistent hstep, h.pc, h.ready, h.posted, h.fetched,
    h.fetched, congrArg (· ++ [ev]) h.log, h.consumed, h.rung⟩

/-- The next session finds the queue as this one left it. -/
theorem Sending.reopen (h : Sending s k c r evs) :
    ∃ t, Reaches step s t ∧ Consistent t ∧ t.host.pc = .ready .ioctl ∧
      t.host.sc.txHead = k % numTxDesc ∧ t.backlog = evs ∧ t.host.posted = k ∧
      t.host.w.txFetched = c := by
  have hhost : Handover.step s.host .destroy = some (Handover.destroy s.host) := by
    simp [Handover.step, h.pc]
  have hstep := step_host (by simp) hhost h.consistent.outstanding
  have hclosed := consistent_step _ _ _ h.consistent hstep
  have hopen := openSession_run .ioctl rfl hclosed.outstanding
  refine ⟨_, .step hstep ⟨_, hopen⟩, run_invariant consistent_step hclosed hopen, rfl, ?_, ?_,
    h.posted, h.fetched⟩
  · have htx := (hclosed.host.kernelSynced rfl).tx
    rw [← h.posted]
    exact htx
  · simp [Sys.backlog, Handover.destroy, h.log, h.consumed]

end

/-- A direct session posts 512 descriptors, all of them completed, and never polls. The send of
the next session is posted to the slot of the first and takes its event for its own. -/
theorem tx_success_uncompleted :
    ¬ ∀ (viBase : ℕ) (txBase rxBase : Word) (mem : ℕ → ByteMemory.Byte) (as : List Act) (s : Sys),
      run step (start viBase txBase rxBase mem) as = some s →
      ∀ n ∈ s.succeeded, n < s.host.w.txFetched := by
  intro h
  have hopen := openSession_run .direct (s := start 8 0x100000#64 0x200000#64 fun _ => 0) rfl
    (Nat.zero_le _)
  have hstart := consistent_start 8 0x100000#64 0x200000#64 fun _ => 0
  obtain ⟨s₁, hr₁, h₁⟩ := Sending.posts 1 (k := 0) (c := 0) (r := 0)
    ⟨run_invariant consistent_step hstart hopen, rfl, by decide, rfl, rfl, rfl, rfl, rfl,
      fun hlt => absurd hlt (Nat.lt_irrefl 0)⟩ (by decide)
  obtain ⟨s₂, hr₂, h₂⟩ := h₁.completes 1 (by decide)
  obtain ⟨s₃, hr₃, h₃⟩ := h₂.txEvent 0x2000000000000000#64 (by decide) (by decide)
    (by decide) (by decide)
  obtain ⟨s₄, hr₄, h₄⟩ := h₃.posts 511 (by decide)
  obtain ⟨s₅, hr₅, h₅⟩ := h₄.completes 511 (by decide)
  obtain ⟨s₆, hr₆, h₆⟩ := h₅.txEvent 0x20000000000001ff#64 (by decide) (by decide)
    (by decide) (by decide)
  obtain ⟨s₇, hr₇, h₇, hpc, hhead, hback, hposted, hfetched⟩ := h₆.reopen
  have hstale : ¬ NoStale s₇ (.host (.tx oneByte none)) := by
    intro hfresh
    have hnone := hfresh (by decide) rfl 0x2000000000000000#64 (by simp [hback])
    rw [hhead] at hnone
    exact absurd hnone (by decide)
  obtain ⟨s₈, hr₈, n, hn, hlt⟩ := stale_send_reaches h₇ hpc (by decide)
    (by rw [hposted, hfetched]; decide) hstale
  obtain ⟨as, hrun⟩ := Reaches.trans ⟨_, hopen⟩ (hr₁.trans (hr₂.trans (.step hr₃ (hr₄.trans
    (hr₅.trans (.step hr₆ (hr₇.trans hr₈)))))))
  exact hlt (h 8 _ _ _ as s₈ hrun n hn)

end Sfc7120.Completion

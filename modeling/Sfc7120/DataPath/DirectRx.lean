import Sfc7120.Lib.Machine
import Sfc7120.DataPath.Rings

/-! Direct-path receive as a system: an application that polls and receives in any order of
calls, and a NIC that acts between any two of their memory accesses. -/
namespace Sfc7120.DirectRx

open ByteMemory RingQueue Machine

/-- Where the application is. It owes one `rx_recv` for every RX event `poll` returned. -/
inductive Pc where
  | idle
  | polling (room : ℕ) (evs : List Ev)
  | acking (evs : List Ev)
  | copied (frame : Frame)
  | posted (frame : Frame)

def Pc.evs : Pc → List Ev
  | .polling _ evs => evs
  | .acking evs => evs
  | _ => []

def Pc.frame : Pc → Option Frame
  | .copied f => some f
  | .posted f => some f
  | _ => none

structure Sys where
  w : World
  sfc : SfcIf
  pc : Pc
  /-- Byte counts of the RX events poll returned whose `rx_recv` has not returned. -/
  pending : List (BitVec 16)
  delivered : List Frame

inductive Act where
  | callPoll (maxEvs : ℤ)
  | pollStep
  | pollReturn
  | callRecv
  | recvPost
  | recvReturn
  | nicFill (pre : List Byte) (frame : Frame)
  | nicRxEvent (ev : Word)
  | nicOtherEvent (ev : Word)

/-- The byte counts of the RX events among decoded events. -/
def rxEvs (evs : List Ev) : List (BitVec 16) :=
  (evs.filter fun e => e.type = .rx).map Ev.rxBytes

def step (s : Sys) : Act → Option Sys
  | .callPoll maxEvs =>
      match s.pc with
      | .idle =>
          if pollReady s.sfc maxEvs then
            some { s with
              sfc := { s.sfc with usedPoll := true }, pc := .polling maxEvs.toNat [] }
          else none
      | _ => none
  | .pollStep =>
      match s.pc with
      | .polling 0 evs => some { s with pc := .acking evs }
      | .polling (room + 1) evs =>
          match pollIter s.sfc s.w with
          | none => some { s with pc := .acking evs }
          | some (ev, sfc, w) =>
              some { s with w := w, sfc := sfc, pc := .polling room (evs ++ [ev]) }
      | _ => none
  | .pollReturn =>
      match s.pc with
      | .acking evs =>
          some { s with
            w := pollAck s.sfc s.w evs.length, pc := .idle, pending := s.pending ++ rxEvs evs }
      | _ => none
  | .callRecv =>
      match s.pc, s.pending with
      | .idle, rxBytes :: _ =>
          if rxRecvReady s.sfc then
            some { s with
              sfc := { s.sfc with usedPoll := true }, pc := .copied (rxRecvCopy s.sfc s.w rxBytes) }
          else none
      | _, _ => none
  | .recvPost =>
      match s.pc with
      | .copied f => some { s with w := rxRecvPost s.sfc s.w, pc := .posted f }
      | _ => none
  | .recvReturn =>
      match s.pc with
      | .posted f =>
          let r := rxRecvRing s.sfc s.w
          some { s with
            w := r.2, sfc := r.1, pc := .idle, pending := s.pending.tail,
            delivered := s.delivered ++ [f] }
      | _ => none
  | .nicFill pre frame => (s.w.nicRxFill pre frame).map fun w => { s with w := w }
  | .nicRxEvent ev => (s.w.nicRxEvent ev).map fun w => { s with w := w }
  | .nicOtherEvent ev => (s.w.nicOtherEvent ev).map fun w => { s with w := w }

theorem pollLoop_reaches {room : ℕ} {s : Sys} {sfc : SfcIf} {w : World} {evs evs' : List Ev}
    (hpc : s.pc = .polling room evs) (hloop : pollLoop room s.sfc s.w evs = (sfc, w, evs')) :
    Reaches step s { s with w := w, sfc := sfc, pc := .acking evs' } := by
  induction room generalizing s evs with
  | zero =>
    obtain ⟨rfl, rfl, rfl⟩ : _ ∧ _ ∧ _ := by simpa [pollLoop] using hloop
    apply Reaches.step (a := .pollStep) _ (.refl _ _)
    simp only [step, hpc]
  | succ room ih =>
    unfold pollLoop at hloop
    split at hloop
    next hiter =>
      obtain ⟨rfl, rfl, rfl⟩ : _ ∧ _ ∧ _ := by simpa using hloop
      apply Reaches.step (a := .pollStep) _ (.refl _ _)
      simp only [step, hpc, hiter]
    next ev sfc₁ w₁ hiter =>
      have hrest := ih (s := { s with w := w₁, sfc := sfc₁, pc := .polling room (evs ++ [ev]) }) rfl
        hloop
      apply Reaches.step (a := .pollStep) _ hrest
      simp only [step, hpc, hiter]

/-- A call of `sfc7120_poll` in which the NIC does not act is a run of the system. -/
theorem poll_reaches {s : Sys} {maxEvs : ℤ} {evs : List Ev} {sfc : SfcIf} {w : World}
    (hpc : s.pc = .idle) (hpoll : poll s.sfc s.w maxEvs = some (evs, sfc, w)) :
    Reaches step s { s with w := w, sfc := sfc, pending := s.pending ++ rxEvs evs } := by
  unfold poll at hpoll
  split_ifs at hpoll with hready
  obtain ⟨⟨sfc₁, w₁, evs₁⟩, hloop⟩ :
      ∃ r, pollLoop maxEvs.toNat { s.sfc with usedPoll := true } s.w [] = r := ⟨_, rfl⟩
  simp only [hloop] at hpoll
  obtain ⟨rfl, rfl, rfl⟩ : _ ∧ _ ∧ _ := by simpa using hpoll
  have hcall : step s (.callPoll maxEvs) =
      some { s with sfc := { s.sfc with usedPoll := true }, pc := .polling maxEvs.toNat [] } := by
    simp only [step, hpc, hready, if_true]
  refine .step hcall (.trans (pollLoop_reaches rfl hloop) (.step (a := .pollReturn) ?_ (.refl _ _)))
  simp only [step, hpc]

/-- A call of `sfc7120_rx_recv` in which the NIC does not act is a run of the system. -/
theorem rxRecv_reaches {s : Sys} {rxBytes : BitVec 16} {rest : List (BitVec 16)} {frame : Frame}
    {sfc : SfcIf} {w : World} (hpc : s.pc = .idle) (hpend : s.pending = rxBytes :: rest)
    (hrecv : rxRecv s.sfc s.w rxBytes = some (frame, sfc, w)) :
    Reaches step s { s with
      w := w, sfc := sfc, pending := rest, delivered := s.delivered ++ [frame] } := by
  unfold rxRecv at hrecv
  split_ifs at hrecv with hready
  obtain ⟨rfl, hring⟩ := Prod.mk.inj (Option.some.inj hrecv)
  obtain ⟨rfl, rfl⟩ := Prod.mk.inj hring
  obtain ⟨w₀, sfc₀, pc, pending, delivered⟩ := s
  obtain rfl : pc = .idle := hpc
  obtain rfl : pending = rxBytes :: rest := hpend
  have hcall : rxRecvReady sfc₀ = true := hready
  refine ⟨[.callRecv, .recvPost, .recvReturn], ?_⟩
  simp only [run, step, hcall, if_true, Option.bind_some, List.tail_cons]
  rfl

/-- The state `sfc7120_post_rx_buffers` leaves, with userspace just initialised. -/
def start (txBase base : Word) (mem : ℕ → Byte) : Sys where
  w := postRxBuffers base (World.fresh mem)
  sfc := SfcIf.fresh txBase base
  pc := .idle
  pending := []
  delivered := []

/-- Frames reported to the application: those it received and those it still has to. -/
def Sys.reported (s : Sys) : ℕ := s.delivered.length + s.pending.length

/-- The three cursors tied together. `c` counts consumed events; the number of frames returned
counts re-posted slots; every RX event consumed and not yet answered is owed a receive. -/
structure Inv (base : Word) (s : Sys) (c : ℕ) : Prop where
  paddr : s.sfc.rxBufferPaddr = base
  readPtr : s.sfc.evqReadPtr = c % numEvqEntry
  rxHead : s.sfc.rxHead = s.delivered.length % numRxDesc
  evq : EvqView s.w c
  rx : RxRing base s.w s.delivered.length
  polled : s.w.evqAcked + s.pc.evs.length = c
  owed : (rxBytesOf (s.w.evLog.take c)).drop s.delivered.length = s.pending ++ rxEvs s.pc.evs
  returned : s.delivered.length ≤ (rxBytesOf (s.w.evLog.take c)).length
  received : s.delivered <+: s.w.accepted
  receiving : ∀ f, s.pc.frame = some f →
    s.pending ≠ [] ∧ s.w.accepted[s.delivered.length]? = some f

theorem inv_start (txBase base : Word) (mem : ℕ → Byte) : Inv base (start txBase base mem) 0 where
  paddr := rfl
  readPtr := rfl
  rxHead := rfl
  evq := evqView_start base mem
  rx := rxRing_start base mem
  polled := rfl
  owed := rfl
  returned := le_rfl
  received := List.nil_prefix
  receiving f hf := by simp [start, Pc.frame] at hf

/-- A NIC step keeps the invariant when it only adds to the two histories. -/
theorem Inv.nic {base : Word} {s : Sys} {c : ℕ} {u : World} (h : Inv base s c)
    (hevq : EvqView u c) (hrx : RxRing base u s.delivered.length)
    (hack : u.evqAcked = s.w.evqAcked) (hlog : s.w.evLog <+: u.evLog)
    (hacc : s.w.accepted <+: u.accepted) : Inv base { s with w := u } c := by
  have htake : u.evLog.take c = s.w.evLog.take c := by
    obtain ⟨l, hl⟩ := hlog
    rw [← hl, List.take_append_of_le_length h.evq.ring.read_le]
  refine ⟨h.paddr, h.readPtr, h.rxHead, hevq, hrx, ?_, ?_, ?_, h.received.trans hacc, ?_⟩
  · rw [hack]
    exact h.polled
  · rw [htake]
    exact h.owed
  · rw [htake]
    exact h.returned
  · intro f hf
    obtain ⟨hne, hget⟩ := h.receiving f hf
    obtain ⟨l, hl⟩ := hacc
    have hlt := (List.getElem?_eq_some_iff.mp hget).1
    exact ⟨hne, by rw [← hl, List.getElem?_append_left hlt]; exact hget⟩

theorem Inv.nicFill {base : Word} {s : Sys} {c : ℕ} {u : World} {pre : List Byte} {frame : Frame}
    (h : Inv base s c) (hbase : base.toNat + numRxDesc * rxBufferSize ≤ 2 ^ 48)
    (hu : s.w.nicRxFill pre frame = some u) : Inv base { s with w := u } c := by
  have hrx := (h.rx.nicRxFill hbase hu).2.1
  have hevq := h.evq.nicRxFill hu
  obtain ⟨mem, rfl⟩ := World.nicRxFill_eq hu
  exact h.nic hevq hrx rfl (List.prefix_refl _) (List.prefix_append _ _)

theorem Inv.nicRxEvent {base : Word} {s : Sys} {c : ℕ} {u : World} {ev : Word}
    (h : Inv base s c) (hu : s.w.nicRxEvent ev = some u) : Inv base { s with w := u } c := by
  have hrx := h.rx.nicRxEvent hu
  have hevq := h.evq.nicRxEvent hu
  obtain ⟨frame, v, -, -, -, hpost, rfl⟩ := World.nicRxEvent_eq hu
  obtain ⟨-, rfl⟩ := World.postEvent_eq hpost
  exact h.nic hevq hrx rfl (List.prefix_append _ _) (List.prefix_refl _)

theorem Inv.nicOtherEvent {base : Word} {s : Sys} {c : ℕ} {u : World} {ev : Word}
    (h : Inv base s c) (hu : s.w.nicOtherEvent ev = some u) : Inv base { s with w := u } c := by
  unfold World.nicOtherEvent at hu
  split_ifs at hu with hev
  have hrx := h.rx.postEvent hu
  have hevq := h.evq.postEvent hev.1 hev.2 hu
  obtain ⟨-, rfl⟩ := World.postEvent_eq hu
  exact h.nic hevq hrx rfl (List.prefix_append _ _) (List.prefix_refl _)

theorem rxEvs_append (evs : List Ev) (ev : Word) :
    rxEvs (evs ++ [decodeEv ev]) =
      rxEvs evs ++ if evCode ev = 0#32 then [evRxBytes ev] else [] := by
  by_cases h0 : evCode ev = 0#32
  · simp [rxEvs, List.filter_append, decodeEv, h0]
  · by_cases h2 : evCode ev = 2#32 <;> simp [rxEvs, List.filter_append, decodeEv, h0, h2]

/-- One round of the event loop moves the oldest event from the ring to the caller's array. -/
theorem Inv.pollIter {base : Word} {s : Sys} {c room : ℕ} {evs : List Ev} {ev : Ev}
    {sfc : SfcIf} {u : World} (h : Inv base s c) (hpc : s.pc = .polling (room + 1) evs)
    (hiter : pollIter s.sfc s.w = some (ev, sfc, u)) :
    Inv base { s with w := u, sfc := sfc, pc := .polling room (evs ++ [ev]) } (c + 1) := by
  simp only [Sfc7120.pollIter, h.readPtr] at hiter
  split_ifs at hiter with hempty
  obtain ⟨rfl, rfl, rfl⟩ : _ ∧ _ ∧ _ := by simpa using hiter
  obtain ⟨hc, hword, hevq⟩ := h.evq.consume (by simpa using hempty)
  have hevs : s.pc.evs = evs := by rw [hpc, Pc.evs]
  have howed := h.owed
  have hret := h.returned
  have hrx : RxRing base { s.w with dataEvq := Function.update s.w.dataEvq (c % numEvqEntry) 0 }
      s.delivered.length := h.rx.congr rfl rfl rfl fun _ _ _ _ => rfl
  refine ⟨h.paddr, ?_, h.rxHead, hevq, hrx, ?_, ?_, ?_, h.received, ?_⟩
  · simp [and_ringMask]
  · have hpolled := h.polled
    rw [hevs] at hpolled
    simp only [Pc.evs, List.length_append, List.length_singleton]
    omega
  · simp only [Pc.evs, hword]
    rw [rxBytesOf_take_succ hc, rxEvs_append, List.drop_append_of_le_length hret, howed, hevs,
      List.append_assoc]
  · show s.delivered.length ≤ (rxBytesOf (s.w.evLog.take (c + 1))).length
    rw [rxBytesOf_take_succ hc, List.length_append]
    omega
  · intro f hf
    simp [Pc.frame] at hf

/-- Ringing RPTR and returning turns the events of this call into receives owed. -/
theorem Inv.pollReturn {base : Word} {s : Sys} {c : ℕ} {evs : List Ev} (h : Inv base s c)
    (hpc : s.pc = .acking evs) :
    Inv base { s with
      w := pollAck s.sfc s.w evs.length, pc := .idle, pending := s.pending ++ rxEvs evs } c := by
  have hpolled := h.polled
  have howed := h.owed
  simp only [hpc, Pc.evs] at hpolled howed
  rcases Nat.eq_zero_or_pos evs.length with hzero | hpos
  · obtain rfl := List.length_eq_zero_iff.mp hzero
    have hack : pollAck s.sfc s.w ([] : List Ev).length = s.w := rfl
    rw [hack]
    exact ⟨h.paddr, h.readPtr, h.rxHead, h.evq, h.rx, hpolled,
      by simpa [Pc.evs, rxEvs] using howed, h.returned, h.received, by simp [Pc.frame]⟩
  · have hack : pollAck s.sfc s.w evs.length =
        s.w.writeReg regDataEvqRptrDbl (BitVec.ofNat 32 (c % numEvqEntry)) := by
      rw [pollAck, if_pos hpos, h.readPtr, and_rptrMask (Nat.mod_lt _ (by decide))]
    obtain ⟨hacked, hevq⟩ := h.evq.ack (by omega)
    rw [hack]
    refine ⟨h.paddr, h.readPtr, h.rxHead, hevq, h.rx.congr ?_ rfl rfl fun _ _ _ _ => rfl, hacked,
      ?_, h.returned, h.received, by simp [Pc.frame]⟩
    · exact World.writeReg_regs_of_ne _ (by decide) _
    · simpa [World.writeReg, Pc.evs, rxEvs] using howed

/-- Going on in the code, with the events taken so far. -/
theorem Inv.setPc {base : Word} {s : Sys} {c : ℕ} {pc : Pc} (h : Inv base s c)
    (hevs : pc.evs = s.pc.evs) (hframe : ∀ f, pc.frame = some f →
      s.pending ≠ [] ∧ s.w.accepted[s.delivered.length]? = some f) :
    Inv base { s with pc := pc } c := by
  have hpolled := h.polled
  have howed := h.owed
  rw [← hevs] at hpolled howed
  exact ⟨h.paddr, h.readPtr, h.rxHead, h.evq, h.rx, hpolled, howed, h.returned, h.received, hframe⟩

theorem Inv.leaveLoop {base : Word} {s t : Sys} {c : ℕ} {evs : List Ev} (h : Inv base s c)
    (hpc : s.pc.evs = evs) (ht : { s with pc := .acking evs } = t) : Inv base t c := by
  subst ht
  exact h.setPc hpc.symm (by simp [Pc.frame])

theorem Inv.usePoll {base : Word} {s : Sys} {c : ℕ} (h : Inv base s c) :
    Inv base { s with sfc := { s.sfc with usedPoll := true } } c :=
  ⟨h.paddr, h.readPtr, h.rxHead, h.evq, h.rx, h.polled, h.owed, h.returned, h.received,
    h.receiving⟩

theorem Inv.callPoll {base : Word} {s : Sys} {c room : ℕ} (h : Inv base s c)
    (hpc : s.pc = .idle) :
    Inv base { s with sfc := { s.sfc with usedPoll := true }, pc := .polling room [] } c := by
  apply h.usePoll.setPc
  · rw [hpc]
    rfl
  · simp [Pc.frame]

theorem Inv.recvPost {base : Word} {s : Sys} {c : ℕ} {f : Frame} (h : Inv base s c)
    (hpc : s.pc = .copied f) :
    Inv base { s with w := rxRecvPost s.sfc s.w, pc := .posted f } c := by
  have hpolled := h.polled
  have howed := h.owed
  have hrecv := h.receiving f (by rw [hpc]; rfl)
  rw [hpc] at hpolled howed
  refine ⟨h.paddr, h.readPtr, h.rxHead, h.evq.congr rfl rfl rfl rfl rfl, ?_, hpolled, howed,
    h.returned, h.received, ?_⟩
  · simp only [rxRecvPost, h.paddr]
    exact h.rx.repost
  · intro g hg
    obtain rfl : f = g := by simpa [Pc.frame] using hg
    exact hrecv

/-- Returning a frame answers the oldest receive owed and gives the NIC one more slot. -/
theorem Inv.recvReturn {base : Word} {s : Sys} {c : ℕ} {f : Frame} (h : Inv base s c)
    (hpc : s.pc = .posted f) :
    Inv base { s with
      w := (rxRecvRing s.sfc s.w).2, sfc := (rxRecvRing s.sfc s.w).1, pc := .idle,
      pending := s.pending.tail, delivered := s.delivered ++ [f] } c := by
  have hpolled := h.polled
  have howed := h.owed
  obtain ⟨hne, hget⟩ := h.receiving f (by rw [hpc]; rfl)
  obtain ⟨b, rest, hpend⟩ := List.exists_cons_of_ne_nil hne
  simp only [hpc, Pc.evs, hpend, rxEvs, List.filter_nil, List.map_nil, List.append_nil]
    at hpolled howed
  have hlen : (s.delivered ++ [f]).length = s.delivered.length + 1 := by simp
  refine ⟨h.paddr, h.readPtr, ?_, ?_, ?_, hpolled, ?_, ?_, ?_, by simp [Pc.frame]⟩
  · rw [hlen]
    show (s.sfc.rxHead + 1) &&& (numEvqEntry - 1) = (s.delivered.length + 1) % numEvqEntry
    rw [and_ringMask, h.rxHead]
    exact Nat.mod_add_mod _ _ _
  · exact h.evq.congr rfl rfl rfl rfl rfl
  · simp only [rxRecvRing, hlen, h.rxHead]
    exact h.rx.ring
  · simp only [hpend, hlen, Pc.evs, rxEvs, List.filter_nil, List.map_nil, List.append_nil,
      List.tail_cons]
    show (rxBytesOf (s.w.evLog.take c)).drop (s.delivered.length + 1) = rest
    rw [← List.tail_drop, howed, List.tail_cons]
  · rw [hlen]
    show s.delivered.length + 1 ≤ (rxBytesOf (s.w.evLog.take c)).length
    by_contra hlt
    rw [List.drop_eq_nil_of_le (by omega)] at howed
    cases howed
  · exact prefix_snoc_iff.mpr ⟨h.received, hget⟩

/-- The packet copied out for the oldest receive owed is the next frame the NIC accepted. -/
theorem Inv.recvCopy {base : Word} {s : Sys} {c : ℕ} {b : BitVec 16} {rest : List (BitVec 16)}
    (h : Inv base s c) (hpc : s.pc = .idle) (hpend : s.pending = b :: rest) :
    s.w.accepted[s.delivered.length]? = some (rxRecvCopy s.sfc s.w b) := by
  have howed := h.owed
  simp only [hpend, hpc, Pc.evs, rxEvs, List.filter_nil, List.map_nil, List.append_nil] at howed
  have hget : (rxBytesOf s.w.evLog)[s.delivered.length]? = some b := by
    obtain ⟨l, hl⟩ := rxBytesOf_take_isPrefix s.w.evLog c
    have hb : (rxBytesOf (s.w.evLog.take c))[s.delivered.length]? = some b := by
      rw [← List.head?_drop, howed]
      rfl
    have hlt := (List.getElem?_eq_some_iff.mp hb).1
    rw [← hl, List.getElem?_append_left hlt]
    exact hb
  rw [h.evq.frame_of_report h.rx hget, rxRecvCopy, h.paddr, h.rxHead]
  rfl

theorem Inv.callRecv {base : Word} {s : Sys} {c : ℕ} {b : BitVec 16} {rest : List (BitVec 16)}
    (h : Inv base s c) (hpc : s.pc = .idle) (hpend : s.pending = b :: rest) :
    Inv base { s with
      sfc := { s.sfc with usedPoll := true }, pc := .copied (rxRecvCopy s.sfc s.w b) } c := by
  apply h.usePoll.setPc
  · rw [hpc]
    rfl
  · intro f hf
    obtain rfl : rxRecvCopy s.sfc s.w b = f := by simpa [Pc.frame] using hf
    exact ⟨by simp [hpend], h.recvCopy hpc hpend⟩

/-- Every step of application or NIC keeps the cursors tied. -/
theorem Inv.step {base : Word} {s t : Sys} {c : ℕ} {a : Act} (h : Inv base s c)
    (hbase : base.toNat + numRxDesc * rxBufferSize ≤ 2 ^ 48) (hstep : step s a = some t) :
    ∃ c', Inv base t c' := by
  cases a with
  | callPoll maxEvs =>
    simp only [DirectRx.step] at hstep
    split at hstep
    next hpc =>
      split_ifs at hstep
      obtain rfl := Option.some.inj hstep
      exact ⟨c, h.callPoll hpc⟩
    next => cases hstep
  | pollStep =>
    simp only [DirectRx.step] at hstep
    split at hstep
    next evs hpc => exact ⟨c, h.leaveLoop (by rw [hpc]; rfl) (Option.some.inj hstep)⟩
    next room evs hpc =>
      split at hstep
      next => exact ⟨c, h.leaveLoop (by rw [hpc]; rfl) (Option.some.inj hstep)⟩
      next ev sfc u hiter =>
        obtain rfl := Option.some.inj hstep
        exact ⟨c + 1, h.pollIter hpc hiter⟩
    next => cases hstep
  | pollReturn =>
    simp only [DirectRx.step] at hstep
    split at hstep
    next evs hpc =>
      obtain rfl := Option.some.inj hstep
      exact ⟨c, h.pollReturn hpc⟩
    next => cases hstep
  | callRecv =>
    simp only [DirectRx.step] at hstep
    split at hstep
    next b rest hpc hpend =>
      split_ifs at hstep
      obtain rfl := Option.some.inj hstep
      exact ⟨c, h.callRecv hpc hpend⟩
    next => cases hstep
  | recvPost =>
    simp only [DirectRx.step] at hstep
    split at hstep
    next f hpc =>
      obtain rfl := Option.some.inj hstep
      exact ⟨c, h.recvPost hpc⟩
    next => cases hstep
  | recvReturn =>
    simp only [DirectRx.step] at hstep
    split at hstep
    next f hpc =>
      obtain rfl := Option.some.inj hstep
      exact ⟨c, h.recvReturn hpc⟩
    next => cases hstep
  | nicFill pre frame =>
    obtain ⟨u, hu, rfl⟩ := Option.map_eq_some_iff.mp hstep
    exact ⟨c, h.nicFill hbase hu⟩
  | nicRxEvent ev =>
    obtain ⟨u, hu, rfl⟩ := Option.map_eq_some_iff.mp hstep
    exact ⟨c, h.nicRxEvent hu⟩
  | nicOtherEvent ev =>
    obtain ⟨u, hu, rfl⟩ := Option.map_eq_some_iff.mp hstep
    exact ⟨c, h.nicOtherEvent hu⟩

theorem inv_run {txBase base : Word} {mem : ℕ → Byte} {acts : List Act} {s : Sys}
    (hbase : base.toNat + numRxDesc * rxBufferSize ≤ 2 ^ 48)
    (hrun : run step (start txBase base mem) acts = some s) : ∃ c, Inv base s c :=
  run_invariant (I := fun s => ∃ c, Inv base s c) (fun _ _ _ ⟨_, h⟩ hstep => h.step hbase hstep)
    ⟨0, inv_start txBase base mem⟩ hrun

theorem Inv.reported_le {base : Word} {s : Sys} {c : ℕ} (h : Inv base s c) :
    s.reported ≤ s.w.accepted.length := by
  have howed := congrArg List.length h.owed
  have hret := h.returned
  have hpre := (rxBytesOf_take_isPrefix s.w.evLog c).length_le
  have hrep := congrArg List.length h.evq.reports
  simp only [List.length_drop, List.length_append, List.length_map, List.length_take,
    Sys.reported] at *
  omega

/-- Whatever the order of calls and NIC steps, and however often both rings wrap, the frames
`rx_recv` returned are the first ones the NIC accepted, unchanged and in order; and a frame the
NIC writes never touches a slot whose frame is reported but not yet returned. The bus address
of the RX buffer fits the 48 bits a descriptor has for it. -/
theorem rx_recv_lossless {txBase base : Word} {mem : ℕ → Byte} {acts : List Act} {s : Sys}
    (hbase : base.toNat + numRxDesc * rxBufferSize ≤ 2 ^ 48)
    (hrun : run step (start txBase base mem) acts = some s) :
    s.delivered <+: s.w.accepted ∧
      ∀ pre frame t, step s (.nicFill pre frame) = some t →
        ∀ k, s.delivered.length ≤ k → k < s.reported →
          k % numRxDesc ≠ s.w.accepted.length % numRxDesc ∧
          ∀ i < rxBufferSize, t.w.mem (rxSlotAddr base (k % numRxDesc) + i) =
            s.w.mem (rxSlotAddr base (k % numRxDesc) + i) := by
  obtain ⟨c, h⟩ := inv_run hbase hrun
  refine ⟨h.received, fun pre frame t hfill k hlo hhi => ?_⟩
  obtain ⟨u, hu, rfl⟩ := Option.map_eq_some_iff.mp hfill
  obtain ⟨hroom, -, hkeep⟩ := h.rx.nicRxFill hbase hu
  have hle := h.reported_le
  have hne : k % numRxDesc ≠ s.w.accepted.length % numRxDesc :=
    mod_ne_of_lt numRxDesc (by omega) (by simp only [numRxDesc]; omega)
  exact ⟨hne, hkeep _ (Nat.mod_lt _ (by decide)) hne⟩

/-- Two frames, the second in cut-through mode, polled one event at a time. -/
def twoFrames : List Act :=
  [.nicFill [0, 0, 0, 0, 0, 0, 0, 0, 3, 0, 0, 0, 0, 0] [1, 2, 3],
   .nicFill [0, 0, 0, 0, 0, 0, 0, 0, 0, 0, 0, 0, 0, 0] [4, 5],
   .nicRxEvent 17, .callPoll 1, .pollStep, .nicRxEvent 16, .pollStep, .pollReturn,
   .callPoll 8, .pollStep, .pollStep, .pollReturn,
   .callRecv, .recvPost, .recvReturn, .callRecv, .recvPost, .recvReturn]

theorem rx_recv_lossless_two_frames :
    ∃ s, run step (start 0 0x80000000 fun _ => 0) twoFrames = some s ∧
      s.delivered = [[1, 2, 3], [4, 5]] ∧ s.delivered <+: s.w.accepted := by
  have hdel : (run step (start 0 0x80000000 fun _ => 0) twoFrames).map Sys.delivered =
      some [[1, 2, 3], [4, 5]] := by decide +kernel
  obtain ⟨s, hs, hd⟩ := Option.map_eq_some_iff.mp hdel
  exact ⟨s, hs, hd, (rx_recv_lossless (by decide) hs).1⟩

end Sfc7120.DirectRx

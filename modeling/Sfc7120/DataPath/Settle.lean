import Sfc7120.DataPath.Duplex

/-! Nothing is left behind: from wherever a port is, application and NIC can finish what was
begun, with no further traffic, until every frame accepted is delivered and every packet posted
is sent. -/
namespace Sfc7120

open ByteMemory Machine

/-- Every region and slice is mapped, as after `sfc7120_init`. -/
def SfcIf.Mapped (sfc : SfcIf) : Prop :=
  sfc.txBuffer = true ∧ sfc.rxBuffer = true ∧ sfc.txDescRing = true ∧ sfc.rxDescRing = true ∧
    sfc.evqRing = true ∧ sfc.mmioSlicesLen = some regSlices.length

section
variable {sfc : SfcIf}

theorem SfcIf.mapped_fresh (tx rx : Word) : (SfcIf.fresh tx rx).Mapped :=
  ⟨rfl, rfl, rfl, rfl, rfl, rfl⟩

theorem SfcIf.Mapped.hasSlice (h : sfc.Mapped) (i : MmioSliceIdx) : sfc.hasSlice i = true := by
  obtain ⟨-, -, -, -, -, hlen⟩ := h
  rw [SfcIf.hasSlice, hlen]
  cases i <;> rfl

theorem SfcIf.Mapped.pollReady (h : sfc.Mapped) {n : ℤ} (hn : 0 < n) :
    Sfc7120.pollReady sfc n = true := by
  rw [Sfc7120.pollReady, h.hasSlice, h.2.2.2.2.1]
  simpa using hn

theorem SfcIf.Mapped.rxRecvReady (h : sfc.Mapped) : Sfc7120.rxRecvReady sfc = true := by
  rw [Sfc7120.rxRecvReady, h.hasSlice, h.2.1, h.2.2.2.1]
  rfl

theorem SfcIf.Mapped.txPostReady (h : sfc.Mapped) {len : ℕ} (hpos : len ≠ 0)
    (hle : len ≤ txBufferSize) : Sfc7120.txPostReady sfc len = true := by
  rw [Sfc7120.txPostReady, h.hasSlice, h.1, h.2.2.1]
  simpa using ⟨hpos, hle⟩

end

/-- An RX event word for `n` bytes. -/
def rxEventWord (n : ℕ) : Word := BitVec.ofNat 64 n

theorem rxEventWord_fields {n : ℕ} (hn : n < 2 ^ 14) :
    evCode (rxEventWord n) = 0#32 ∧ (evRxBytes (rxEventWord n)).toNat = n := by
  have hmod : n % 2 ^ 64 = n := Nat.mod_eq_of_lt (hn.trans (by decide))
  constructor
  · have hshift : (rxEventWord n) >>> 60 = 0#64 := by
      apply BitVec.eq_of_toNat_eq
      rw [rxEventWord, BitVec.toNat_ushiftRight, BitVec.toNat_ofNat, hmod,
        Nat.shiftRight_eq_div_pow]
      exact Nat.div_eq_of_lt (hn.trans (by decide))
    rw [evCode, hshift]
    rfl
  · have hmask : n &&& 0x3fff = n := by
      rw [show 0x3fff = 2 ^ 14 - 1 from rfl, Nat.and_two_pow_sub_one_eq_mod]
      exact Nat.mod_eq_of_lt hn
    simp only [evRxBytes, rxEventWord, BitVec.toNat_setWidth, BitVec.toNat_and, BitVec.toNat_ofNat,
      hmod]
    rw [show 0x3fff % 2 ^ 64 = 0x3fff from rfl, hmask]
    exact Nat.mod_eq_of_lt (hn.trans (by decide))

namespace DirectRx

/-- Steps that bring no new frame and no other event. -/
def Settles : Act → Prop
  | .nicFill _ _ => False
  | .nicOtherEvent _ => False
  | _ => True

section
variable {rx : Word} {s t : Sys} {c : ℕ} {a : Act}

/-- Frames a step adds to those the NIC has accepted. -/
def taken : Act → List Frame
  | .nicFill _ frame => [frame]
  | _ => []

/-- Frames a step adds to those the application has received. -/
def returned (pc : Pc) : Act → List Frame
  | .recvReturn =>
      match pc with
      | .posted f => [f]
      | _ => []
  | _ => []

/-- What one step does to the two histories, and that it unmaps nothing. -/
theorem step_effect (hstep : step s a = some t) :
    (s.sfc.Mapped → t.sfc.Mapped) ∧ t.w.accepted = s.w.accepted ++ taken a ∧
      t.delivered = s.delivered ++ returned s.pc a := by
  cases a with
  | callPoll maxEvs =>
    simp only [step] at hstep
    split at hstep
    next =>
      split_ifs at hstep
      obtain rfl := Option.some.inj hstep
      exact ⟨id, by simp [taken], by simp [returned]⟩
    next => cases hstep
  | pollStep =>
    simp only [step] at hstep
    split at hstep
    next =>
      obtain rfl := Option.some.inj hstep
      exact ⟨id, by simp [taken], by simp [returned]⟩
    next =>
      split at hstep
      next =>
        obtain rfl := Option.some.inj hstep
        exact ⟨id, by simp [taken], by simp [returned]⟩
      next ev sfc u hiter =>
        obtain rfl := Option.some.inj hstep
        simp only [pollIter] at hiter
        split_ifs at hiter
        obtain ⟨-, rfl, rfl⟩ : _ ∧ _ ∧ _ := by simpa using hiter
        exact ⟨id, by simp [taken], by simp [returned]⟩
    next => cases hstep
  | pollReturn =>
    simp only [step] at hstep
    split at hstep
    next =>
      obtain rfl := Option.some.inj hstep
      exact ⟨id, by simp [taken, pollAck_nic], by simp [returned]⟩
    next => cases hstep
  | callRecv =>
    simp only [step] at hstep
    split at hstep
    next =>
      split_ifs at hstep
      obtain rfl := Option.some.inj hstep
      exact ⟨id, by simp [taken], by simp [returned]⟩
    next => cases hstep
  | recvPost =>
    simp only [step] at hstep
    split at hstep
    next =>
      obtain rfl := Option.some.inj hstep
      exact ⟨id, by simp [taken, rxRecvPost], by simp [returned]⟩
    next => cases hstep
  | recvReturn =>
    simp only [step] at hstep
    split at hstep
    next f hpc =>
      obtain rfl := Option.some.inj hstep
      exact ⟨id, by simp [taken, rxRecvRing, World.writeReg], by simp [returned, hpc]⟩
    next => cases hstep
  | nicFill pre frame =>
    obtain ⟨u, hu, rfl⟩ := Option.map_eq_some_iff.mp hstep
    obtain ⟨mem, rfl⟩ := World.nicRxFill_eq hu
    exact ⟨id, rfl, by simp [returned]⟩
  | nicRxEvent ev =>
    obtain ⟨u, hu, rfl⟩ := Option.map_eq_some_iff.mp hstep
    obtain ⟨_, v, -, -, -, hpost, rfl⟩ := World.nicRxEvent_eq hu
    obtain ⟨-, rfl⟩ := World.postEvent_eq hpost
    exact ⟨id, by simp [taken], by simp [returned]⟩
  | nicOtherEvent ev =>
    obtain ⟨u, hu, rfl⟩ := Option.map_eq_some_iff.mp hstep
    unfold World.nicOtherEvent at hu
    split_ifs at hu
    obtain ⟨-, rfl⟩ := World.postEvent_eq hu
    exact ⟨id, by simp [taken], by simp [returned]⟩

theorem taken_of_settles (ha : Settles a) : taken a = [] := by
  cases a <;> first | rfl | cases ha

/-- What a port that only settles keeps. -/
theorem settles_keep (hbase : rx.toNat + numRxDesc * rxBufferSize ≤ 2 ^ 48)
    (hinv : ∃ c, Inv rx s c) (hmap : s.sfc.Mapped) (h : ReachesBy step Settles s t) :
    (∃ c, Inv rx t c) ∧ t.sfc.Mapped ∧ t.w.accepted = s.w.accepted ∧
      s.delivered <+: t.delivered := by
  obtain ⟨as, has, hrun⟩ := h
  refine run_invariant_along (P := fun _ a => Settles a)
    (I := fun u => (∃ c, Inv rx u c) ∧ u.sfc.Mapped ∧ u.w.accepted = s.w.accepted ∧
      s.delivered <+: u.delivered) ?_
    ⟨hinv, hmap, rfl, List.prefix_refl _⟩ (along_of_forall (fun a ha _ => has a ha) s) hrun
  rintro u a v ⟨⟨c, hu⟩, hm, hacc, hdel⟩ ha hstep
  obtain ⟨hkeep, hfilled, hgiven⟩ := step_effect hstep
  refine ⟨hu.step hbase hstep, hkeep hm, ?_, ?_⟩
  · rw [hfilled, taken_of_settles ha, List.append_nil, hacc]
  · rw [hgiven]
    exact hdel.trans (List.prefix_append _ _)

/-- The event loop of a call comes to its end. -/
theorem polling_ends {room : ℕ} {evs : List Ev} (hpc : s.pc = .polling room evs) :
    ∃ t evs', ReachesBy step Settles s t ∧ t.pc = .acking evs' := by
  induction room generalizing s evs with
  | zero =>
    refine ⟨{ s with pc := .acking evs }, evs, .single (a := .pollStep) trivial ?_, rfl⟩
    simp only [step, hpc]
  | succ room ih =>
    cases hiter : pollIter s.sfc s.w with
    | none =>
      refine ⟨{ s with pc := .acking evs }, evs, .single (a := .pollStep) trivial ?_, rfl⟩
      simp only [step, hpc, hiter]
    | some r =>
      obtain ⟨ev, sfc, u⟩ := r
      have hstep : step s .pollStep =
          some { s with w := u, sfc := sfc, pc := .polling room (evs ++ [ev]) } := by
        simp only [step, hpc, hiter]
      obtain ⟨t, evs', ht, hdone⟩ := ih
        (s := { s with w := u, sfc := sfc, pc := .polling room (evs ++ [ev]) }) rfl
      exact ⟨t, evs', .step (a := .pollStep) trivial hstep ht, hdone⟩

/-- The call under way returns. -/
theorem call_returns (s : Sys) : ∃ t, ReachesBy step Settles s t ∧ t.pc = .idle := by
  have hack : ∀ {s : Sys} {evs : List Ev}, s.pc = .acking evs →
      ∃ t, ReachesBy step Settles s t ∧ t.pc = .idle := by
    intro s evs hpc
    have hstep : step s .pollReturn = some { s with
        w := pollAck s.sfc s.w evs.length, pc := .idle, pending := s.pending ++ rxEvs evs } := by
      simp only [step, hpc]
    exact ⟨_, .single (a := .pollReturn) trivial hstep, rfl⟩
  have hposted : ∀ {s : Sys} {f : Frame}, s.pc = .posted f →
      ∃ t, ReachesBy step Settles s t ∧ t.pc = .idle := by
    intro s f hpc
    have hstep : step s .recvReturn = some { s with
        w := (rxRecvRing s.sfc s.w).2, sfc := (rxRecvRing s.sfc s.w).1, pc := .idle,
        pending := s.pending.tail, delivered := s.delivered ++ [f] } := by
      simp only [step, hpc]
    exact ⟨_, .single (a := .recvReturn) trivial hstep, rfl⟩
  cases hpc : s.pc with
  | idle => exact ⟨s, .refl step Settles s, hpc⟩
  | polling room evs =>
    obtain ⟨u, evs', hu, hacking⟩ := polling_ends hpc
    obtain ⟨t, ht, hidle⟩ := hack hacking
    exact ⟨t, hu.trans ht, hidle⟩
  | acking evs => exact hack hpc
  | copied f =>
    have hstep : step s .recvPost = some { s with w := rxRecvPost s.sfc s.w, pc := .posted f } := by
      simp only [step, hpc]
    obtain ⟨t, ht, hidle⟩ :=
      hposted (s := { s with w := rxRecvPost s.sfc s.w, pc := .posted f }) rfl
    exact ⟨t, .step (a := .recvPost) trivial hstep ht, hidle⟩
  | posted f => exact hposted hpc

/-- An `rx_recv` owed is made. -/
theorem recv_next (hpc : s.pc = .idle) (hmap : s.sfc.Mapped) (hpend : s.pending ≠ []) :
    ∃ t, ReachesBy step Settles s t ∧ t.pc = .idle ∧
      t.delivered.length = s.delivered.length + 1 := by
  obtain ⟨b, rest, hpend⟩ := List.exists_cons_of_ne_nil hpend
  have hcall : step s .callRecv = some { s with
      sfc := { s.sfc with usedPoll := true }, pc := .copied (rxRecvCopy s.sfc s.w b) } := by
    simp only [step, hpc, hpend, hmap.rxRecvReady, if_true]
  refine ⟨_, .step (a := .callRecv) trivial hcall
    (.step (a := .recvPost) trivial rfl (.single (a := .recvReturn) trivial rfl)), rfl, ?_⟩
  simp

/-- One `sfc7120_poll` of one event takes the oldest one in the ring. -/
theorem poll_one (h : Inv rx s c) (hpc : s.pc = .idle) (hmap : s.sfc.Mapped)
    (hc : c < s.w.evLog.length) :
    ∃ t, ReachesBy step Settles s t ∧ Inv rx t (c + 1) ∧ t.pc = .idle ∧ t.sfc.Mapped ∧
      t.w.evLog = s.w.evLog ∧ t.pending = s.pending ++ rxEvs [decodeEv s.w.evLog[c]] ∧
      t.delivered = s.delivered ∧ t.w.accepted = s.w.accepted := by
  have hready : pollReady s.sfc 1 = true := hmap.pollReady (by decide)
  have hword : s.w.dataEvq s.sfc.evqReadPtr = s.w.evLog[c] := by
    rw [h.readPtr]
    exact h.evq.ring.head_eq hc
  have hpresent : evEmpty s.w.evLog[c] = false := h.evq.present _ (List.getElem_mem hc)
  have hcall : Inv rx { s with sfc := { s.sfc with usedPoll := true }, pc := .polling 1 [] } c :=
    h.callPoll hpc
  have hstart : step s (.callPoll 1) =
      some { s with sfc := { s.sfc with usedPoll := true }, pc := .polling 1 [] } := by
    simp only [step, hpc, hready, if_true]
    rfl
  obtain ⟨sfc, u, hiter, hlog, hacc, hmapped⟩ : ∃ sfc u,
      pollIter { s.sfc with usedPoll := true } s.w = some (decodeEv s.w.evLog[c], sfc, u) ∧
        u.evLog = s.w.evLog ∧ u.accepted = s.w.accepted ∧ sfc.Mapped := by
    simp only [pollIter, hword, hpresent, Bool.false_eq_true, if_false]
    exact ⟨_, _, rfl, rfl, rfl, hmap⟩
  have htake : step { s with sfc := { s.sfc with usedPoll := true }, pc := .polling 1 [] }
      .pollStep = some { s with w := u, sfc := sfc, pc := .polling 0 [decodeEv s.w.evLog[c]] } := by
    simp only [step, hiter, List.nil_append]
  have hdone := ((hcall.pollIter rfl hiter).leaveLoop rfl rfl).pollReturn rfl
  obtain ⟨-, hacklog, -, hackacc, -⟩ := pollAck_nic sfc u 1
  exact ⟨_, .step (a := .callPoll 1) trivial hstart (.step (a := .pollStep) trivial htake
    (.step (a := .pollStep) trivial rfl (.single (a := .pollReturn) trivial rfl))), hdone, rfl,
    hmapped, hacklog.trans hlog, rfl, rfl, hackacc.trans hacc⟩

/-- Between calls and with no receive owed, every RX event read has had its frame returned. -/
theorem answered (h : Inv rx s c) (hpc : s.pc = .idle) (hpend : s.pending = []) :
    (rxBytesOf (s.w.evLog.take c)).length = s.delivered.length := by
  have howed := h.owed
  simp only [hpc, hpend, Pc.evs, rxEvs, List.filter_nil, List.map_nil, List.append_nil,
    List.drop_eq_nil_iff] at howed
  exact le_antisymm howed h.returned

/-- With every event read and a frame not yet reported, the NIC can report it. -/
theorem report_next (h : Inv rx s c) (hpc : s.pc = .idle) (hpend : s.pending = [])
    (hread : c = s.w.evLog.length) (hleft : s.delivered.length < s.w.accepted.length) :
    ∃ ev u, s.w.nicRxEvent ev = some u ∧ evCode ev = 0#32 ∧ u.evLog = s.w.evLog ++ [ev] := by
  have hanswered := answered h hpc hpend
  rw [hread, List.take_length] at hanswered
  have hreports := congrArg List.length h.evq.reports
  simp only [List.length_map, List.length_take, hanswered,
    Nat.min_eq_left h.evq.rxEvents] at hreports
  have hlt : s.w.rxEvents < s.w.accepted.length := hreports ▸ hleft
  have hpolled := h.polled
  simp only [hpc, Pc.evs, List.length_nil, Nat.add_zero] at hpolled
  have hroom : s.w.evLog.length - s.w.evqAcked < numEvqEntry := by
    rw [hpolled, hread, Nat.sub_self]
    decide
  have hfit := h.rx.fits _ (List.getElem_mem hlt)
  obtain ⟨hcode, hbytes⟩ := rxEventWord_fields
    (n := ef10RxPrefixLen + (s.w.accepted[s.w.rxEvents]).length)
    (by simp only [rxBufferSize] at hfit; omega)
  obtain ⟨ev, hcode, hbytes⟩ : ∃ ev, evCode ev = 0#32 ∧
      (evRxBytes ev).toNat = ef10RxPrefixLen + (s.w.accepted[s.w.rxEvents]).length :=
    ⟨_, hcode, hbytes⟩
  obtain ⟨v, hv⟩ : ∃ v, s.w.postEvent ev = some v := ⟨_, if_pos hroom⟩
  obtain ⟨-, rfl⟩ := World.postEvent_eq hv
  refine ⟨ev, { s.w with
    dataEvq := Function.update s.w.dataEvq (s.w.evLog.length % numEvqEntry) ev
    evLog := s.w.evLog ++ [ev]
    rxEvents := s.w.rxEvents + 1 }, ?_, hcode, rfl⟩
  simp only [World.nicRxEvent, List.getElem?_eq_getElem hlt, hcode, hbytes, and_self, if_true, hv,
    Option.map_some]

/-- While a frame is left the application can get to owe a receive. -/
theorem await_rx (n : ℕ) (h : Inv rx s c) (hn : s.w.evLog.length = c + n) (hpc : s.pc = .idle)
    (hmap : s.sfc.Mapped) (hleft : s.delivered.length < s.w.accepted.length) :
    ∃ t, ReachesBy step Settles s t ∧ t.pc = .idle ∧ t.pending ≠ [] ∧
      t.delivered = s.delivered := by
  induction n generalizing s c with
  | zero =>
    by_cases hpend : s.pending = []
    · obtain ⟨ev, u, hu, hcode, hlog⟩ := report_next h hpc hpend hn.symm hleft
      have hstep : step s (.nicRxEvent ev) = some { s with w := u } := by
        simp only [step, hu, Option.map_some]
      have hc : c < u.evLog.length := by
        rw [hlog, List.length_append, List.length_singleton]
        omega
      obtain ⟨t, ht, -, hidle, -, -, htpend, hdel, -⟩ := poll_one (h.nicRxEvent hu) hpc hmap hc
      refine ⟨t, .step (a := .nicRxEvent ev) trivial hstep ht, hidle, ?_, hdel⟩
      have hev : u.evLog[c] = ev := by
        simp only [hlog, show c = s.w.evLog.length from hn.symm, List.getElem_concat_length]
      have hrx : rxEvs [decodeEv ev] = [evRxBytes ev] := by
        simpa [rxEvs, hcode] using rxEvs_append [] ev
      simp [htpend, hpend, hev, hrx]
    · exact ⟨s, .refl step Settles s, hpc, hpend, rfl⟩
  | succ n ih =>
    obtain ⟨t, ht, hinv, hidle, htmap, hlog, hpend, hdel, hacc⟩ := poll_one h hpc hmap (by omega)
    by_cases hempty : t.pending = []
    · obtain ⟨u, hu, huidle, hupend, hudel⟩ := ih hinv (by rw [hlog]; omega) hidle htmap
        (by rw [hdel, hacc]; exact hleft)
      exact ⟨u, ht.trans hu, huidle, hupend, hudel.trans hdel⟩
    · exact ⟨t, ht, hidle, hempty, hdel⟩

/-- With no further traffic, the application can receive every frame accepted so far. -/
theorem settle (hbase : rx.toNat + numRxDesc * rxBufferSize ≤ 2 ^ 48) (n : ℕ)
    (hinv : ∃ c, Inv rx s c) (hmap : s.sfc.Mapped)
    (hn : s.w.accepted.length ≤ s.delivered.length + n) :
    ∃ t, ReachesBy step Settles s t ∧ t.delivered = s.w.accepted := by
  induction n generalizing s with
  | zero =>
    obtain ⟨c, h⟩ := hinv
    exact ⟨s, .refl step Settles s, h.received.eq_of_length_le hn⟩
  | succ n ih =>
    obtain ⟨u, hu, hidle⟩ := call_returns s
    obtain ⟨⟨c, huinv⟩, humap, huacc, hudel⟩ := settles_keep hbase hinv hmap hu
    rcases Nat.lt_or_ge u.delivered.length u.w.accepted.length with hleft | hfull
    · obtain ⟨k, hk⟩ := Nat.exists_eq_add_of_le huinv.evq.ring.read_le
      obtain ⟨v, hv, hvidle, hvpend, hvdel⟩ := await_rx k huinv hk hidle humap hleft
      obtain ⟨hvinv, hvmap, hvacc, -⟩ := settles_keep hbase ⟨c, huinv⟩ humap hv
      obtain ⟨x, hx, hxidle, hxdel⟩ := recv_next hvidle hvmap hvpend
      obtain ⟨hxinv, hxmap, hxacc, -⟩ := settles_keep hbase hvinv hvmap hx
      have haccepted : x.w.accepted = s.w.accepted := hxacc.trans (hvacc.trans huacc)
      have hgrown : x.w.accepted.length ≤ x.delivered.length + n := by
        have hle := hudel.length_le
        rw [haccepted, hxdel, hvdel]
        omega
      obtain ⟨t, ht, hdone⟩ := ih hxinv hxmap hgrown
      exact ⟨t, hu.trans (hv.trans (hx.trans ht)), hdone.trans haccepted⟩
    · exact ⟨u, hu, (huinv.received.eq_of_length_le hfull).trans huacc⟩

end

end DirectRx

namespace DirectTx

/-- Packets a step adds to those posted. -/
def launched (pc : Pc) : Act → List (List Byte)
  | .postRing =>
      match pc with
      | .described pkt => [pkt]
      | _ => []
  | _ => []

/-- Packets a step puts on the wire. -/
def wired (s : Sys) : Act → List (List Byte)
  | .nicSend =>
      match s.latched with
      | none => []
      | some d => [readBytes s.w.mem (descAddr d).toNat (descBytes d).toNat]
  | _ => []

/-- What one step does to the two histories, and that it unmaps nothing. -/
theorem step_effect {s t : Sys} {a : Act} (hstep : step s a = some t) :
    (s.sfc.Mapped → t.sfc.Mapped) ∧ t.posted = s.posted ++ launched s.pc a ∧
      t.sent = s.sent ++ wired s a := by
  cases a with
  | callPost buf len =>
    simp only [step] at hstep
    split at hstep
    next =>
      split_ifs at hstep
      · obtain rfl := Option.some.inj hstep
        exact ⟨id, by simp [launched], by simp [wired]⟩
      · obtain rfl := Option.some.inj hstep
        exact ⟨id, by simp [launched], by simp [wired]⟩
    next => cases hstep
  | postDesc =>
    simp only [step] at hstep
    split at hstep
    next =>
      obtain rfl := Option.some.inj hstep
      exact ⟨id, by simp [launched], by simp [wired]⟩
    next => cases hstep
  | postRing =>
    simp only [step] at hstep
    split at hstep
    next pkt hpc =>
      obtain rfl := Option.some.inj hstep
      exact ⟨id, by simp [launched, hpc], by simp [wired]⟩
    next => cases hstep
  | nicFetch =>
    simp only [step] at hstep
    split at hstep
    · split_ifs at hstep
      obtain rfl := Option.some.inj hstep
      exact ⟨id, by simp [launched], by simp [wired]⟩
    · cases hstep
  | nicSend =>
    simp only [step] at hstep
    split at hstep
    · cases hstep
    next d hd =>
      obtain rfl := Option.some.inj hstep
      exact ⟨id, by simp [launched], by simp [wired, hd]⟩
  | nicDma addr bytes =>
    simp only [step] at hstep
    split_ifs at hstep
    obtain rfl := Option.some.inj hstep
    exact ⟨id, by simp [launched], by simp [wired]⟩
  | nicEvent i ev =>
    obtain rfl := Option.some.inj hstep
    exact ⟨id, by simp [launched], by simp [wired]⟩

end DirectTx

namespace Duplex

/-- Steps that bring no new frame and no new packet. -/
def Settles : Act → Prop
  | .rx a => DirectRx.Settles a
  | .tx a => a.isNic = true

section
variable {tx rx : Word} {s t : Sys}

/-- A step of the receive side launches nothing. -/
theorem Inv.windowed_rx (h : Inv tx rx s) (a : DirectRx.Act) : Windowed s (.rx a) := by
  have hwin := h.transmit.window
  simp only [Windowed, step, Option.all_map]
  cases DirectRx.step s.rxSide a with
  | none => rfl
  | some r =>
    simp only [Option.all_some, decide_eq_true_eq]
    show s.posted.length - s.sent.length ≤ 511
    exact Nat.sub_le_iff_le_add'.mpr hwin

/-- The receive side settles while the transmit side waits. -/
theorem settle_rx (hlay : Layout tx rx) (h : Inv tx rx s) {r : DirectRx.Sys}
    (hr : ReachesBy DirectRx.step DirectRx.Settles s.rxSide r) :
    ReachesBy step Settles s (s.setRx r) ∧ Inv tx rx (s.setRx r) := by
  have hsim : ∀ u a v t, DirectRx.Settles a → (t = s.setRx u ∧ Inv tx rx t) →
      DirectRx.step u a = some v →
      ∃ b t', Settles b ∧ step t b = some t' ∧ t' = s.setRx v ∧ Inv tx rx t' := by
    rintro u a v _ ha ⟨rfl, hu⟩ hstep
    have hact : step (s.setRx u) (.rx a) = some (s.setRx v) := by
      simp only [step, Sys.rxSide_setRx, hstep, Option.map_some]
      rfl
    exact ⟨.rx a, s.setRx v, ha, hact, rfl, inv_step hlay _ _ _ hu (hu.windowed_rx a) hact⟩
  obtain ⟨t, ht, rfl, hinv⟩ := hr.simulate hsim ⟨rfl, h⟩
  exact ⟨ht, hinv⟩

/-- The NIC sends what is posted while the receive side waits. -/
theorem settle_tx (h : Inv tx rx s) (htx : tx.toNat + numTxDesc * txBufferSize ≤ 2 ^ 48) :
    ∃ t, ReachesBy step Settles s t ∧ t.sent = s.posted ∧ t.posted = s.posted ∧
      t.delivered = s.delivered := by
  have hle := h.transmit.order.length_le
  obtain ⟨as, r, has, hrun, hsent⟩ := h.transmit.drain htx _ (Nat.add_sub_of_le hle).symm
  have hreach : ReachesBy DirectTx.step (fun a => a.isNic = true) s.txSide r := ⟨as, has, hrun⟩
  have hsim : ∀ u a v t, a.isNic = true → (t = s.setTx u ∧ u.posted = s.posted) →
      DirectTx.step u a = some v →
      ∃ b t', Settles b ∧ step t b = some t' ∧ t' = s.setTx v ∧ v.posted = s.posted := by
    rintro u a v _ ha ⟨rfl, hu⟩ hstep
    have hown : txOwn a = true := by cases a <;> first | rfl | cases ha
    have hact : step (s.setTx u) (.tx a) = some (s.setTx v) := by
      simp only [step, hown, if_true, Sys.txSide_setTx, hstep, Option.map_some]
      rfl
    refine ⟨.tx a, s.setTx v, ha, hact, rfl, ?_⟩
    have hnone : DirectTx.launched u.pc a = [] := by cases a <;> first | rfl | cases ha
    rw [(DirectTx.step_effect hstep).2.1, hnone, List.append_nil, hu]
  obtain ⟨t, ht, rfl, hposted⟩ := hreach.simulate hsim ⟨rfl, rfl⟩
  exact ⟨_, ht, hsent, hposted, rfl⟩

theorem step_mapped {a : Act} (hmap : s.sfc.Mapped) (hstep : step s a = some t) :
    t.sfc.Mapped := by
  cases a with
  | rx a =>
    obtain ⟨r, hr, rfl⟩ := Option.map_eq_some_iff.mp hstep
    exact (DirectRx.step_effect hr).1 hmap
  | tx a =>
    simp only [step] at hstep
    split_ifs at hstep
    obtain ⟨r, hr, rfl⟩ := Option.map_eq_some_iff.mp hstep
    exact (DirectTx.step_effect hr).1 hmap

/-- One port, both directions, any order of their memory accesses: every frame the application
received is the next one the NIC accepted, every packet the NIC sent is the next one posted, those
still waiting are intact in their slots, and with no further traffic every frame can be received
and every packet sent. -/
theorem duplex_exact (hlay : Layout tx rx) {mem : ℕ → Byte} {acts : List Act}
    (hwin : Along step Windowed (start tx rx mem) acts)
    (hrun : run step (start tx rx mem) acts = some s) :
    s.delivered <+: s.w.accepted ∧ s.sent <+: s.posted ∧ DirectTx.Intact tx 0 s.txSide ∧
      ∃ t, ReachesBy step Settles s t ∧ t.delivered = s.w.accepted ∧ t.sent = s.posted ∧
        t.posted = s.posted := by
  have h := inv_run hlay hwin hrun
  have hmap : s.sfc.Mapped := run_invariant (I := fun s => s.sfc.Mapped)
    (fun _ _ _ hm hstep => step_mapped hm hstep) (SfcIf.mapped_fresh tx rx) hrun
  obtain ⟨c, hrx⟩ := h.receive
  obtain ⟨r, hr, hall⟩ := DirectRx.settle hlay.rx_le s.w.accepted.length h.receive hmap
    (Nat.le_add_left _ _)
  obtain ⟨hreach, hinv⟩ := settle_rx hlay h hr
  obtain ⟨t, ht, hsent, hposted, hdel⟩ := settle_tx hinv hlay.tx_le
  exact ⟨hrx.received, h.transmit.order, h.transmit.intact, t, hreach.trans ht, hdel.trans hall,
    hsent, hposted⟩

end

/-- A frame and a packet pass each other: the frame lands while the packet is in its slot, the
descriptor is read while the frame is being copied. -/
def passing : List Act :=
  [.tx (.callPost [7, 8, 9] 2), .rx (.nicFill [0, 0, 0, 0, 0, 0, 0, 0, 3, 0, 0, 0, 0, 0] [1, 2, 3]),
   .rx (.nicRxEvent 17), .rx (.callPoll 8), .tx .postDesc, .rx .pollStep, .tx .postRing,
   .rx .pollStep, .rx .pollReturn, .rx .callRecv, .tx .nicFetch, .rx .recvPost, .tx .nicSend,
   .rx .recvReturn]

theorem duplex_exact_passing :
    ∃ s, run step (start 0x100000#64 0x200000#64 fun _ => 0) passing = some s ∧
      s.delivered = [[1, 2, 3]] ∧ s.sent = [[7, 8]] ∧ s.delivered <+: s.w.accepted ∧
      s.sent <+: s.posted := by
  have hends : (run step (start 0x100000#64 0x200000#64 fun _ => 0) passing).map
      (fun s => (s.delivered, s.sent)) = some ([[1, 2, 3]], [[7, 8]]) := by decide +kernel
  obtain ⟨s, hs, heq⟩ := Option.map_eq_some_iff.mp hends
  obtain ⟨hdel, hsent⟩ := Prod.mk.inj heq
  have hlay : Layout 0x100000#64 0x200000#64 := by
    constructor <;> decide
  obtain ⟨hreceived, hordered, -⟩ := duplex_exact hlay (by decide +kernel) hs
  exact ⟨s, hs, hdel, hsent, hreceived, hordered⟩

end Duplex

end Sfc7120

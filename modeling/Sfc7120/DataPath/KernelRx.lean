import Sfc7120.Lib.Machine
import Sfc7120.DataPath.Kernel
import Sfc7120.DataPath.Rings

/-! The kernel ioctl path as a system: `SFC7120_TX` and `SFC7120_RX` in any order, one poll
iteration at a time, with the NIC acting in between. Both handlers consume from one event
queue; whether packets stay in step with events depends on what the transmit poll walks past. -/
namespace Sfc7120.KernelRx

open ByteMemory RingQueue Machine

/-- Where the ioctl in progress is. -/
inductive Pc where
  | idle
  | txWait (t : TxWait)
  | rxWait (r : RxWait)
  | rxCopy (rxBytes : BitVec 16)
  | rxRepost (frame : Frame)
  deriving DecidableEq

/-- Events consumed by the ioctl in progress and not yet acknowledged. -/
def Pc.consumed : Pc → ℕ
  | .txWait t => t.consumed
  | .rxWait r => r.consumed
  | _ => 0

/-- The RX event the ioctl in progress has consumed, before its frame is copied. -/
def Pc.found : Pc → Option (BitVec 16)
  | .rxWait r => r.found
  | .rxCopy b => some b
  | _ => none

def Pc.frame : Pc → Option Frame
  | .rxRepost f => some f
  | _ => none

structure Sys where
  w : World
  sc : Softc
  pc : Pc
  /-- RX events consumed from the data EVQ, by either handler. -/
  rxConsumed : ℕ
  rxAdvances : ℕ
  /-- For each successful `SFC7120_RX`: which RX event it consumed and the frame delivered. -/
  delivered : List (ℕ × Frame)

inductive Act where
  | tx (req : TxReq) (copyErr : Option Errno)
  | txPoll
  | txReturn
  | rx
  | rxPoll
  | rxAck
  | rxCopyout (copyErr : Option Errno)
  | rxReturn
  | nicFill (pre : List Byte) (frame : Frame)
  | nicRxEvent (ev : Word)
  | nicTxEvent (ev : Word)
  deriving DecidableEq

/-- The copyin or copyout of this action succeeds. -/
def Act.copyOk : Act → Bool
  | .tx _ e => e.isNone
  | .rxCopyout e => e.isNone
  | _ => true

/-- The slot at the read pointer holds an RX event. -/
def Sys.rxAtHead (s : Sys) : Bool :=
  let ev := s.w.dataEvq s.sc.dataEvqReadPtr
  !evEmpty ev && evCode ev == 0#32

def step (s : Sys) : Act → Option Sys
  | .tx req copyErr =>
      match s.pc, txValidate req, copyErr with
      | .idle, none, none =>
          some { s with w := txPost s.sc s.w req, pc := .txWait ⟨s.sc.txHead, 0, false, 0⟩ }
      -- refused, or the copyin failed: what it wrote of its slot is left out, as in `ioctlTx`
      | .idle, _, _ => some s
      | _, _, _ => none
  | .txPoll =>
      match s.pc with
      | .txWait t =>
          if t.again then
            let r := txPollIter s.sc s.w t
            some { s with
              w := r.2.1, sc := r.1, pc := .txWait r.2.2,
              rxConsumed := s.rxConsumed + if s.rxAtHead then 1 else 0 }
          else none
      | _ => none
  | .txReturn =>
      match s.pc with
      | .txWait t =>
          if t.again then none
          else some { s with
            w := ackEvq s.sc s.w t.consumed, sc := (txFinish s.sc t).1, pc := .idle }
      | _ => none
  | .rx =>
      match s.pc with
      | .idle => some { s with pc := .rxWait ⟨0, none, 0⟩ }
      | _ => none
  | .rxPoll =>
      match s.pc with
      | .rxWait r =>
          if r.again then
            let q := rxPollIter s.sc s.w r
            some { s with
              w := q.2.1, sc := q.1, pc := .rxWait q.2.2,
              rxConsumed := s.rxConsumed + if s.rxAtHead then 1 else 0 }
          else none
      | _ => none
  | .rxAck =>
      match s.pc with
      | .rxWait r =>
          if r.again then none
          else some { s with
            w := ackEvq s.sc s.w r.consumed
            pc := match r.found with
              | none => .idle
              | some b => .rxCopy b }
      | _ => none
  | .rxCopyout copyErr =>
      match s.pc with
      | .rxCopy b =>
          match copyErr with
          | some _ => some { s with pc := .idle }
          | none => some { s with pc := .rxRepost (rxCopyFrame s.sc s.w b) }
      | _ => none
  | .rxReturn =>
      match s.pc with
      | .rxRepost f =>
          let q := rxRepost s.sc s.w
          some { s with
            w := q.2, sc := q.1, pc := .idle, rxAdvances := s.rxAdvances + 1,
            delivered := s.delivered ++ [(s.rxConsumed - 1, f)] }
      | _ => none
  | .nicFill pre frame => (s.w.nicRxFill pre frame).map fun w => { s with w := w }
  | .nicRxEvent ev => (s.w.nicRxEvent ev).map fun w => { s with w := w }
  | .nicTxEvent ev => (s.w.nicTxEvent ev).map fun w => { s with w := w }

theorem txPollLoop_reaches {n : ℕ} {s : Sys} {t t' : TxWait} {sc : Softc} {w : World}
    (hpc : s.pc = .txWait t) (hn : txTries ≤ t.tries + n)
    (hloop : txPollLoop n s.sc s.w t = (sc, w, t')) :
    t'.again = false ∧ ∃ c, Reaches step s
      { s with w := w, sc := sc, pc := .txWait t', rxConsumed := c } := by
  induction n generalizing s t with
  | zero =>
    obtain ⟨rfl, rfl, rfl⟩ : _ ∧ _ ∧ _ := by simpa [txPollLoop] using hloop
    exact ⟨TxWait.again_eq_false hn, s.rxConsumed, hpc ▸ .refl _ _⟩
  | succ n ih =>
    unfold txPollLoop at hloop
    split_ifs at hloop with hagain
    · have htries := txPollIter_tries s.sc s.w t
      obtain ⟨hend, c, hreach⟩ := ih
        (s := { s with
          w := (txPollIter s.sc s.w t).2.1, sc := (txPollIter s.sc s.w t).1,
          pc := .txWait (txPollIter s.sc s.w t).2.2,
          rxConsumed := s.rxConsumed + if s.rxAtHead then 1 else 0 }) rfl (by omega) hloop
      refine ⟨hend, c, .step (a := .txPoll) ?_ hreach⟩
      simp only [step, hpc, hagain, if_true]
    · obtain ⟨rfl, rfl, rfl⟩ : _ ∧ _ ∧ _ := by simpa using hloop
      exact ⟨by simpa using hagain, s.rxConsumed, hpc ▸ .refl _ _⟩

/-- A call of `SFC7120_TX` in which the NIC does not act is a run of the system. -/
theorem ioctlTx_reaches {s : Sys} {req : TxReq} {copyErr err : Option Errno} {sc : Softc}
    {w : World} (hpc : s.pc = .idle) (hcall : ioctlTx s.sc s.w req copyErr = (sc, w, err)) :
    ∃ c, Reaches step s { s with w := w, sc := sc, rxConsumed := c } := by
  unfold ioctlTx at hcall
  split at hcall
  next hvalid =>
    obtain ⟨rfl, rfl, -⟩ : _ ∧ _ ∧ _ := by simpa using hcall
    exact ⟨s.rxConsumed, .refl _ _⟩
  next hvalid =>
    obtain ⟨rfl, rfl, -⟩ : _ ∧ _ ∧ _ := by simpa using hcall
    exact ⟨s.rxConsumed, .refl _ _⟩
  next hvalid =>
    obtain ⟨⟨sc₁, w₁, t⟩, hloop⟩ : ∃ r, txPollLoop txTries s.sc (txPost s.sc s.w req)
        ⟨s.sc.txHead, 0, false, 0⟩ = r := ⟨_, rfl⟩
    simp only [hloop] at hcall
    obtain ⟨rfl, rfl, -⟩ : _ ∧ _ ∧ _ := by simpa using hcall
    obtain ⟨hend, c, hpoll⟩ := txPollLoop_reaches
      (s := { s with w := txPost s.sc s.w req, pc := .txWait ⟨s.sc.txHead, 0, false, 0⟩ }) rfl
      (by simp) hloop
    refine ⟨c, .step (a := .tx req none) ?_ (.trans hpoll (.step (a := .txReturn) ?_ (.refl _ _)))⟩
    · simp only [step, hpc, hvalid]
    · simp only [step, hend, Bool.false_eq_true, if_false, hpc]

theorem rxPollLoop_reaches {n : ℕ} {s : Sys} {r r' : RxWait} {sc : Softc} {w : World}
    (hpc : s.pc = .rxWait r) (hn : rxTries ≤ r.tries + n)
    (hloop : rxPollLoop n s.sc s.w r = (sc, w, r')) :
    r'.again = false ∧ ∃ c, Reaches step s
      { s with w := w, sc := sc, pc := .rxWait r', rxConsumed := c } := by
  induction n generalizing s r with
  | zero =>
    obtain ⟨rfl, rfl, rfl⟩ : _ ∧ _ ∧ _ := by simpa [rxPollLoop] using hloop
    exact ⟨RxWait.again_eq_false hn, s.rxConsumed, hpc ▸ .refl _ _⟩
  | succ n ih =>
    unfold rxPollLoop at hloop
    split_ifs at hloop with hagain
    · have htries := rxPollIter_tries s.sc s.w r
      obtain ⟨hend, c, hreach⟩ := ih
        (s := { s with
          w := (rxPollIter s.sc s.w r).2.1, sc := (rxPollIter s.sc s.w r).1,
          pc := .rxWait (rxPollIter s.sc s.w r).2.2,
          rxConsumed := s.rxConsumed + if s.rxAtHead then 1 else 0 }) rfl (by omega) hloop
      refine ⟨hend, c, .step (a := .rxPoll) ?_ hreach⟩
      simp only [step, hpc, hagain, if_true]
    · obtain ⟨rfl, rfl, rfl⟩ : _ ∧ _ ∧ _ := by simpa using hloop
      exact ⟨by simpa using hagain, s.rxConsumed, hpc ▸ .refl _ _⟩

/-- A call of `SFC7120_RX` in which the NIC does not act is a run of the system. -/
theorem ioctlRx_reaches {s : Sys} {copyErr : Option Errno} {res : Except Errno Frame} {sc : Softc}
    {w : World} (hpc : s.pc = .idle) (hcall : ioctlRx s.sc s.w copyErr = (sc, w, res)) :
    ∃ c n fs, Reaches step s
      { s with w := w, sc := sc, rxConsumed := c, rxAdvances := n, delivered := fs } := by
  obtain ⟨⟨sc₁, w₁, r⟩, hloop⟩ : ∃ q, rxPollLoop rxTries s.sc s.w ⟨0, none, 0⟩ = q := ⟨_, rfl⟩
  unfold ioctlRx at hcall
  simp only [hloop] at hcall
  obtain ⟨hend, c, hpoll⟩ := rxPollLoop_reaches
    (s := { s with pc := .rxWait ⟨0, none, 0⟩ }) rfl (by simp) hloop
  have hstart : step s .rx = some { s with pc := .rxWait ⟨0, none, 0⟩ } := by
    simp only [step, hpc]
  split at hcall
  next hfound =>
    obtain ⟨rfl, rfl, -⟩ : _ ∧ _ ∧ _ := by simpa using hcall
    refine ⟨c, s.rxAdvances, s.delivered,
      .step hstart (.trans hpoll (.step (a := .rxAck) ?_ (.refl _ _)))⟩
    simp only [step, hend, Bool.false_eq_true, if_false, hfound, hpc]
  next b e hfound =>
    obtain ⟨rfl, rfl, -⟩ : _ ∧ _ ∧ _ := by simpa using hcall
    refine ⟨c, s.rxAdvances, s.delivered,
      .step hstart (.trans hpoll ⟨[.rxAck, .rxCopyout (some e)], ?_⟩)⟩
    simp only [run, step, hend, Bool.false_eq_true, if_false, hfound, Option.bind_some, hpc]
  next b hfound =>
    obtain ⟨rfl, rfl, -⟩ : _ ∧ _ ∧ _ := by simpa using hcall
    refine ⟨c, s.rxAdvances + 1,
      s.delivered ++ [(c - 1, rxCopyFrame sc₁ (ackEvq sc₁ w₁ r.consumed) b)],
      .step hstart (.trans hpoll ⟨[.rxAck, .rxCopyout none, .rxReturn], ?_⟩)⟩
    simp only [run, step, hend, Bool.false_eq_true, if_false, hfound, Option.bind_some, hpc]

/-- The state after attach. -/
def start (txBase base : Word) (mem : ℕ → Byte) : Sys where
  w := postRxBuffers base (World.fresh mem)
  sc := ⟨txBase, base, 0, 0, 0⟩
  pc := .idle
  rxConsumed := 0
  rxAdvances := 0
  delivered := []

/-- Between ioctls, packets and events are in step: as many RX events were consumed as slots
were re-posted, and receive `n` delivered frame `n`, which is the frame its event stands for. -/
def InStep (s : Sys) : Prop :=
  s.pc = .idle → s.rxConsumed = s.rxAdvances ∧ s.delivered.length = s.rxAdvances ∧
    ∀ (n k : ℕ) (f : Frame), s.delivered[n]? = some (k, f) →
      s.w.accepted[k]? = some f ∧ s.w.accepted[n]? = some f

/-- The transmit poll does not look at the queue while an RX event is next. -/
def TxMeetsNoRx (s : Sys) (a : Act) : Prop := a = .txPoll → s.rxAtHead = false

instance TxMeetsNoRx.decidable (s : Sys) (a : Act) : Decidable (TxMeetsNoRx s a) :=
  inferInstanceAs (Decidable (a = .txPoll → s.rxAtHead = false))

structure Inv (txBase base : Word) (s : Sys) (c : ℕ) : Prop where
  txPaddr : s.sc.txBufferPaddr = txBase
  rxPaddr : s.sc.rxBufferPaddr = base
  txHead : s.sc.txHead < numTxDesc
  readPtr : s.sc.dataEvqReadPtr = c % numEvqEntry
  rxHead : s.sc.rxHead = s.rxAdvances % numRxDesc
  evq : EvqView s.w c
  rx : RxRing base s.w s.rxAdvances
  polled : s.w.evqAcked + s.pc.consumed = c
  consumed : s.rxConsumed = (rxBytesOf (s.w.evLog.take c)).length
  owed : s.rxConsumed = s.rxAdvances +
    if s.pc.found.isSome ∨ s.pc.frame.isSome then 1 else 0
  found : ∀ b, s.pc.found = some b → (rxBytesOf s.w.evLog)[s.rxAdvances]? = some b
  copied : ∀ f, s.pc.frame = some f → s.w.accepted[s.rxAdvances]? = some f
  count : s.delivered.length = s.rxAdvances
  delivered : ∀ (n k : ℕ) (f : Frame), s.delivered[n]? = some (k, f) →
    k = n ∧ s.w.accepted[n]? = some f

theorem inv_start (txBase base : Word) (mem : ℕ → Byte) :
    Inv txBase base (start txBase base mem) 0 where
  txPaddr := rfl
  rxPaddr := rfl
  txHead := show 0 < numTxDesc by decide
  readPtr := rfl
  rxHead := rfl
  evq := evqView_start base mem
  rx := rxRing_start base mem
  polled := rfl
  consumed := rfl
  owed := rfl
  found b hb := by simp [start, Pc.found] at hb
  copied f hf := by simp [start, Pc.frame] at hf
  count := rfl
  delivered n k f hn := by simp [start] at hn

section
variable {txBase base : Word} {s : Sys} {c : ℕ}

theorem Inv.setPc (h : Inv txBase base s c) {pc : Pc} (hconsumed : pc.consumed = s.pc.consumed)
    (hfound : pc.found = s.pc.found) (hframe : pc.frame = s.pc.frame) :
    Inv txBase base { s with pc := pc } c :=
  ⟨h.txPaddr, h.rxPaddr, h.txHead, h.readPtr, h.rxHead, h.evq, h.rx,
    by simpa [hconsumed] using h.polled, h.consumed, by simpa [hfound, hframe] using h.owed,
    by simpa [hfound] using h.found, by simpa [hframe] using h.copied, h.count, h.delivered⟩

/-- A NIC step keeps the invariant when it only adds to the two histories. -/
theorem Inv.nic (h : Inv txBase base s c) {u : World} (hevq : EvqView u c)
    (hrx : RxRing base u s.rxAdvances) (hack : u.evqAcked = s.w.evqAcked)
    (hlog : s.w.evLog <+: u.evLog) (hacc : s.w.accepted <+: u.accepted) :
    Inv txBase base { s with w := u } c := by
  obtain ⟨evs, hevs⟩ := hlog
  obtain ⟨fs, hfs⟩ := hacc
  have hkeep : ∀ {n : ℕ} {f : Frame}, s.w.accepted[n]? = some f → u.accepted[n]? = some f := by
    intro n f hf
    rw [← hfs, List.getElem?_append_left (List.getElem?_eq_some_iff.mp hf).1]
    exact hf
  refine ⟨h.txPaddr, h.rxPaddr, h.txHead, h.readPtr, h.rxHead, hevq, hrx, ?_, ?_, h.owed, ?_, ?_,
    h.count, ?_⟩
  · rw [hack]
    exact h.polled
  · rw [← hevs, List.take_append_of_le_length h.evq.ring.read_le]
    exact h.consumed
  · intro b hb
    have hget := h.found b hb
    have hpre : rxBytesOf s.w.evLog <+: rxBytesOf u.evLog := by
      rw [← hevs]
      exact (((List.prefix_append _ _).filter _).map _)
    obtain ⟨l, hl⟩ := hpre
    rw [← hl, List.getElem?_append_left (List.getElem?_eq_some_iff.mp hget).1]
    exact hget
  · intro f hf
    exact hkeep (h.copied f hf)
  · intro n k f hn
    obtain ⟨hk, hf⟩ := h.delivered n k f hn
    exact ⟨hk, hkeep hf⟩

theorem Inv.nicFill (h : Inv txBase base s c) {u : World} {pre : List Byte} {frame : Frame}
    (hbase : base.toNat + numRxDesc * rxBufferSize ≤ 2 ^ 48)
    (hu : s.w.nicRxFill pre frame = some u) : Inv txBase base { s with w := u } c := by
  have hrx := (h.rx.nicRxFill hbase hu).2.1
  have hevq := h.evq.nicRxFill hu
  obtain ⟨mem, rfl⟩ := World.nicRxFill_eq hu
  exact h.nic hevq hrx rfl (List.prefix_refl _) (List.prefix_append _ _)

theorem Inv.nicRxEvent (h : Inv txBase base s c) {u : World} {ev : Word}
    (hu : s.w.nicRxEvent ev = some u) : Inv txBase base { s with w := u } c := by
  have hrx := h.rx.nicRxEvent hu
  have hevq := h.evq.nicRxEvent hu
  obtain ⟨frame, v, -, -, -, hpost, rfl⟩ := World.nicRxEvent_eq hu
  obtain ⟨-, rfl⟩ := World.postEvent_eq hpost
  exact h.nic hevq hrx rfl (List.prefix_append _ _) (List.prefix_refl _)

theorem Inv.nicTxEvent (h : Inv txBase base s c) {u : World} {ev : Word}
    (hu : s.w.nicTxEvent ev = some u) : Inv txBase base { s with w := u } c := by
  unfold World.nicTxEvent at hu
  split at hu
  · cases hu
  next v hv =>
    split_ifs at hu with hguard
    obtain ⟨w, hpost, rfl⟩ := Option.map_eq_some_iff.mp hu
    have hcode : evCode ev ≠ 0#32 := by simp [hguard.2.1]
    have hrx := (h.rx.postEvent hpost)
    have hevq := h.evq.postEvent hcode (evEmpty_of_tx hguard.2.1) hpost
    obtain ⟨-, rfl⟩ := World.postEvent_eq hpost
    exact h.nic (hevq.congr rfl rfl rfl rfl rfl) (hrx.congr rfl rfl rfl fun _ _ _ _ => rfl) rfl
      (List.prefix_append _ _) (List.prefix_refl _)

/-- Taking the event at the read pointer: an RX event becomes owed, any other leaves no trace. -/
theorem Inv.consume (h : Inv txBase base s c) {ev : Word}
    (hev : s.w.dataEvq s.sc.dataEvqReadPtr = ev) (hpresent : evEmpty ev = false)
    (hfound : s.pc.found = none) (hframe : s.pc.frame = none) {p : Pc}
    (hconsumed' : p.consumed = s.pc.consumed + 1)
    (hfound' : p.found = if evCode ev = 0#32 then some (evRxBytes ev) else none)
    (hframe' : p.frame = none) :
    Inv txBase base { s with
      w := (consumeEv s.sc s.w).2, sc := (consumeEv s.sc s.w).1, pc := p,
      rxConsumed := s.rxConsumed + if evCode ev = 0#32 then 1 else 0 } (c + 1) := by
  have hptr := h.readPtr
  rw [hptr] at hev
  obtain ⟨hc, hword, hevq⟩ := h.evq.consume (by rw [hev]; exact hpresent)
  rw [hev] at hword
  have howed := h.owed
  simp only [hfound, hframe, Option.isSome_none, Bool.false_eq_true, or_self, if_false,
    Nat.add_zero] at howed
  have htake := rxBytesOf_take_succ hc
  rw [← hword] at htake
  refine ⟨h.txPaddr, h.rxPaddr, h.txHead, ?_, h.rxHead, ?_, ?_, ?_, ?_, ?_, ?_, ?_, h.count,
    h.delivered⟩
  · simp [consumeEv, hptr, and_ringMask]
  · simpa [consumeEv, hptr] using hevq
  · exact h.rx.congr rfl rfl rfl fun _ _ _ _ => rfl
  · have hpolled := h.polled
    simp only [consumeEv, hconsumed']
    omega
  · have hcount := h.consumed
    simp only [consumeEv, htake, List.length_append]
    split_ifs <;> simp_all
  · simp only [hfound', hframe']
    split_ifs <;> simp_all
  · intro b hb
    simp only [hfound'] at hb
    split_ifs at hb with hcode
    obtain rfl := Option.some.inj hb
    rw [if_pos hcode] at htake
    obtain ⟨l, hl⟩ := rxBytesOf_take_isPrefix s.w.evLog (c + 1)
    have hat : s.rxAdvances = (rxBytesOf (s.w.evLog.take c)).length := by
      rw [← howed]
      exact h.consumed
    show (rxBytesOf s.w.evLog)[s.rxAdvances]? = _
    rw [← hl, htake, hat]
    simp
  · simp [hframe']

/-- The handlers' acknowledgement tells the NIC exactly what this ioctl consumed. -/
theorem Inv.ack (h : Inv txBase base s c) {p : Pc} (hconsumed : p.consumed = 0)
    (hfound : p.found = s.pc.found) (hframe : p.frame = s.pc.frame) :
    Inv txBase base { s with w := ackEvq s.sc s.w s.pc.consumed, pc := p } c := by
  have hpolled := h.polled
  rcases Nat.eq_zero_or_pos s.pc.consumed with hzero | hpos
  · rw [hzero]
    exact h.setPc (hconsumed.trans hzero.symm) hfound hframe
  · have hack : ackEvq s.sc s.w s.pc.consumed =
        s.w.writeReg regDataEvqRptrDbl (BitVec.ofNat 32 (c % numEvqEntry)) := by
      rw [ackEvq, if_pos hpos, h.readPtr, and_rptrMask (Nat.mod_lt _ (by decide))]
    obtain ⟨hacked, hevq⟩ := h.evq.ack (by omega)
    rw [hack]
    exact ⟨h.txPaddr, h.rxPaddr, h.txHead, h.readPtr, h.rxHead, hevq,
      h.rx.congr (World.writeReg_regs_of_ne _ (by decide) _) rfl rfl fun _ _ _ _ => rfl,
      by simp only [hacked, hconsumed, Nat.add_zero], h.consumed,
      by simpa [hfound, hframe] using h.owed, fun b hb => h.found b (hfound ▸ hb),
      fun f hf => h.copied f (hframe ▸ hf), h.count, h.delivered⟩

/-- The packet a transmit copies in stays inside its TX slot, so no RX slot changes. -/
theorem Inv.txPost (h : Inv txBase base s c) {req : TxReq} (hlen : req.length ≤ txBufferSize)
    (hdisj : txBase.toNat + numTxDesc * txBufferSize ≤ base.toNat ∨
      base.toNat + numRxDesc * rxBufferSize ≤ txBase.toNat) :
    Inv txBase base { s with w := txPost s.sc s.w req } c := by
  have hhead := h.txHead
  have hmem : ∀ j < numRxDesc, ∀ i < rxBufferSize,
      writeBytes s.w.mem (s.sc.txBufferPaddr.toNat + s.sc.txHead * txBufferSize)
        (req.bytes.take req.length) (rxSlotAddr base j + i) = s.w.mem (rxSlotAddr base j + i) := by
    intro j hj i hi
    apply writeBytes_outside
    have htake : (req.bytes.take req.length).length ≤ req.length := by simp
    simp only [h.txPaddr, rxSlotAddr, numTxDesc, txBufferSize, numRxDesc, rxBufferSize] at *
    omega
  refine h.nic (h.evq.congr rfl rfl ?_ rfl rfl) (h.rx.congr ?_ rfl rfl hmem) ?_
    (List.prefix_refl _) (List.prefix_refl _)
  · exact World.writeReg_evqAcked_of_ne _ (by decide) _
  · exact World.writeReg_regs_of_ne _ (by decide) _
  · exact World.writeReg_evqAcked_of_ne _ (by decide) _

/-- What `SFC7120_RX` copies out of the slot at `rx_head` is the frame the consumed event
reports. -/
theorem Inv.copyFrame (h : Inv txBase base s c) {b : BitVec 16} (hfound : s.pc.found = some b) :
    s.w.accepted[s.rxAdvances]? = some (rxCopyFrame s.sc s.w b) := by
  rw [h.evq.frame_of_report h.rx (h.found b hfound), rxCopyFrame, h.rxPaddr, h.rxHead]
  rfl

theorem Inv.txReturn (h : Inv txBase base s c) {w : TxWait} (hpc : s.pc = .txWait w) :
    Inv txBase base { s with
      w := ackEvq s.sc s.w w.consumed, sc := (txFinish s.sc w).1, pc := .idle } c := by
  have hack := h.ack (p := .idle) rfl (by rw [hpc]; rfl) (by rw [hpc]; rfl)
  rw [hpc] at hack
  exact { hack with
    txHead := by
      show (s.sc.txHead + 1) &&& (numEvqEntry - 1) < numEvqEntry
      rw [and_ringMask]
      exact Nat.mod_lt _ (by decide) }

theorem Inv.rxCopyout (h : Inv txBase base s c) {b : BitVec 16} (hpc : s.pc = .rxCopy b) :
    Inv txBase base { s with pc := .rxRepost (rxCopyFrame s.sc s.w b) } c := by
  have hcopied := h.copyFrame (b := b) (by rw [hpc]; rfl)
  have howed := h.owed
  have hpolled := h.polled
  rw [hpc] at howed hpolled
  refine ⟨h.txPaddr, h.rxPaddr, h.txHead, h.readPtr, h.rxHead, h.evq, h.rx, hpolled, h.consumed,
    howed, ?_, ?_, h.count, h.delivered⟩
  · intro b' hb'
    cases hb'
  · intro f hf
    obtain rfl : rxCopyFrame s.sc s.w b = f := Option.some.inj hf
    exact hcopied

theorem Inv.rxReturn (h : Inv txBase base s c) {f : Frame} (hpc : s.pc = .rxRepost f) :
    Inv txBase base { s with
      w := (rxRepost s.sc s.w).2, sc := (rxRepost s.sc s.w).1, pc := .idle,
      rxAdvances := s.rxAdvances + 1,
      delivered := s.delivered ++ [(s.rxConsumed - 1, f)] } c := by
  have howed : s.rxConsumed = s.rxAdvances + 1 := by simpa [hpc, Pc.found, Pc.frame] using h.owed
  have hcopied := h.copied f (by rw [hpc]; rfl)
  have hpolled := h.polled
  rw [hpc] at hpolled
  refine ⟨h.txPaddr, h.rxPaddr, h.txHead, h.readPtr, ?_, h.evq.congr rfl rfl rfl rfl rfl, ?_,
    hpolled, h.consumed, howed, ?_, ?_, ?_, ?_⟩
  · show (s.sc.rxHead + 1) &&& (numEvqEntry - 1) = (s.rxAdvances + 1) % numEvqEntry
    rw [and_ringMask, h.rxHead]
    exact Nat.mod_add_mod _ _ _
  · simp only [rxRepost, h.rxPaddr, h.rxHead]
    exact h.rx.repost.ring
  · intro b hb
    cases hb
  · intro g hg
    cases hg
  · simp [h.count]
  · intro n k g hn
    rcases Nat.lt_or_ge n s.delivered.length with hlt | hge
    · rw [List.getElem?_append_left hlt] at hn
      exact h.delivered n k g hn
    · rw [List.getElem?_append_right hge] at hn
      obtain ⟨hzero, hlast⟩ := List.getElem?_eq_some_iff.mp hn
      have hn' : n = s.rxAdvances := by
        have := h.count
        simp only [List.length_singleton] at hzero
        omega
      simp only [List.getElem_singleton, Prod.mk.injEq] at hlast
      obtain ⟨rfl, rfl⟩ := hlast
      subst hn'
      exact ⟨by omega, hcopied⟩

end

section
variable {txBase base : Word} {s t : Sys} {c : ℕ}

theorem step_txPoll (hstep : step s .txPoll = some t) :
    ∃ w, s.pc = .txWait w ∧ w.again = true ∧ t = { s with
      w := (txPollIter s.sc s.w w).2.1, sc := (txPollIter s.sc s.w w).1,
      pc := .txWait (txPollIter s.sc s.w w).2.2,
      rxConsumed := s.rxConsumed + if s.rxAtHead then 1 else 0 } := by
  simp only [step] at hstep
  split at hstep
  next w hpc =>
    by_cases hagain : w.again = true
    · rw [if_pos hagain] at hstep
      exact ⟨w, hpc, hagain, (Option.some.inj hstep).symm⟩
    · rw [if_neg hagain] at hstep
      cases hstep
  next => cases hstep

theorem step_rxPoll (hstep : step s .rxPoll = some t) :
    ∃ r, s.pc = .rxWait r ∧ r.found = none ∧ t = { s with
      w := (rxPollIter s.sc s.w r).2.1, sc := (rxPollIter s.sc s.w r).1,
      pc := .rxWait (rxPollIter s.sc s.w r).2.2,
      rxConsumed := s.rxConsumed + if s.rxAtHead then 1 else 0 } := by
  simp only [step] at hstep
  split at hstep
  next r hpc =>
    by_cases hagain : r.again = true
    · rw [if_pos hagain] at hstep
      simp only [RxWait.again, Bool.and_eq_true, Option.isNone_iff_eq_none] at hagain
      exact ⟨r, hpc, hagain.2, (Option.some.inj hstep).symm⟩
    · rw [if_neg hagain] at hstep
      cases hstep
  next => cases hstep

theorem Inv.txPoll (h : Inv txBase base s c) (hrx : s.rxAtHead = false)
    (hstep : step s .txPoll = some t) : ∃ c', Inv txBase base t c' := by
  obtain ⟨w, hpc, -, rfl⟩ := step_txPoll hstep
  simp only [hrx, Bool.false_eq_true, if_false]
  by_cases hempty : evEmpty (s.w.dataEvq s.sc.dataEvqReadPtr) = true
  · refine ⟨c, ?_⟩
    simp only [txPollIter, hempty, if_true]
    exact h.setPc (by simp [hpc, Pc.consumed]) (by simp [hpc, Pc.found]) (by simp [hpc, Pc.frame])
  · have hcode : evCode (s.w.dataEvq s.sc.dataEvqReadPtr) ≠ 0#32 := by
      intro hcode
      simp [Sys.rxAtHead, hempty, hcode] at hrx
    refine ⟨c + 1, ?_⟩
    simp only [txPollIter, hempty, Bool.false_eq_true, if_false]
    have hnext := h.consume (p := .txWait { w with
        tries := w.tries + 1
        done := w.done || isTxCompletion (s.w.dataEvq s.sc.dataEvqReadPtr) w.postedIdx
        consumed := w.consumed + 1 }) rfl (Bool.not_eq_true _ ▸ hempty) (by simp [hpc, Pc.found])
      (by simp [hpc, Pc.frame]) (by simp [hpc, Pc.consumed]) (by simp [hcode, Pc.found]) rfl
    rwa [if_neg hcode] at hnext

theorem Inv.rxPoll (h : Inv txBase base s c) (hstep : step s .rxPoll = some t) :
    ∃ c', Inv txBase base t c' := by
  obtain ⟨r, hpc, hnone, rfl⟩ := step_rxPoll hstep
  by_cases hempty : evEmpty (s.w.dataEvq s.sc.dataEvqReadPtr) = true
  · refine ⟨c, ?_⟩
    simp only [rxPollIter, Sys.rxAtHead, hempty, if_true, Bool.not_true, Bool.false_and,
      Bool.false_eq_true, if_false, Nat.add_zero]
    exact h.setPc (by simp [hpc, Pc.consumed]) (by simp [hpc, Pc.found]) (by simp [hpc, Pc.frame])
  · refine ⟨c + 1, ?_⟩
    simp only [rxPollIter, Sys.rxAtHead, hempty, Bool.false_eq_true, if_false, Bool.not_false,
      Bool.true_and, beq_iff_eq]
    refine h.consume rfl (Bool.not_eq_true _ ▸ hempty) ?_ ?_ ?_ ?_ rfl
    · simp [hpc, Pc.found, hnone]
    · simp [hpc, Pc.frame]
    · simp [hpc, Pc.consumed]
    · simp [hnone, Pc.found]

theorem Inv.step {a : Act} (h : Inv txBase base s c)
    (hbase : base.toNat + numRxDesc * rxBufferSize ≤ 2 ^ 48)
    (hdisj : txBase.toNat + numTxDesc * txBufferSize ≤ base.toNat ∨
      base.toNat + numRxDesc * rxBufferSize ≤ txBase.toNat)
    (hcopy : a.copyOk = true) (hmeets : TxMeetsNoRx s a) (hstep : step s a = some t) :
    ∃ c', Inv txBase base t c' := by
  cases a with
  | tx req copyErr =>
    simp only [KernelRx.step] at hstep
    split at hstep
    next hpc hval =>
      obtain rfl := Option.some.inj hstep
      have hpost := h.txPost (txValidate_length hval).2 hdisj
      exact ⟨c, hpost.setPc (by simp [hpc, Pc.consumed]) (by simp [hpc, Pc.found])
        (by simp [hpc, Pc.frame])⟩
    next => exact ⟨c, Option.some.inj hstep ▸ h⟩
    next => cases hstep
  | txPoll => exact h.txPoll (hmeets rfl) hstep
  | txReturn =>
    simp only [KernelRx.step] at hstep
    split at hstep
    next w hpc =>
      split_ifs at hstep
      obtain rfl := Option.some.inj hstep
      exact ⟨c, h.txReturn hpc⟩
    next => cases hstep
  | rx =>
    simp only [KernelRx.step] at hstep
    split at hstep
    next hpc =>
      obtain rfl := Option.some.inj hstep
      exact ⟨c, h.setPc (by rw [hpc]; rfl) (by rw [hpc]; rfl) (by rw [hpc]; rfl)⟩
    next => cases hstep
  | rxPoll => exact h.rxPoll hstep
  | rxAck =>
    simp only [KernelRx.step] at hstep
    split at hstep
    next r hpc =>
      split_ifs at hstep
      obtain rfl := Option.some.inj hstep
      have hconsumed : s.pc.consumed = r.consumed := by rw [hpc]; rfl
      rw [← hconsumed]
      refine ⟨c, h.ack ?_ ?_ ?_⟩ <;> cases hfound : r.found <;>
        simp [Pc.consumed, Pc.found, Pc.frame, hpc, hfound]
    next => cases hstep
  | rxCopyout copyErr =>
    simp only [KernelRx.step] at hstep
    split at hstep
    next b hpc =>
      cases copyErr with
      | some e => cases hcopy
      | none =>
        obtain rfl := Option.some.inj hstep
        exact ⟨c, h.rxCopyout hpc⟩
    next => cases hstep
  | rxReturn =>
    simp only [KernelRx.step] at hstep
    split at hstep
    next f hpc =>
      obtain rfl := Option.some.inj hstep
      exact ⟨c, h.rxReturn hpc⟩
    next => cases hstep
  | nicFill pre frame =>
    obtain ⟨u, hu, rfl⟩ := Option.map_eq_some_iff.mp hstep
    exact ⟨c, h.nicFill hbase hu⟩
  | nicRxEvent ev =>
    obtain ⟨u, hu, rfl⟩ := Option.map_eq_some_iff.mp hstep
    exact ⟨c, h.nicRxEvent hu⟩
  | nicTxEvent ev =>
    obtain ⟨u, hu, rfl⟩ := Option.map_eq_some_iff.mp hstep
    exact ⟨c, h.nicTxEvent hu⟩

theorem Inv.inStep (h : Inv txBase base s c) : InStep s := by
  intro hpc
  have howed := h.owed
  rw [hpc] at howed
  refine ⟨howed, h.count, ?_⟩
  intro n k f hn
  obtain ⟨rfl, hf⟩ := h.delivered n k f hn
  exact ⟨hf, hf⟩

end

/-- In every run of the two ioctls in which the transmit poll never looks at the queue while an
RX event is next, packets and events stay in step. The DMA allocator gives disjoint TX and RX
buffers, the RX buffer inside the 48 bits a descriptor has for its address. -/
theorem kernel_rx_in_step {txBase base : Word} {mem : ℕ → Byte} {acts : List Act} {s : Sys}
    (hbase : base.toNat + numRxDesc * rxBufferSize ≤ 2 ^ 48)
    (hdisj : txBase.toNat + numTxDesc * txBufferSize ≤ base.toNat ∨
      base.toNat + numRxDesc * rxBufferSize ≤ txBase.toNat)
    (hcopy : ∀ a ∈ acts, a.copyOk = true)
    (hmeets : Along step TxMeetsNoRx (start txBase base mem) acts)
    (hrun : run step (start txBase base mem) acts = some s) : InStep s := by
  have hok : Along step (fun s a => a.copyOk = true ∧ TxMeetsNoRx s a)
      (start txBase base mem) acts := hmeets.and_mem hcopy
  obtain ⟨c, h⟩ := run_invariant_along (I := fun s => ∃ c, Inv txBase base s c)
    (fun _ _ _ ⟨_, h⟩ hP hstep => h.step hbase hdisj hP.1 hP.2 hstep)
    ⟨0, inv_start txBase base mem⟩ hok hrun
  exact h.inStep

/-- A prefix with its length field zero, as in cut-through mode. -/
def cutThrough : List Byte := List.replicate 14 0

/-- Frame `[1]` is reported while a transmit waits; the transmit poll takes its event. Frame `[2]`
is reported next, and the receive that takes its event copies the slot of `[1]`. -/
def eatenEvent : List Act :=
  [.nicFill cutThrough [1], .nicRxEvent 15, .tx ⟨true, true, 1, 1, [9]⟩ none, .txPoll,
   .nicTxEvent 0x2000000000000000, .txPoll, .txReturn,
   .nicFill cutThrough [2], .nicRxEvent 15, .rx, .rxPoll, .rxAck, .rxCopyout none, .rxReturn]

theorem kernel_rx_out_of_step : ¬ ∀ (txBase base : Word) (mem : ℕ → Byte) (acts : List Act)
    (s : Sys), base.toNat + numRxDesc * rxBufferSize ≤ 2 ^ 48 →
      (txBase.toNat + numTxDesc * txBufferSize ≤ base.toNat ∨
        base.toNat + numRxDesc * rxBufferSize ≤ txBase.toNat) →
      (∀ a ∈ acts, a.copyOk = true) → run step (start txBase base mem) acts = some s →
      InStep s := by
  intro hall
  have hend : (run step (start 0 0x80000000 fun _ => 0) eatenEvent).map
      (fun s => (s.pc, s.rxConsumed, s.rxAdvances)) = some (.idle, 2, 1) := by decide +kernel
  obtain ⟨s, hs, hd⟩ := Option.map_eq_some_iff.mp hend
  simp only [Prod.mk.injEq] at hd
  obtain ⟨hpc, hconsumed, hadvances⟩ := hd
  have heq := (hall 0 0x80000000 _ eatenEvent s (by decide) (by decide) (by decide) hs hpc).1
  omega

/-- The same traffic with the transmit completed before the frame is reported. -/
def completedFirst : List Act :=
  [.nicFill cutThrough [1], .tx ⟨true, true, 1, 1, [9]⟩ none, .txPoll,
   .nicTxEvent 0x2000000000000000, .txPoll, .nicRxEvent 15, .txReturn,
   .rx, .rxPoll, .rxAck, .rxCopyout none, .rxReturn]

theorem kernel_rx_in_step_completed_first :
    ∃ s, run step (start 0 0x80000000 fun _ => 0) completedFirst = some s ∧
      s.delivered = [(0, [1])] ∧ InStep s := by
  have hend : (run step (start 0 0x80000000 fun _ => 0) completedFirst).map Sys.delivered =
      some [(0, [1])] := by decide +kernel
  obtain ⟨s, hs, hd⟩ := Option.map_eq_some_iff.mp hend
  exact ⟨s, hs, hd, kernel_rx_in_step (by decide) (by decide) (by decide) (by decide +kernel) hs⟩

end Sfc7120.KernelRx

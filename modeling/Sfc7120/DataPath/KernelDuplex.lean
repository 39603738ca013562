import Sfc7120.DataPath.Duplex
import Sfc7120.DataPath.KernelRx

/-! One port driven through the two ioctls, with its transmit side: the NIC reads the descriptors
the handler writes and puts the packets on the wire before it reports them. The handlers share
their rings and doorbells with the direct path, so the direct path's transmit invariant carries
over; what is new is the wait, which knows its own completion by a ring index alone. -/
namespace Sfc7120.KernelDuplex

open ByteMemory Machine

structure Sys where
  kern : KernelRx.Sys
  /-- The descriptor the NIC has read and whose packet it has not. -/
  latched : Option Word
  posted : List (List Byte)
  /-- What the NIC has put on the wire. -/
  sent : List (List Byte)

inductive Act where
  | kern (a : KernelRx.Act)
  | nicFetch
  | nicSend

/-- The packet an action of the handlers puts behind a descriptor. -/
def launched (s : KernelRx.Sys) : KernelRx.Act → List (List Byte)
  | .tx req none =>
      if s.pc = .idle ∧ txValidate req = none then [req.bytes.take req.length] else []
  | _ => []

/-- A request has the bytes it says, and the NIC reports a packet only once it is sent. -/
def Sys.enabled (s : Sys) : KernelRx.Act → Bool
  | .tx req _ => decide (req.length ≤ req.bytes.length)
  | .nicTxEvent _ => decide (s.kern.w.txFetched < s.sent.length)
  | _ => true

def step (s : Sys) : Act → Option Sys
  | .kern a =>
      if s.enabled a then
        (KernelRx.step s.kern a).map fun k =>
          { s with kern := k, posted := s.posted ++ launched s.kern a }
      else none
  | .nicFetch =>
      match s.latched with
      | none =>
          if s.sent.length % numTxDesc ≠ DirectTx.wptr s.kern.w then
            some { s with latched := some (s.kern.w.txRing (s.sent.length % numTxDesc)) }
          else none
      | some _ => none
  | .nicSend =>
      match s.latched with
      | none => none
      | some d =>
          some { s with
            latched := none
            sent := s.sent ++ [readBytes s.kern.w.mem (descAddr d).toNat (descBytes d).toNat] }

def start (tx rx : Word) (mem : ℕ → Byte) : Sys := ⟨KernelRx.start tx rx mem, none, [], []⟩

/-- The descriptor indices of the TX events among some event words. -/
def txIdxOf (evs : List Word) : List (BitVec 16) :=
  (evs.filter fun ev => evCode ev = 2#32).map evTxDescIdx

/-- Events consumed from the data EVQ. -/
def Sys.cursor (s : Sys) : ℕ := s.kern.w.evqAcked + s.kern.pc.consumed

/-- TX events consumed. -/
def Sys.completed (s : Sys) : ℕ := (txIdxOf (s.kern.w.evLog.take s.cursor)).length

/-- The last transmit saw its completion. -/
def Sys.Settled (s : Sys) : Prop := s.posted.length ≤ s.completed

instance Sys.Settled.decidable (s : Sys) : Decidable s.Settled :=
  inferInstanceAs (Decidable (_ ≤ _))

/-- The queue pair as the direct path would hold it. -/
def Sys.txSide (tx rx : Word) (s : Sys) : DirectTx.Sys where
  w := { s.kern.w with txFetched := s.sent.length }
  sfc := { SfcIf.fresh tx rx with txHead := s.posted.length % numTxDesc }
  pc := .idle
  latched := s.latched
  posted := s.posted
  sent := s.sent

/-- Where `tx_head` and the wait of the handler stand. -/
def Waiting (s : Sys) : Prop :=
  match s.kern.pc with
  | .txWait t => (s.kern.sc.txHead + 1) % numTxDesc = s.posted.length % numTxDesc ∧
      t.postedIdx = s.kern.sc.txHead ∧ (t.done = true ↔ s.Settled)
  | _ => s.kern.sc.txHead = s.posted.length % numTxDesc

/-- Both directions of a port, and the completions between them. -/
structure Inv (tx rx : Word) (s : Sys) : Prop where
  receive : KernelRx.Inv tx rx s.kern s.cursor
  transmit : DirectTx.Inv tx 0 (s.txSide tx rx)
  fetched : s.kern.w.txFetched ≤ s.sent.length
  reported : (txIdxOf s.kern.w.evLog).map BitVec.toNat =
    (List.range s.kern.w.txFetched).map (· % 2 ^ 16)
  window : s.posted.length ≤ s.completed + 1
  waiting : Waiting s

theorem txIdxOf_append (evs fs : List Word) : txIdxOf (evs ++ fs) = txIdxOf evs ++ txIdxOf fs := by
  simp [txIdxOf]

theorem txIdxOf_isPrefix {evs fs : List Word} (h : evs <+: fs) : txIdxOf evs <+: txIdxOf fs :=
  (h.filter _).map _

/-- Events an action of the NIC writes. -/
def logged : KernelRx.Act → List Word
  | .nicRxEvent ev => [ev]
  | .nicTxEvent ev => [ev]
  | _ => []

/-- Descriptors an action of the NIC reports. -/
def completes : KernelRx.Act → ℕ
  | .nicTxEvent _ => 1
  | _ => 0

/-- Frames an action of the NIC takes. -/
def filled : KernelRx.Act → List Frame
  | .nicFill _ frame => [frame]
  | _ => []

/-- What an action of the handlers or of the NIC's receive side does to the NIC's histories, and
what it leaves of the transmit side. -/
structure Effect (tx rx : Word) (s t : KernelRx.Sys) (a : KernelRx.Act) : Prop where
  txRing : launched s a = [] → t.w.txRing = s.w.txRing
  doorbell : launched s a = [] → t.w.regs regDataTxWptrDbl = s.w.regs regDataTxWptrDbl
  mem : launched s a = [] → ∀ b, tx.toNat ≤ b → b < tx.toNat + numTxDesc * txBufferSize →
    t.w.mem b = s.w.mem b
  delivered : a ≠ .rxReturn → t.delivered = s.delivered
  accepted : t.w.accepted = s.w.accepted ++ filled a
  log : t.w.evLog = s.w.evLog ++ logged a
  fetched : t.w.txFetched = s.w.txFetched + completes a
  cursor : s.w.evqAcked + s.pc.consumed ≤ t.w.evqAcked + t.pc.consumed

/-- Nothing the transmit side looks at has changed, and no frame was taken. -/
structure SameView (w u : World) : Prop where
  txRing : u.txRing = w.txRing
  doorbell : u.regs regDataTxWptrDbl = w.regs regDataTxWptrDbl
  mem : u.mem = w.mem
  accepted : u.accepted = w.accepted
  evLog : u.evLog = w.evLog
  txFetched : u.txFetched = w.txFetched

theorem SameView.refl (w : World) : SameView w w := ⟨rfl, rfl, rfl, rfl, rfl, rfl⟩

theorem SameView.writeReg {w : World} {off : ℕ} (v : BitVec 32) (hoff : regDataTxWptrDbl ≠ off) :
    SameView w (w.writeReg off v) :=
  ⟨rfl, World.writeReg_regs_of_ne _ hoff _, rfl, rfl, rfl, rfl⟩

theorem SameView.ackEvq (sc : Softc) (w : World) (n : ℕ) : SameView w (ackEvq sc w n) := by
  unfold Sfc7120.ackEvq
  split_ifs
  · exact .writeReg _ (by decide)
  · exact .refl w

theorem txPollIter_view (sc : Softc) (w : World) (t : TxWait) :
    SameView w (txPollIter sc w t).2.1 ∧ (txPollIter sc w t).2.1.evqAcked = w.evqAcked ∧
      t.consumed ≤ (txPollIter sc w t).2.2.consumed := by
  unfold txPollIter
  dsimp only
  split_ifs
  · exact ⟨.refl w, rfl, le_rfl⟩
  · exact ⟨⟨rfl, rfl, rfl, rfl, rfl, rfl⟩, rfl, Nat.le_succ _⟩

theorem rxPollIter_view (sc : Softc) (w : World) (r : RxWait) :
    SameView w (rxPollIter sc w r).2.1 ∧ (rxPollIter sc w r).2.1.evqAcked = w.evqAcked ∧
      r.consumed ≤ (rxPollIter sc w r).2.2.consumed := by
  unfold rxPollIter
  dsimp only
  split
  · exact ⟨.refl w, rfl, le_rfl⟩
  · exact ⟨⟨rfl, rfl, rfl, rfl, rfl, rfl⟩, rfl, Nat.le_succ _⟩

theorem World.nicTxEvent_eq {w u : World} {ev : Word} (h : w.nicTxEvent ev = some u) :
    evCode ev = 2#32 ∧ (evTxDescIdx ev).toNat = w.txFetched % 2 ^ 16 ∧
      u = { w with
        dataEvq := Function.update w.dataEvq (w.evLog.length % numEvqEntry) ev
        evLog := w.evLog ++ [ev]
        txFetched := w.txFetched + 1 } := by
  unfold World.nicTxEvent at h
  split at h
  next => cases h
  next v hv =>
    split_ifs at h with hguard
    obtain ⟨v, hpost, rfl⟩ := Option.map_eq_some_iff.mp h
    obtain ⟨-, rfl⟩ := World.postEvent_eq hpost
    exact ⟨hguard.2.1, hguard.2.2, rfl⟩

section
variable {tx rx : Word} {s t : KernelRx.Sys} {a : KernelRx.Act} {c : ℕ}

/-- A step of the handlers that leaves the NIC's view of the transmit side alone. -/
theorem Effect.quiet (hview : SameView s.w t.w) (hdel : a ≠ .rxReturn → t.delivered = s.delivered)
    (hfilled : filled a = []) (hlog : logged a = []) (hnone : completes a = 0)
    (hcursor : s.w.evqAcked + s.pc.consumed ≤ t.w.evqAcked + t.pc.consumed) :
    Effect tx rx s t a :=
  ⟨fun _ => hview.txRing, fun _ => hview.doorbell, fun _ _ _ _ => by rw [hview.mem],
    hdel, by rw [hfilled, List.append_nil, hview.accepted],
    by rw [hlog, List.append_nil, hview.evLog], by rw [hnone, Nat.add_zero, hview.txFetched],
    hcursor⟩

/-- What each action does to the transmit side. -/
theorem step_effect (hlay : Duplex.Layout tx rx) (h : KernelRx.Inv tx rx s c)
    (hstep : KernelRx.step s a = some t) : Effect tx rx s t a := by
  cases a with
  | tx req copyErr =>
    simp only [KernelRx.step] at hstep
    split at hstep
    next hpc hval =>
      obtain rfl := Option.some.inj hstep
      have hsome : launched s (.tx req none) ≠ [] := by simp [launched, hpc, hval]
      refine ⟨(absurd · hsome), (absurd · hsome), (absurd · hsome), fun _ => rfl, ?_, ?_, rfl,
        ?_⟩
      · exact (List.append_nil _).symm
      · exact (List.append_nil _).symm
      · show _ + s.pc.consumed ≤ (txPost s.sc s.w req).evqAcked + 0
        rw [hpc, txPost, World.writeReg_evqAcked_of_ne _ (by decide)]
        exact le_rfl
    next =>
      obtain rfl := Option.some.inj hstep
      exact .quiet (.refl _) (fun _ => rfl) rfl rfl rfl le_rfl
    next => cases hstep
  | txPoll =>
    obtain ⟨w, hpc, -, rfl⟩ := KernelRx.step_txPoll hstep
    obtain ⟨hview, hacked, hconsumed⟩ := txPollIter_view s.sc s.w w
    refine .quiet hview (fun _ => rfl) rfl rfl rfl ?_
    rw [hpc, hacked]
    exact Nat.add_le_add_left hconsumed _
  | rxPoll =>
    obtain ⟨r, hpc, -, rfl⟩ := KernelRx.step_rxPoll hstep
    obtain ⟨hview, hacked, hconsumed⟩ := rxPollIter_view s.sc s.w r
    refine .quiet hview (fun _ => rfl) rfl rfl rfl ?_
    rw [hpc, hacked]
    exact Nat.add_le_add_left hconsumed _
  | txReturn =>
    simp only [KernelRx.step] at hstep
    split at hstep
    next w hpc =>
      split_ifs at hstep
      obtain rfl := Option.some.inj hstep
      refine .quiet (.ackEvq _ _ _) (fun _ => rfl) rfl rfl rfl ?_
      rw [h.polled, (h.txReturn hpc).polled]
    next => cases hstep
  | rx =>
    simp only [KernelRx.step] at hstep
    split at hstep
    next hpc =>
      obtain rfl := Option.some.inj hstep
      refine .quiet (.refl _) (fun _ => rfl) rfl rfl rfl ?_
      rw [hpc]
      exact le_rfl
    next => cases hstep
  | rxAck =>
    simp only [KernelRx.step] at hstep
    split at hstep
    next r hpc =>
      split_ifs at hstep
      obtain rfl := Option.some.inj hstep
      refine .quiet (.ackEvq _ _ _) (fun _ => rfl) rfl rfl rfl ?_
      have hconsumed : s.pc.consumed = r.consumed := by rw [hpc]; rfl
      rw [h.polled, ← hconsumed]
      refine (KernelRx.Inv.polled (h.ack ?_ ?_ ?_)).ge <;> cases hfound : r.found <;>
        simp [KernelRx.Pc.consumed, KernelRx.Pc.found, KernelRx.Pc.frame, hpc, hfound]
    next => cases hstep
  | rxCopyout copyErr =>
    simp only [KernelRx.step] at hstep
    split at hstep
    next b hpc =>
      cases copyErr <;> obtain rfl := Option.some.inj hstep <;>
        exact .quiet (.refl _) (fun _ => rfl) rfl rfl rfl (by rw [hpc]; exact le_rfl)
    next => cases hstep
  | rxReturn =>
    simp only [KernelRx.step] at hstep
    split at hstep
    next f hpc =>
      obtain rfl := Option.some.inj hstep
      have hview : SameView s.w (s.w.writeReg regRxDescDbl (BitVec.ofNat 32 s.sc.rxHead)) :=
        .writeReg _ (by decide)
      have hacked : (s.w.writeReg regRxDescDbl (BitVec.ofNat 32 s.sc.rxHead)).evqAcked =
          s.w.evqAcked := World.writeReg_evqAcked_of_ne _ (by decide) _
      refine .quiet ⟨rfl, hview.doorbell, rfl, rfl, rfl, rfl⟩ (absurd rfl ·) rfl rfl rfl ?_
      rw [hpc]
      exact hacked.ge
    next => cases hstep
  | nicFill pre frame =>
    obtain ⟨u, hu, rfl⟩ := Option.map_eq_some_iff.mp hstep
    have hsame : Duplex.SameTx tx s.w (SfcIf.fresh tx rx) u (SfcIf.fresh tx rx) :=
      Duplex.fill_sameTx hlay h.rx hu
    have hmem := hsame.mem
    obtain ⟨mem, rfl⟩ := World.nicRxFill_eq hu
    exact ⟨fun _ => rfl, fun _ => rfl, fun _ => hmem, fun _ => rfl, rfl, (List.append_nil _).symm,
      rfl, le_rfl⟩
  | nicRxEvent ev =>
    obtain ⟨u, hu, rfl⟩ := Option.map_eq_some_iff.mp hstep
    obtain ⟨frame, v, -, -, -, hpost, rfl⟩ := World.nicRxEvent_eq hu
    obtain ⟨-, rfl⟩ := World.postEvent_eq hpost
    exact ⟨fun _ => rfl, fun _ => rfl, fun _ _ _ _ => rfl, fun _ => rfl, (List.append_nil _).symm,
      rfl, rfl, le_rfl⟩
  | nicTxEvent ev =>
    obtain ⟨u, hu, rfl⟩ := Option.map_eq_some_iff.mp hstep
    obtain ⟨-, -, rfl⟩ := World.nicTxEvent_eq hu
    exact ⟨fun _ => rfl, fun _ => rfl, fun _ _ _ _ => rfl, fun _ => rfl, (List.append_nil _).symm,
      rfl, rfl, le_rfl⟩

end

/-- The handler's transmit is `sfc7120_tx_post` on the same queue pair. -/
theorem txPost_eq {sc : Softc} {w : World} {req : TxReq} {f : SfcIf}
    (hpaddr : f.txBufferPaddr = sc.txBufferPaddr) (hhead : f.txHead = sc.txHead)
    (hlen : req.length ≤ req.bytes.length) :
    txPost sc w req = (txPostRing f (txPostDesc f (txPostCopy f w
      (req.bytes.take req.length)) (req.bytes.take req.length).length)).2 := by
  rw [List.length_take_of_le hlen]
  simp only [txPost, txPostRing, txPostDesc, txPostCopy, hpaddr, hhead]
  rfl

section
variable {tx rx : Word} {s t : Sys} {a : KernelRx.Act}

theorem Inv.cursor_le (h : Inv tx rx s) : s.cursor ≤ s.kern.w.evLog.length :=
  h.receive.evq.ring.read_le

/-- Completions consumed, reported, sent and posted. -/
theorem Inv.completed_le (h : Inv tx rx s) :
    s.completed ≤ s.kern.w.txFetched ∧ s.sent.length ≤ s.posted.length := by
  refine ⟨?_, h.transmit.order.length_le⟩
  have hcount := congrArg List.length h.reported
  simp only [List.length_map, List.length_range] at hcount
  rw [← hcount]
  exact (txIdxOf_isPrefix (List.take_prefix _ _)).length_le

/-- What is not a launch keeps the transmit side. -/
theorem Inv.transmit_kern (h : Inv tx rx s) {k : KernelRx.Sys} (he : Effect tx rx s.kern k a)
    (hnone : launched s.kern a = []) :
    DirectTx.Inv tx 0 (Sys.txSide tx rx { s with kern := k }) := by
  have hsame : Duplex.SameTx tx (s.txSide tx rx).w (s.txSide tx rx).sfc
      { k.w with txFetched := s.sent.length } (s.txSide tx rx).sfc :=
    ⟨he.txRing hnone, rfl, he.doorbell hnone, he.mem hnone, rfl, rfl⟩
  exact hsame.inv h.transmit

/-- Events consumed and events written only grow, and with them the completions consumed. -/
theorem Inv.completed_mono (h : Inv tx rx s) {k : KernelRx.Sys} (posted : List (List Byte))
    (he : Effect tx rx s.kern k a) :
    s.completed ≤ Sys.completed { s with kern := k, posted := posted } := by
  refine (txIdxOf_isPrefix ?_).length_le
  show s.kern.w.evLog.take s.cursor <+: k.w.evLog.take (k.w.evqAcked + k.pc.consumed)
  have htake : s.kern.w.evLog.take s.cursor = k.w.evLog.take s.cursor := by
    rw [he.log, List.take_append_of_le_length h.cursor_le]
  rw [htake]
  exact List.take_prefix_take_left he.cursor

/-- A launch puts its packet behind the ones already posted. -/
theorem Inv.transmit_launch (h : Inv tx rx s) {req : TxReq} (hpc : s.kern.pc = .idle)
    (hval : txValidate req = none) (hlen : req.length ≤ req.bytes.length) (hset : s.Settled) :
    DirectTx.Inv tx 0 (Sys.txSide tx rx { s with
      kern := { s.kern with
        w := txPost s.kern.sc s.kern.w req, pc := .txWait ⟨s.kern.sc.txHead, 0, false, 0⟩ }
      posted := s.posted ++ [req.bytes.take req.length] }) := by
  have hwait := h.waiting
  simp only [Waiting, hpc] at hwait
  have hpkt : (req.bytes.take req.length).length ≤ txBufferSize :=
    (List.length_take_le _ _).trans (txValidate_length hval).2
  have hroom : s.posted.length < s.sent.length + 511 := by
    have hdone := (h.completed_le).1
    have hfetched := h.fetched
    have hsettled : s.posted.length ≤ s.completed := hset
    omega
  have hdirect := ((h.transmit.callPost hpkt).postDesc rfl).postRing rfl hroom
  have hhead : (s.posted ++ [req.bytes.take req.length]).length % numTxDesc =
      (s.posted.length % numTxDesc + 1) &&& (numTxDesc - 1) := by
    rw [show numTxDesc - 1 = numEvqEntry - 1 from rfl, and_ringMask, List.length_append,
      List.length_singleton]
    exact (Nat.mod_add_mod _ _ _).symm
  refine Duplex.SameTx.inv ?_ hdirect
  have hworld : txPost s.kern.sc s.kern.w req = _ :=
    txPost_eq (f := (s.txSide tx rx).sfc) h.receive.txPaddr.symm hwait.symm hlen
  constructor
  · rw [hworld]
    rfl
  · rfl
  · rw [hworld]
    rfl
  · intro b _ _
    rw [hworld]
    rfl
  · exact hhead
  · rfl

/-- A step that consumes nothing leaves the completions consumed as they were. -/
theorem Inv.completed_eq (h : Inv tx rx s) {k : KernelRx.Sys} (posted : List (List Byte))
    (he : Effect tx rx s.kern k a) (hcursor : k.w.evqAcked + k.pc.consumed = s.cursor) :
    Sys.completed { s with kern := k, posted := posted } = s.completed := by
  show (txIdxOf (k.w.evLog.take (k.w.evqAcked + k.pc.consumed))).length = _
  rw [hcursor, he.log, List.take_append_of_le_length h.cursor_le]
  rfl

/-- The events an action writes report the next descriptors. -/
theorem logged_reports {k l : KernelRx.Sys} (hstep : KernelRx.step k a = some l) :
    (txIdxOf (logged a)).map BitVec.toNat =
      (List.range (completes a)).map fun i => (k.w.txFetched + i) % 2 ^ 16 := by
  cases a with
  | nicRxEvent ev =>
    obtain ⟨u, hu, -⟩ := Option.map_eq_some_iff.mp hstep
    obtain ⟨_, _, -, hcode, -⟩ := World.nicRxEvent_eq hu
    simp [txIdxOf, logged, completes, hcode]
  | nicTxEvent ev =>
    obtain ⟨u, hu, -⟩ := Option.map_eq_some_iff.mp hstep
    obtain ⟨hcode, hidx, -⟩ := World.nicTxEvent_eq hu
    simp [txIdxOf, logged, completes, hcode, hidx]
  | _ => rfl

theorem Inv.reported_kern (h : Inv tx rx s) {k : KernelRx.Sys} (he : Effect tx rx s.kern k a)
    (hstep : KernelRx.step s.kern a = some k) :
    (txIdxOf k.w.evLog).map BitVec.toNat = (List.range k.w.txFetched).map (· % 2 ^ 16) := by
  rw [he.log, he.fetched, txIdxOf_append, List.map_append, h.reported, logged_reports hstep,
    List.range_add, List.map_append, List.map_map]
  rfl

theorem Inv.fetched_kern (h : Inv tx rx s) {k : KernelRx.Sys} (he : Effect tx rx s.kern k a)
    (hen : s.enabled a = true) : k.w.txFetched ≤ s.sent.length := by
  have hle := h.fetched
  rw [he.fetched]
  cases a with
  | nicTxEvent ev => exact of_decide_eq_true hen
  | _ => exact hle

/-- What the poll takes from the read pointer is event number `cursor`. -/
theorem Inv.head_event (h : Inv tx rx s)
    (hev : evEmpty (s.kern.w.dataEvq s.kern.sc.dataEvqReadPtr) = false) :
    ∃ hc : s.cursor < s.kern.w.evLog.length,
      s.kern.w.dataEvq s.kern.sc.dataEvqReadPtr = s.kern.w.evLog[s.cursor] := by
  rw [h.receive.readPtr] at hev ⊢
  obtain ⟨hc, hword, -⟩ := h.receive.evq.consume hev
  exact ⟨hc, hword⟩

theorem txIdxOf_take_succ {log : List Word} {c : ℕ} (hc : c < log.length) :
    txIdxOf (log.take (c + 1)) =
      txIdxOf (log.take c) ++ if evCode log[c] = 2#32 then [evTxDescIdx log[c]] else [] := by
  rw [List.take_add_one, List.getElem?_eq_getElem hc, Option.toList_some, txIdxOf_append]
  by_cases h : evCode log[c] = 2#32 <;> simp [txIdxOf, h]

/-- The next TX event reports descriptor number `completed`. -/
theorem Inv.head_index (h : Inv tx rx s) (hc : s.cursor < s.kern.w.evLog.length)
    (hcode : evCode s.kern.w.evLog[s.cursor] = 2#32) :
    s.completed < s.kern.w.txFetched ∧
      (evTxDescIdx s.kern.w.evLog[s.cursor]).toNat = s.completed % 2 ^ 16 := by
  have hsucc := txIdxOf_take_succ hc
  rw [if_pos hcode] at hsucc
  have hpre := txIdxOf_isPrefix (List.take_prefix (s.cursor + 1) s.kern.w.evLog)
  rw [hsucc] at hpre
  obtain ⟨l, hl⟩ := hpre.map BitVec.toNat
  rw [h.reported] at hl
  have hat : ((List.range s.kern.w.txFetched).map (· % 2 ^ 16))[s.completed]? =
      some (evTxDescIdx s.kern.w.evLog[s.cursor]).toNat := by
    rw [← hl]
    simp [Sys.completed]
  obtain ⟨i, hi, hmod⟩ := by simpa only [List.getElem?_map, Option.map_eq_some_iff] using hat
  obtain ⟨hlt, heq⟩ := List.getElem?_eq_some_iff.mp hi
  simp only [List.length_range, List.getElem_range] at hlt heq
  subst heq
  exact ⟨hlt, hmod.symm⟩

/-- While a packet waits for its completion, the next TX event is that completion. -/
theorem Inv.head_completion (h : Inv tx rx s) {idx : ℕ} (hopen : ¬s.Settled)
    (hidx : (idx + 1) % numTxDesc = s.posted.length % numTxDesc) (hlt : idx < numTxDesc)
    (hc : s.cursor < s.kern.w.evLog.length) :
    isTxCompletion s.kern.w.evLog[s.cursor] idx = true ↔
      evCode s.kern.w.evLog[s.cursor] = 2#32 := by
  simp only [isTxCompletion, Bool.and_eq_true, beq_iff_eq, and_iff_left_iff_imp]
  intro hcode
  obtain ⟨-, hmod⟩ := h.head_index hc hcode
  have hwin := h.window
  have hlast : s.posted.length = s.completed + 1 := by
    simp only [Sys.Settled, not_le] at hopen
    omega
  rw [hmod, show numTxDesc - 1 = numEvqEntry - 1 from rfl, and_ringMask]
  simp only [numEvqEntry, numTxDesc] at *
  omega

/-- The wait takes the completion of its own packet for it, and nothing else. -/
theorem Inv.waiting_poll (h : Inv tx rx s) {k : KernelRx.Sys}
    (he : Effect tx rx s.kern k .txPoll) (hstep : KernelRx.step s.kern .txPoll = some k) :
    Waiting { s with kern := k } := by
  obtain ⟨w, hpc, hagain, hk⟩ := KernelRx.step_txPoll hstep
  have hwait := h.waiting
  simp only [Waiting, hpc] at hwait
  obtain ⟨hhead, hidx, hdone⟩ := hwait
  have hnot : w.done = false := by
    simp only [TxWait.again, Bool.and_eq_true, Bool.not_eq_true'] at hagain
    exact hagain.2
  have hopen : ¬s.Settled := fun hset => by simpa [hnot] using hdone.mpr hset
  by_cases hempty : evEmpty (s.kern.w.dataEvq s.kern.sc.dataEvqReadPtr) = true
  · have hcursor : k.w.evqAcked + k.pc.consumed = s.cursor := by
      subst hk
      simp [txPollIter, hempty, Sys.cursor, hpc, KernelRx.Pc.consumed]
    have hsame := h.completed_eq s.posted he hcursor
    subst hk
    simp only [txPollIter, hempty, if_true] at hsame ⊢
    refine ⟨hhead, hidx, ?_⟩
    rw [Sys.Settled, hsame]
    exact hdone
  · obtain ⟨hc, hev⟩ := h.head_event (Bool.not_eq_true _ ▸ hempty)
    have hown := h.head_completion hopen hhead h.receive.txHead hc
    have hsucc := txIdxOf_take_succ hc
    have hcursor : k.w.evqAcked + k.pc.consumed = s.cursor + 1 := by
      subst hk
      simp [txPollIter, hempty, Sys.cursor, hpc, KernelRx.Pc.consumed, consumeEv, Nat.add_assoc]
    have hcount : Sys.completed { s with kern := k } = s.completed +
        if evCode s.kern.w.evLog[s.cursor] = 2#32 then 1 else 0 := by
      show (txIdxOf (k.w.evLog.take (k.w.evqAcked + k.pc.consumed))).length = _
      have hlog : k.w.evLog = s.kern.w.evLog := by
        rw [he.log]
        exact List.append_nil _
      rw [hcursor, hlog, hsucc, List.length_append]
      split_ifs <;> rfl
    have hwin := h.window
    subst hk
    simp only [txPollIter, hempty, Bool.false_eq_true, if_false, hnot, Bool.false_or] at hcount ⊢
    refine ⟨hhead, hidx, ?_⟩
    rw [Sys.Settled, hcount, hidx, hev, hown]
    show _ ↔ s.posted.length ≤ _
    simp only [Sys.Settled, not_le] at hopen
    by_cases hcode : evCode s.kern.w.evLog[s.cursor] = 2#32
    · simpa [hcode] using hwin
    · simpa [hcode] using hopen

/-- No transmit poll meets an RX event, no transmit starts before the last one saw its completion,
and the copies between user and kernel succeed. -/
def InTurn (s : Sys) : Act → Prop
  | .kern a => a.copyOk = true ∧ KernelRx.TxMeetsNoRx s.kern a ∧
      (launched s.kern a ≠ [] → s.Settled)
  | _ => True

theorem launched_cases (k : KernelRx.Sys) (a : KernelRx.Act) :
    launched k a = [] ∨ ∃ req, a = .tx req none ∧ k.pc = .idle ∧ txValidate req = none ∧
      launched k a = [req.bytes.take req.length] := by
  cases a with
  | tx req copyErr =>
    cases copyErr with
    | none =>
      by_cases hgo : k.pc = .idle ∧ txValidate req = none
      · exact .inr ⟨req, rfl, hgo.1, hgo.2, if_pos hgo⟩
      · exact .inl (if_neg hgo)
    | some e => exact .inl rfl
  | _ => exact .inl rfl

theorem Inv.waiting_nic (h : Inv tx rx s) {k : KernelRx.Sys} (he : Effect tx rx s.kern k a)
    (hpc : k.pc = s.kern.pc) (hsc : k.sc = s.kern.sc) (hack : k.w.evqAcked = s.kern.w.evqAcked) :
    Waiting { s with kern := k } := by
  have hsame := h.completed_eq s.posted he (by rw [hack, hpc]; rfl)
  have hwait := h.waiting
  simp only [Waiting, hpc, hsc, Sys.Settled, hsame] at hwait ⊢
  exact hwait

/-- Outside a launch and a transmit poll, the wait and `tx_head` stay in step. -/
theorem Inv.waiting_kern (h : Inv tx rx s) {k : KernelRx.Sys} (he : Effect tx rx s.kern k a)
    (hnone : launched s.kern a = []) (hpoll : a ≠ .txPoll)
    (hstep : KernelRx.step s.kern a = some k) : Waiting { s with kern := k } := by
  have hwait := h.waiting
  cases a with
  | tx req copyErr =>
    simp only [KernelRx.step] at hstep
    split at hstep
    next hpc hval => simp [launched, hpc, hval] at hnone
    next =>
      obtain rfl := Option.some.inj hstep
      exact hwait
    next => cases hstep
  | txPoll => exact absurd rfl hpoll
  | txReturn =>
    simp only [KernelRx.step] at hstep
    split at hstep
    next w hpc =>
      split_ifs at hstep
      obtain rfl := Option.some.inj hstep
      simp only [Waiting, hpc] at hwait
      show (s.kern.sc.txHead + 1) &&& (numEvqEntry - 1) = _
      rw [and_ringMask]
      exact hwait.1
    next => cases hstep
  | rx =>
    simp only [KernelRx.step] at hstep
    split at hstep
    next hpc =>
      obtain rfl := Option.some.inj hstep
      simpa only [Waiting, hpc] using hwait
    next => cases hstep
  | rxPoll =>
    obtain ⟨r, hpc, -, rfl⟩ := KernelRx.step_rxPoll hstep
    simp only [Waiting, hpc] at hwait
    have hhead : (rxPollIter s.kern.sc s.kern.w r).1.txHead = s.kern.sc.txHead := by
      unfold rxPollIter
      dsimp only
      split <;> rfl
    exact hhead.trans hwait
  | rxAck =>
    simp only [KernelRx.step] at hstep
    split at hstep
    next r hpc =>
      split_ifs at hstep
      obtain rfl := Option.some.inj hstep
      simp only [Waiting, hpc] at hwait
      cases hfound : r.found <;> simpa only [Waiting, hfound] using hwait
    next => cases hstep
  | rxCopyout copyErr =>
    simp only [KernelRx.step] at hstep
    split at hstep
    next b hpc =>
      simp only [Waiting, hpc] at hwait
      cases copyErr <;> obtain rfl := Option.some.inj hstep <;> exact hwait
    next => cases hstep
  | rxReturn =>
    simp only [KernelRx.step] at hstep
    split at hstep
    next f hpc =>
      obtain rfl := Option.some.inj hstep
      simp only [Waiting, hpc] at hwait
      exact hwait
    next => cases hstep
  | nicFill pre frame =>
    obtain ⟨u, hu, rfl⟩ := Option.map_eq_some_iff.mp hstep
    obtain ⟨mem, rfl⟩ := World.nicRxFill_eq hu
    exact h.waiting_nic he rfl rfl rfl
  | nicRxEvent ev =>
    obtain ⟨u, hu, rfl⟩ := Option.map_eq_some_iff.mp hstep
    obtain ⟨_, v, -, -, -, hpost, rfl⟩ := World.nicRxEvent_eq hu
    obtain ⟨-, rfl⟩ := World.postEvent_eq hpost
    exact h.waiting_nic he rfl rfl rfl
  | nicTxEvent ev =>
    obtain ⟨u, hu, rfl⟩ := Option.map_eq_some_iff.mp hstep
    obtain ⟨-, -, rfl⟩ := World.nicTxEvent_eq hu
    exact h.waiting_nic he rfl rfl rfl

theorem Inv.receive_kern (h : Inv tx rx s) (hlay : Duplex.Layout tx rx) {k : KernelRx.Sys}
    (hcopy : a.copyOk = true) (hmeets : KernelRx.TxMeetsNoRx s.kern a)
    (hstep : KernelRx.step s.kern a = some k) :
    KernelRx.Inv tx rx k (k.w.evqAcked + k.pc.consumed) := by
  obtain ⟨c, hk⟩ := h.receive.step hlay.rx_le hlay.apart hcopy hmeets hstep
  rw [hk.polled]
  exact hk

/-- A transmit begins: one packet more than completions, and the wait open. -/
theorem Inv.launch (h : Inv tx rx s) (hlay : Duplex.Layout tx rx) {req : TxReq}
    (hpc : s.kern.pc = .idle) (hval : txValidate req = none)
    (hlen : req.length ≤ req.bytes.length) (hset : s.Settled) :
    Inv tx rx { s with
      kern := { s.kern with
        w := txPost s.kern.sc s.kern.w req, pc := .txWait ⟨s.kern.sc.txHead, 0, false, 0⟩ }
      posted := s.posted ++ [req.bytes.take req.length] } := by
  have hstep : KernelRx.step s.kern (.tx req none) = some { s.kern with
      w := txPost s.kern.sc s.kern.w req, pc := .txWait ⟨s.kern.sc.txHead, 0, false, 0⟩ } := by
    simp only [KernelRx.step, hpc, hval]
  have he := step_effect hlay h.receive hstep
  have hacked : (txPost s.kern.sc s.kern.w req).evqAcked = s.kern.w.evqAcked :=
    World.writeReg_evqAcked_of_ne _ (by decide) _
  have hsame := h.completed_eq (s.posted ++ [req.bytes.take req.length]) he (by
    rw [hacked, Sys.cursor, hpc]
    rfl)
  have hsettled : s.posted.length ≤ s.completed := hset
  have hwait := h.waiting
  simp only [Waiting, hpc] at hwait
  refine ⟨h.receive_kern hlay rfl (fun hpoll => by cases hpoll) hstep,
    h.transmit_launch hpc hval hlen hset, h.fetched_kern he (decide_eq_true hlen),
    h.reported_kern he hstep, ?_, ?_, rfl, ?_⟩
  · rw [hsame, List.length_append]
    exact Nat.succ_le_succ hsettled
  · show (s.kern.sc.txHead + 1) % numTxDesc = (s.posted ++ _).length % numTxDesc
    rw [hwait, List.length_append]
    exact Nat.mod_add_mod _ _ _
  · have hdone := h.completed_le
    have hfetched := h.fetched
    rw [Sys.Settled, hsame, List.length_append, List.length_singleton]
    simp only [Bool.false_eq_true, false_iff]
    omega

/-- A step of the handlers or of the NIC's receive side. -/
theorem Inv.kern (h : Inv tx rx s) (hlay : Duplex.Layout tx rx) {k : KernelRx.Sys}
    (hen : s.enabled a = true) (hturn : InTurn s (.kern a))
    (hstep : KernelRx.step s.kern a = some k) :
    Inv tx rx { s with kern := k, posted := s.posted ++ launched s.kern a } := by
  obtain ⟨hcopy, hmeets, hset⟩ := hturn
  rcases launched_cases s.kern a with hnone | ⟨req, rfl, hpc, hval, hsome⟩
  · have he := step_effect hlay h.receive hstep
    have hmono := h.completed_mono s.posted he
    rw [hnone, List.append_nil]
    refine ⟨h.receive_kern hlay hcopy hmeets hstep, h.transmit_kern he hnone,
      h.fetched_kern he hen, h.reported_kern he hstep,
      h.window.trans (Nat.succ_le_succ hmono), ?_⟩
    by_cases hpoll : a = .txPoll
    · subst hpoll
      exact h.waiting_poll he hstep
    · exact h.waiting_kern he hnone hpoll hstep
  · have hk : { s.kern with
        w := txPost s.kern.sc s.kern.w req
        pc := .txWait ⟨s.kern.sc.txHead, 0, false, 0⟩ } = k := by
      simpa only [KernelRx.step, hpc, hval, Option.some.injEq] using hstep
    rw [← hk, hsome]
    exact h.launch hlay hpc hval (of_decide_eq_true hen) (hset (by simp [hsome]))

theorem Inv.step (h : Inv tx rx s) (hlay : Duplex.Layout tx rx) {b : Act} (hturn : InTurn s b)
    (hstep : KernelDuplex.step s b = some t) : Inv tx rx t := by
  cases b with
  | kern a =>
    simp only [KernelDuplex.step] at hstep
    split_ifs at hstep with hen
    obtain ⟨k, hk, rfl⟩ := Option.map_eq_some_iff.mp hstep
    exact h.kern hlay hen hturn hk
  | nicFetch =>
    simp only [KernelDuplex.step] at hstep
    split at hstep
    · split_ifs at hstep with hne
      obtain rfl := Option.some.inj hstep
      exact ⟨h.receive, h.transmit.nicFetch hne, h.fetched, h.reported, h.window, h.waiting⟩
    · cases hstep
  | nicSend =>
    simp only [KernelDuplex.step] at hstep
    split at hstep
    · cases hstep
    next d hd =>
      obtain rfl := Option.some.inj hstep
      have hsend := h.transmit.nicSend hlay.tx_le hd
      have hfetched := h.fetched
      refine ⟨h.receive, ?_, ?_, h.reported, h.window, h.waiting⟩
      · simp only [Sys.txSide, List.length_append, List.length_singleton]
        exact hsend
      · rw [List.length_append]
        exact hfetched.trans (Nat.le_succ _)

/-- Frames come in by a fill only, and no history shrinks. -/
theorem Inv.histories (h : Inv tx rx s) (hlay : Duplex.Layout tx rx) {b : Act}
    (hfill : ∀ pre f, b ≠ .kern (.nicFill pre f)) (hstep : KernelDuplex.step s b = some t) :
    t.kern.w.accepted = s.kern.w.accepted ∧ s.sent <+: t.sent ∧ s.completed ≤ t.completed := by
  cases b with
  | kern a =>
    simp only [KernelDuplex.step] at hstep
    split_ifs at hstep
    obtain ⟨k, hk, rfl⟩ := Option.map_eq_some_iff.mp hstep
    have he := step_effect hlay h.receive hk
    have hnone : filled a = [] := by
      cases a with
      | nicFill pre f => exact absurd rfl (hfill pre f)
      | _ => rfl
    refine ⟨?_, List.prefix_refl _, h.completed_mono _ he⟩
    rw [he.accepted, hnone, List.append_nil]
  | nicFetch =>
    simp only [KernelDuplex.step] at hstep
    split at hstep
    · split_ifs at hstep
      obtain rfl := Option.some.inj hstep
      exact ⟨rfl, List.prefix_refl _, le_rfl⟩
    · cases hstep
  | nicSend =>
    simp only [KernelDuplex.step] at hstep
    split at hstep
    · cases hstep
    · obtain rfl := Option.some.inj hstep
      exact ⟨rfl, List.prefix_append _ _, le_rfl⟩

/-- With no frame taken beyond those delivered, the poll has no RX event to meet. -/
theorem Inv.rxAtHead_eq_false (h : Inv tx rx s) (hfound : s.kern.pc.found = none)
    (hframe : s.kern.pc.frame = none)
    (hle : s.kern.w.accepted.length ≤ s.kern.delivered.length) : s.kern.rxAtHead = false := by
  by_contra hhead
  simp only [KernelRx.Sys.rxAtHead, Bool.not_eq_false, Bool.and_eq_true, Bool.not_eq_true',
    beq_iff_eq] at hhead
  obtain ⟨hc, hev⟩ := h.head_event hhead.1
  have hsucc := rxBytesOf_take_succ hc
  rw [← hev, if_pos hhead.2] at hsucc
  have hmore := (rxBytesOf_take_isPrefix s.kern.w.evLog (s.cursor + 1)).length_le
  have hevents := congrArg List.length h.receive.evq.reports
  have howed := h.receive.owed
  have hconsumed := h.receive.consumed
  have hcount := h.receive.count
  simp only [hfound, hframe, Option.isSome_none, Bool.false_eq_true, or_self, if_false,
    Nat.add_zero] at howed
  simp only [hsucc, List.length_append, List.length_singleton, List.length_map,
    List.length_take] at hmore hevents
  omega

theorem with_txFetched {w : World} {n : ℕ} (h : w.txFetched = n) :
    { w with txFetched := n } = w := by
  subst h
  rfl

theorem inv_start (tx rx : Word) (mem : ℕ → Byte) : Inv tx rx (start tx rx mem) where
  receive := KernelRx.inv_start tx rx mem
  transmit := by
    have hworld : { (KernelRx.start tx rx mem).w with txFetched := 0 } =
        (KernelRx.start tx rx mem).w := with_txFetched rfl
    have hdirect := (Duplex.inv_start tx rx mem).transmit
    simp only [Sys.txSide, start, List.length_nil, Nat.zero_mod, hworld]
    exact hdirect
  fetched := le_rfl
  reported := rfl
  window := Nat.zero_le _
  waiting := rfl

end

end Sfc7120.KernelDuplex

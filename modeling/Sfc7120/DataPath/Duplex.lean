import Sfc7120.DataPath.DirectRx
import Sfc7120.DataPath.DirectTx

/-! One port used in both directions: the receive side polls and takes frames while the transmit
side posts packets, on one `sfc7120_if_t` and one NIC, in any order of their memory accesses. Each
side keeps to its own rings, doorbells, cursors and buffer; what it leaves alone is said once and
carries the other side's invariant over its steps. -/
namespace Sfc7120.Duplex

open ByteMemory Machine

structure Sys where
  w : World
  sfc : SfcIf
  rxPc : DirectRx.Pc
  txPc : DirectTx.Pc
  pending : List (BitVec 16)
  delivered : List Frame
  latched : Option Word
  posted : List (List Byte)
  sent : List (List Byte)

/-- The receive side's share of the state. -/
def Sys.rxSide (s : Sys) : DirectRx.Sys := ⟨s.w, s.sfc, s.rxPc, s.pending, s.delivered⟩

/-- The transmit side's share of the state. -/
def Sys.txSide (s : Sys) : DirectTx.Sys := ⟨s.w, s.sfc, s.txPc, s.latched, s.posted, s.sent⟩

def Sys.setRx (s : Sys) (r : DirectRx.Sys) : Sys :=
  { s with w := r.w, sfc := r.sfc, rxPc := r.pc, pending := r.pending, delivered := r.delivered }

def Sys.setTx (s : Sys) (t : DirectTx.Sys) : Sys :=
  { s with
    w := t.w, sfc := t.sfc, txPc := t.pc, latched := t.latched, posted := t.posted,
    sent := t.sent }

@[simp] theorem Sys.rxSide_setRx (s : Sys) (r : DirectRx.Sys) : (s.setRx r).rxSide = r := rfl

@[simp] theorem Sys.txSide_setTx (s : Sys) (t : DirectTx.Sys) : (s.setTx t).txSide = t := rfl

theorem Sys.txSide_setRx (s : Sys) (r : DirectRx.Sys) :
    (s.setRx r).txSide = { s.txSide with w := r.w, sfc := r.sfc } := rfl

theorem Sys.rxSide_setTx (s : Sys) (t : DirectTx.Sys) :
    (s.setTx t).rxSide = { s.rxSide with w := t.w, sfc := t.sfc } := rfl

/-- Steps of the transmit side proper. What it calls DMA and events of others is here done by the
receive side. -/
def txOwn : DirectTx.Act → Bool
  | .nicDma _ _ => false
  | .nicEvent _ _ => false
  | _ => true

inductive Act where
  | rx (a : DirectRx.Act)
  | tx (a : DirectTx.Act)

def step (s : Sys) : Act → Option Sys
  | .rx a => (DirectRx.step s.rxSide a).map s.setRx
  | .tx a => if txOwn a then (DirectTx.step s.txSide a).map s.setTx else none

/-- The port `sfc7120_init` hands out right after attach. -/
def start (tx rx : Word) (mem : ℕ → Byte) : Sys where
  w := postRxBuffers rx (World.fresh mem)
  sfc := SfcIf.fresh tx rx
  rxPc := .idle
  txPc := .idle
  pending := []
  delivered := []
  latched := none
  posted := []
  sent := []

/-- The two packet buffers lie apart, below the 48 bits a descriptor has for an address. -/
structure Layout (tx rx : Word) : Prop where
  tx_le : tx.toNat + numTxDesc * txBufferSize ≤ 2 ^ 48
  rx_le : rx.toNat + numRxDesc * rxBufferSize ≤ 2 ^ 48
  apart : tx.toNat + numTxDesc * txBufferSize ≤ rx.toNat ∨
    rx.toNat + numRxDesc * rxBufferSize ≤ tx.toNat

/-- All that receive depends on is the same. -/
structure SameRx (rx : Word) (w : World) (sfc : SfcIf) (u : World) (sfc' : SfcIf) : Prop where
  dataEvq : u.dataEvq = w.dataEvq
  evLog : u.evLog = w.evLog
  evqAcked : u.evqAcked = w.evqAcked
  rxEvents : u.rxEvents = w.rxEvents
  accepted : u.accepted = w.accepted
  rxRing : u.rxRing = w.rxRing
  doorbell : u.regs regDataRxDescDbl = w.regs regDataRxDescDbl
  mem : ∀ a, rx.toNat ≤ a → a < rx.toNat + numRxDesc * rxBufferSize → u.mem a = w.mem a
  evqReadPtr : sfc'.evqReadPtr = sfc.evqReadPtr
  rxHead : sfc'.rxHead = sfc.rxHead
  paddr : sfc'.rxBufferPaddr = sfc.rxBufferPaddr

/-- All that transmit depends on is the same. -/
structure SameTx (tx : Word) (w : World) (sfc : SfcIf) (u : World) (sfc' : SfcIf) : Prop where
  txRing : u.txRing = w.txRing
  txFetched : u.txFetched = w.txFetched
  doorbell : u.regs regDataTxWptrDbl = w.regs regDataTxWptrDbl
  mem : ∀ a, tx.toNat ≤ a → a < tx.toNat + numTxDesc * txBufferSize → u.mem a = w.mem a
  txHead : sfc'.txHead = sfc.txHead
  paddr : sfc'.txBufferPaddr = sfc.txBufferPaddr

section
variable {tx rx : Word} {w u : World} {sfc sfc' : SfcIf}

theorem SameRx.inv {s : DirectRx.Sys} {c : ℕ} (h : SameRx rx s.w s.sfc u sfc')
    (hinv : DirectRx.Inv rx s c) : DirectRx.Inv rx { s with w := u, sfc := sfc' } c := by
  refine ⟨h.paddr.trans hinv.paddr, h.evqReadPtr.trans hinv.readPtr, h.rxHead.trans hinv.rxHead,
    hinv.evq.congr h.dataEvq h.evLog h.evqAcked h.rxEvents h.accepted,
    hinv.rx.congr h.doorbell h.rxRing h.accepted ?_, ?_, ?_, ?_, ?_, ?_⟩
  · intro j hj i hi
    apply h.mem <;> simp only [rxSlotAddr, numRxDesc, rxBufferSize] at * <;> omega
  · rw [h.evqAcked]
    exact hinv.polled
  · rw [h.evLog]
    exact hinv.owed
  · rw [h.evLog]
    exact hinv.returned
  · rw [h.accepted]
    exact hinv.received
  · rw [h.accepted]
    exact hinv.receiving

theorem SameTx.slotBytes {j : ℕ} {pkt : List Byte} (h : SameTx tx w sfc u sfc')
    (hj : j < numTxDesc) (hlen : pkt.length ≤ txBufferSize)
    (hslot : DirectTx.SlotBytes tx w j pkt) : DirectTx.SlotBytes tx u j pkt := by
  refine Eq.trans (readBytes_congr fun i hi => h.mem _ ?_ ?_) hslot
  · omega
  · simp only [numTxDesc, txBufferSize] at *
    omega

theorem SameTx.inv {s : DirectTx.Sys} {first : ℕ} (h : SameTx tx s.w s.sfc u sfc')
    (hinv : DirectTx.Inv tx first s) : DirectTx.Inv tx first { s with w := u, sfc := sfc' } := by
  refine ⟨h.paddr.trans hinv.paddr, h.txHead.trans hinv.head, ?_, h.txFetched.trans hinv.readIdx,
    hinv.window, hinv.fits, hinv.order, ?_, ?_, hinv.latched⟩
  · have hwptr : DirectTx.wptr u = DirectTx.wptr s.w := by rw [DirectTx.wptr, h.doorbell]; rfl
    exact hwptr.trans hinv.doorbell
  · intro k hk hsent
    obtain ⟨hring, hbytes⟩ := hinv.intact k hk hsent
    refine ⟨?_, h.slotBytes (Nat.mod_lt _ (by decide)) (hinv.fits _ (List.getElem_mem hk)) hbytes⟩
    rw [h.txRing]
    exact hring
  · have hpost := hinv.posting
    unfold DirectTx.Posting at hpost ⊢
    cases hpc : s.pc with
    | idle => trivial
    | copied pkt =>
      simp only [hpc, h.txHead] at hpost ⊢
      exact ⟨hpost.1, h.slotBytes hinv.head_lt hpost.1 hpost.2⟩
    | described pkt =>
      simp only [hpc, h.txHead, h.txRing] at hpost ⊢
      exact ⟨hpost.1, h.slotBytes hinv.head_lt hpost.1 hpost.2.1, hpost.2.2⟩

/-- A block inside the TX buffer holds no byte of the RX buffer. -/
theorem Layout.tx_block (h : Layout tx rx) {a b : ℕ} {bs : List Byte} (ha : tx.toNat ≤ a)
    (hend : a + bs.length ≤ tx.toNat + numTxDesc * txBufferSize) (hb : rx.toNat ≤ b)
    (hlt : b < rx.toNat + numRxDesc * rxBufferSize) (mem : ℕ → Byte) :
    writeBytes mem a bs b = mem b := by
  apply writeBytes_outside
  rcases h.apart with hlo | hhi
  · right
    omega
  · left
    omega

/-- A block inside the RX buffer holds no byte of the TX buffer. -/
theorem Layout.rx_block (h : Layout tx rx) {a b : ℕ} {bs : List Byte} (ha : rx.toNat ≤ a)
    (hend : a + bs.length ≤ rx.toNat + numRxDesc * rxBufferSize) (hb : tx.toNat ≤ b)
    (hlt : b < tx.toNat + numTxDesc * txBufferSize) (mem : ℕ → Byte) :
    writeBytes mem a bs b = mem b := by
  apply writeBytes_outside
  rcases h.apart with hlo | hhi
  · left
    omega
  · right
    omega

end

section
variable {tx rx : Word}

/-- A step of the transmit side is none of receive's business. -/
theorem sameRx_of_tx (hlay : Layout tx rx) {first : ℕ} {s t : DirectTx.Sys} {a : DirectTx.Act}
    (h : DirectTx.Inv tx first s) (hown : txOwn a = true) (hstep : DirectTx.step s a = some t) :
    SameRx rx s.w s.sfc t.w t.sfc := by
  cases a with
  | callPost buf len =>
    simp only [DirectTx.step] at hstep
    split at hstep
    next hpc =>
      split_ifs at hstep with hbuf hready
      · obtain rfl := Option.some.inj hstep
        refine ⟨rfl, rfl, rfl, rfl, rfl, rfl, rfl, fun b hb hlt => ?_, rfl, rfl, rfl⟩
        have hlt512 := h.head_lt
        simp only [txPostReady, Bool.and_eq_true, decide_eq_true_eq] at hready
        have hlen := (List.length_take_le len buf).trans hready.2
        simp only [txPostCopy, h.paddr]
        apply hlay.tx_block _ _ hb hlt
        · omega
        · simp only [numTxDesc, txBufferSize] at *
          omega
      · obtain rfl := Option.some.inj hstep
        exact ⟨rfl, rfl, rfl, rfl, rfl, rfl, rfl, fun _ _ _ => rfl, rfl, rfl, rfl⟩
    next => cases hstep
  | postDesc =>
    simp only [DirectTx.step] at hstep
    split at hstep
    next pkt hpc =>
      obtain rfl := Option.some.inj hstep
      exact ⟨rfl, rfl, rfl, rfl, rfl, rfl, rfl, fun _ _ _ => rfl, rfl, rfl, rfl⟩
    next => cases hstep
  | postRing =>
    simp only [DirectTx.step] at hstep
    split at hstep
    next pkt hpc =>
      obtain rfl := Option.some.inj hstep
      refine ⟨rfl, rfl, ?_, rfl, rfl, rfl, ?_, fun _ _ _ => rfl, rfl, rfl, rfl⟩
      · exact World.writeReg_evqAcked_of_ne _ (by decide) _
      · exact World.writeReg_regs_of_ne _ (by decide) _
    next => cases hstep
  | nicFetch =>
    simp only [DirectTx.step] at hstep
    split at hstep
    · split_ifs at hstep
      obtain rfl := Option.some.inj hstep
      exact ⟨rfl, rfl, rfl, rfl, rfl, rfl, rfl, fun _ _ _ => rfl, rfl, rfl, rfl⟩
    · cases hstep
  | nicSend =>
    simp only [DirectTx.step] at hstep
    split at hstep
    · cases hstep
    · obtain rfl := Option.some.inj hstep
      exact ⟨rfl, rfl, rfl, rfl, rfl, rfl, rfl, fun _ _ _ => rfl, rfl, rfl, rfl⟩
  | nicDma addr bytes => cases hown
  | nicEvent i ev => cases hown

/-- A frame the NIC takes lands in its slot of the RX buffer. -/
theorem fill_sameTx (hlay : Layout tx rx) {w u : World} {n : ℕ} {sfc : SfcIf} {pre : List Byte}
    {frame : Frame} (h : RxRing rx w n) (hfill : w.nicRxFill pre frame = some u) :
    SameTx tx w sfc u sfc := by
  have hj : w.accepted.length % numRxDesc < numRxDesc := Nat.mod_lt _ (by decide)
  obtain ⟨haddr, hcap⟩ := rxSlotAddr_desc hlay.rx_le hj
  simp only [World.nicRxFill, h.desc _ hj, haddr, hcap] at hfill
  split_ifs at hfill with hguard
  obtain ⟨-, hok, hfit⟩ := hguard
  obtain rfl := Option.some.inj hfill
  refine ⟨rfl, rfl, rfl, fun b hb hlt => ?_, rfl, rfl⟩
  have hlen : (pre ++ frame).length ≤ rxBufferSize := by
    simp only [prefixOk, Bool.and_eq_true, beq_iff_eq] at hok
    simpa [hok.1] using hfit
  apply hlay.rx_block _ _ hb hlt
  · simp only [rxSlotAddr]
    omega
  · simp only [rxSlotAddr, numRxDesc, rxBufferSize] at *
    omega

theorem postEvent_sameTx {w u : World} {sfc : SfcIf} {ev : Word} (h : w.postEvent ev = some u) :
    SameTx tx w sfc u sfc := by
  obtain ⟨-, rfl⟩ := World.postEvent_eq h
  exact ⟨rfl, rfl, rfl, fun _ _ _ => rfl, rfl, rfl⟩

/-- A step of the receive side is none of transmit's business. -/
theorem sameTx_of_rx (hlay : Layout tx rx) {c : ℕ} {s t : DirectRx.Sys} {a : DirectRx.Act}
    (h : DirectRx.Inv rx s c) (hstep : DirectRx.step s a = some t) :
    SameTx tx s.w s.sfc t.w t.sfc := by
  have hkeep : ∀ sfc', sfc'.txHead = s.sfc.txHead → sfc'.txBufferPaddr = s.sfc.txBufferPaddr →
      SameTx tx s.w s.sfc s.w sfc' := fun sfc' hhead hpaddr =>
    ⟨rfl, rfl, rfl, fun _ _ _ => rfl, hhead, hpaddr⟩
  cases a with
  | callPoll maxEvs =>
    simp only [DirectRx.step] at hstep
    split at hstep
    next =>
      split_ifs at hstep
      obtain rfl := Option.some.inj hstep
      exact hkeep _ rfl rfl
    next => cases hstep
  | pollStep =>
    simp only [DirectRx.step] at hstep
    split at hstep
    next =>
      obtain rfl := Option.some.inj hstep
      exact hkeep _ rfl rfl
    next =>
      split at hstep
      next =>
        obtain rfl := Option.some.inj hstep
        exact hkeep _ rfl rfl
      next ev sfc u hiter =>
        obtain rfl := Option.some.inj hstep
        simp only [pollIter] at hiter
        split_ifs at hiter
        obtain ⟨-, rfl, rfl⟩ : _ ∧ _ ∧ _ := by simpa using hiter
        exact ⟨rfl, rfl, rfl, fun _ _ _ => rfl, rfl, rfl⟩
    next => cases hstep
  | pollReturn =>
    simp only [DirectRx.step] at hstep
    split at hstep
    next evs hpc =>
      obtain rfl := Option.some.inj hstep
      simp only [pollAck]
      split_ifs
      · refine ⟨rfl, rfl, ?_, fun _ _ _ => rfl, rfl, rfl⟩
        exact World.writeReg_regs_of_ne _ (by decide) _
      · exact hkeep _ rfl rfl
    next => cases hstep
  | callRecv =>
    simp only [DirectRx.step] at hstep
    split at hstep
    next =>
      split_ifs at hstep
      obtain rfl := Option.some.inj hstep
      exact hkeep _ rfl rfl
    next => cases hstep
  | recvPost =>
    simp only [DirectRx.step] at hstep
    split at hstep
    next =>
      obtain rfl := Option.some.inj hstep
      exact ⟨rfl, rfl, rfl, fun _ _ _ => rfl, rfl, rfl⟩
    next => cases hstep
  | recvReturn =>
    simp only [DirectRx.step] at hstep
    split at hstep
    next =>
      obtain rfl := Option.some.inj hstep
      refine ⟨rfl, rfl, ?_, fun _ _ _ => rfl, rfl, rfl⟩
      exact World.writeReg_regs_of_ne _ (by decide) _
    next => cases hstep
  | nicFill pre frame =>
    obtain ⟨u, hu, rfl⟩ := Option.map_eq_some_iff.mp hstep
    exact fill_sameTx hlay h.rx hu
  | nicRxEvent ev =>
    obtain ⟨u, hu, rfl⟩ := Option.map_eq_some_iff.mp hstep
    obtain ⟨_, v, -, -, -, hpost, rfl⟩ := World.nicRxEvent_eq hu
    obtain ⟨-, rfl⟩ := World.postEvent_eq hpost
    exact ⟨rfl, rfl, rfl, fun _ _ _ => rfl, rfl, rfl⟩
  | nicOtherEvent ev =>
    obtain ⟨u, hu, rfl⟩ := Option.map_eq_some_iff.mp hstep
    unfold World.nicOtherEvent at hu
    split_ifs at hu
    exact postEvent_sameTx hu

end

/-- The transmit side never has more than 511 packets on their way. -/
def Windowed (s : Sys) (a : Act) : Prop :=
  (step s a).all (fun t => t.posted.length - t.sent.length ≤ 511) = true

instance Windowed.decidable (s : Sys) (a : Act) : Decidable (Windowed s a) :=
  inferInstanceAs (Decidable (_ = true))

/-- What each side keeps, at the same time. -/
structure Inv (tx rx : Word) (s : Sys) : Prop where
  receive : ∃ c, DirectRx.Inv rx s.rxSide c
  transmit : DirectTx.Inv tx 0 s.txSide

section
variable {tx rx : Word}

theorem inv_start (tx rx : Word) (mem : ℕ → Byte) : Inv tx rx (start tx rx mem) where
  receive := ⟨0, DirectRx.inv_start tx rx mem⟩
  transmit := by
    have haligned : DirectTx.Aligned (SfcIf.fresh tx rx) (postRxBuffers rx (World.fresh mem)) := by
      constructor
      · have hreg : (postRxBuffers rx (World.fresh mem)).regs regDataTxWptrDbl = none :=
          World.writeReg_regs_of_ne _ (by decide) _
        rw [DirectTx.wptr, hreg]
        rfl
      · rfl
    exact DirectTx.inv_start haligned

/-- A step of either side keeps both. -/
theorem inv_step (hlay : Layout tx rx) (s : Sys) (a : Act) (t : Sys) (h : Inv tx rx s)
    (hwin : Windowed s a) (hstep : step s a = some t) : Inv tx rx t := by
  obtain ⟨⟨c, hrx⟩, htx⟩ := h
  cases a with
  | rx a =>
    obtain ⟨r, hr, rfl⟩ := Option.map_eq_some_iff.mp hstep
    refine ⟨hrx.step hlay.rx_le hr, ?_⟩
    rw [Sys.txSide_setRx]
    exact (sameTx_of_rx hlay hrx hr).inv htx
  | tx a =>
    simp only [step] at hstep
    split_ifs at hstep with hown
    obtain ⟨r, hr, rfl⟩ := Option.map_eq_some_iff.mp hstep
    have hside : DirectTx.Windowed s.txSide a := by
      simpa [Windowed, DirectTx.Windowed, DirectTx.Sys.pending, step, hown, hr, Sys.setTx]
        using hwin
    refine ⟨⟨c, ?_⟩, DirectTx.inv_step hlay.tx_le _ _ _ htx hside hr⟩
    rw [Sys.rxSide_setTx]
    exact (sameRx_of_tx hlay htx hown hr).inv hrx

theorem inv_run (hlay : Layout tx rx) {mem : ℕ → Byte} {acts : List Act} {s : Sys}
    (hwin : Along step Windowed (start tx rx mem) acts)
    (hrun : run step (start tx rx mem) acts = some s) : Inv tx rx s :=
  run_invariant_along (inv_step hlay) (inv_start tx rx mem) hwin hrun

end

end Sfc7120.Duplex

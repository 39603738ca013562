import Sfc7120.DataPath.Kernel

/-! The direct path against the kernel handlers it is a port of. An application that posts and
then polls one event at a time walks the data EVQ as the handlers do; where the event each
handler waits for is already there, both end in the same world. -/
namespace Sfc7120.Refinement

/-- One data-path operation of an application. -/
inductive Op where
  | tx (req : TxReq)
  | rx
  deriving DecidableEq

/-- The operation through its ioctl: `none` when the ioctl fails, else the frame received. -/
def kernelOp (sc : Softc) (w : World) : Op → Option (Softc × World × List Frame)
  | .tx req =>
      match ioctlTx sc w req none with
      | (sc, w, none) => some (sc, w, [])
      | (_, _, some _) => none
  | .rx =>
      match ioctlRx sc w none with
      | (sc, w, .ok frame) => some (sc, w, [frame])
      | (_, _, .error _) => none

def kernelRun : Softc → World → List Op → Option (Softc × World × List Frame)
  | sc, w, [] => some (sc, w, [])
  | sc, w, op :: ops =>
      (kernelOp sc w op).bind fun r =>
        (kernelRun r.1 r.2.1 ops).map fun q => (q.1, q.2.1, r.2.2 ++ q.2.2)

/-- `sfc7120_poll` with room for one event, called again until it returns one that meets `p`, in
at most `polls` calls. -/
def pollUntil (p : Ev → Bool) : ℕ → SfcIf → World → Option (Ev × SfcIf × World)
  | 0, _, _ => none
  | polls + 1, sfc, w =>
      match poll sfc w 1 with
      | none => none
      | some ([], sfc, w) => pollUntil p polls sfc w
      | some (ev :: _, sfc, w) => if p ev then some (ev, sfc, w) else pollUntil p polls sfc w

/-- The completion of the descriptor in slot `idx`, as the application recognises it. -/
def txDone (idx : ℕ) (ev : Ev) : Bool :=
  ev.type == .tx && ev.txDescIdx.toNat &&& (numTxDesc - 1) == idx

/-- The operation through the mapped rings, with at most `polls` calls of `sfc7120_poll`. -/
def directOp (polls : ℕ) (sfc : SfcIf) (w : World) : Op → Option (SfcIf × World × List Frame)
  | .tx req =>
      (sfc.txPost w req.bytes req.length).bind fun r =>
        (pollUntil (txDone sfc.txHead) polls r.1 r.2).map fun q => (q.2.1, q.2.2, [])
  | .rx =>
      (pollUntil (fun ev => ev.type == .rx) polls sfc w).bind fun r =>
        (rxRecv r.2.1 r.2.2 r.1.rxBytes).map fun q => (q.2.1, q.2.2, [q.1])

def directRun (polls : ℕ) : SfcIf → World → List Op → Option (SfcIf × World × List Frame)
  | sfc, w, [] => some (sfc, w, [])
  | sfc, w, op :: ops =>
      (directOp polls sfc w op).bind fun r =>
        (directRun polls r.1 r.2.1 ops).map fun q => (q.1, q.2.1, r.2.2 ++ q.2.2)

/-- Everything is mapped and the application's cursors and bus addresses are the kernel's. -/
structure Mirrors (sfc : SfcIf) (sc : Softc) : Prop where
  txBuffer : sfc.txBuffer = true
  rxBuffer : sfc.rxBuffer = true
  txDescRing : sfc.txDescRing = true
  rxDescRing : sfc.rxDescRing = true
  evqRing : sfc.evqRing = true
  slices : ∀ i, sfc.hasSlice i = true
  txBufferPaddr : sfc.txBufferPaddr = sc.txBufferPaddr
  rxBufferPaddr : sfc.rxBufferPaddr = sc.rxBufferPaddr
  evqReadPtr : sfc.evqReadPtr = sc.dataEvqReadPtr
  txHead : sfc.txHead = sc.txHead
  rxHead : sfc.rxHead = sc.rxHead

/-- The first event meeting `p` among those in the queue from position `r` on, found within
`k` reads, with the queue and the position behind it once everything up to it is consumed. -/
def awaited (p : Word → Bool) : ℕ → (ℕ → Word) → ℕ → Option (Word × (ℕ → Word) × ℕ)
  | 0, _, _ => none
  | k + 1, evq, r =>
      if evEmpty (evq r) then none
      else
        let evq' := Function.update evq r 0
        let r' := (r + 1) &&& (numEvqEntry - 1)
        if p (evq r) then some (evq r, evq', r') else awaited p k evq' r'

/-- The event the operation's ioctl waits for is in the data EVQ, within the retry budget. A
transmit request is valid; a received packet fits its slot. -/
def OpReady (sc : Softc) (w : World) : Op → Prop
  | .tx req => txValidate req = none ∧
      (awaited (fun ev => isTxCompletion ev sc.txHead) txTries w.dataEvq sc.dataEvqReadPtr).isSome
  | .rx => ∃ r, awaited (fun ev => evCode ev == 0#32) rxTries w.dataEvq sc.dataEvqReadPtr = some r ∧
      ef10RxPrefixLen + slotPlen w.mem (sc.rxBufferPaddr.toNat + sc.rxHead * rxBufferSize)
        (evRxBytes r.1) ≤ rxBufferSize

/-- Each operation is ready when its turn comes. -/
def Ready : Softc → World → List Op → Prop
  | _, _, [] => True
  | sc, w, op :: ops => OpReady sc w op ∧ ∀ r, kernelOp sc w op = some r → Ready r.1 r.2.1 ops

instance OpReady.decidable (sc : Softc) (w : World) : ∀ op, Decidable (OpReady sc w op)
  | .tx _ => inferInstanceAs (Decidable (_ ∧ _))
  | .rx =>
      match h : awaited (fun ev => evCode ev == 0#32) rxTries w.dataEvq sc.dataEvqReadPtr with
      | none => .isFalse fun ⟨r, hr, _⟩ => by simp [h] at hr
      | some r => decidable_of_iff (ef10RxPrefixLen +
          slotPlen w.mem (sc.rxBufferPaddr.toNat + sc.rxHead * rxBufferSize) (evRxBytes r.1) ≤
            rxBufferSize) (by simp [OpReady, h])

instance Ready.decidable : ∀ sc w ops, Decidable (Ready sc w ops)
  | _, _, [] => inferInstanceAs (Decidable True)
  | sc, w, op :: ops =>
      match h : kernelOp sc w op with
      | none => decidable_of_iff (OpReady sc w op) (by simp [Ready, h])
      | some r =>
          have := Ready.decidable r.1 r.2.1 ops
          decidable_of_iff (OpReady sc w op ∧ Ready r.1 r.2.1 ops) (by simp [Ready, h])

theorem writeReg_overwrite (w : World) (evq evq' : ℕ → Word) (off : ℕ) (u v : BitVec 32) :
    { ({ w with dataEvq := evq }.writeReg off u) with dataEvq := evq' }.writeReg off v =
      { w with dataEvq := evq' }.writeReg off v := by
  simp only [World.writeReg, Function.update_idem]
  split_ifs <;> rfl

/-- The queue once the awaited event and all before it are consumed and acknowledged. -/
def consumedTo (w : World) (evq : ℕ → Word) (r : ℕ) : World :=
  { w with dataEvq := evq }.writeReg regDataEvqRptrDbl (BitVec.ofNat 32 (r &&& evqRptrMask))

theorem awaited_succ {p : Word → Bool} {k : ℕ} {evq : ℕ → Word} {r : ℕ}
    {x : Word × (ℕ → Word) × ℕ} (h : awaited p (k + 1) evq r = some x) :
    evEmpty (evq r) = false ∧
      (p (evq r) = true ∧
          x = (evq r, Function.update evq r 0, (r + 1) &&& (numEvqEntry - 1)) ∨
        p (evq r) = false ∧
          awaited p k (Function.update evq r 0) ((r + 1) &&& (numEvqEntry - 1)) = some x) := by
  simp only [awaited] at h
  split_ifs at h with hempty hmatch
  · exact ⟨by simpa using hempty, .inl ⟨hmatch, (Option.some.inj h).symm⟩⟩
  · exact ⟨by simpa using hempty, .inr ⟨by simpa using hmatch, h⟩⟩

theorem awaited_meets {p : Word → Bool} {k : ℕ} {evq : ℕ → Word} {r : ℕ}
    {x : Word × (ℕ → Word) × ℕ} (h : awaited p k evq r = some x) : p x.1 = true := by
  induction k generalizing evq r with
  | zero => simp [awaited] at h
  | succ k ih =>
    obtain ⟨-, ⟨hmatch, rfl⟩ | ⟨-, hrest⟩⟩ := awaited_succ h
    · exact hmatch
    · exact ih hrest

theorem txPollLoop_stop {t : TxWait} (h : t.again = false) (n : ℕ) (sc : Softc) (w : World) :
    txPollLoop n sc w t = (sc, w, t) := by
  cases n <;> simp [txPollLoop, h]

theorem rxPollLoop_stop {q : RxWait} (h : q.again = false) (n : ℕ) (sc : Softc) (w : World) :
    rxPollLoop n sc w q = (sc, w, q) := by
  cases n <;> simp [rxPollLoop, h]

/-- The transmit poll stops right behind the completion it waits for. -/
theorem txPollLoop_awaited {k n : ℕ} {sc : Softc} {w : World} {t : TxWait} {ev : Word}
    {evq : ℕ → Word} {r : ℕ}
    (hev : awaited (fun ev => isTxCompletion ev t.postedIdx) k w.dataEvq sc.dataEvqReadPtr =
      some (ev, evq, r))
    (hkn : k ≤ n) (htries : t.tries + k ≤ txTries) (hdone : t.done = false) :
    ∃ t', txPollLoop n sc w t =
        ({ sc with dataEvqReadPtr := r }, { w with dataEvq := evq }, t') ∧
      t'.done = true ∧ 0 < t'.consumed := by
  induction k generalizing n sc w t with
  | zero => simp [awaited] at hev
  | succ k ih =>
    obtain ⟨m, rfl⟩ : ∃ m, n = m + 1 := ⟨n - 1, by omega⟩
    have hagain : t.again = true := TxWait.again_eq_true (by omega) hdone
    obtain ⟨hempty, ⟨hmatch, heq⟩ | ⟨hmatch, hrest⟩⟩ := awaited_succ hev
    · obtain ⟨rfl, rfl, rfl⟩ : _ ∧ _ ∧ _ := by simpa using heq
      refine ⟨{ t with tries := t.tries + 1, done := true, consumed := t.consumed + 1 }, ?_, rfl,
        Nat.succ_pos _⟩
      simp only [txPollLoop, hagain, if_true, txPollIter, hempty, hmatch, Bool.or_true]
      apply txPollLoop_stop
      simp [TxWait.again]
    · obtain ⟨t', ht', hd, hc⟩ := @ih m (consumeEv sc w).1 (consumeEv sc w).2
        { t with tries := t.tries + 1, consumed := t.consumed + 1 } hrest (by omega)
        (show t.tries + 1 + k ≤ txTries by omega) hdone
      refine ⟨t', ?_, hd, hc⟩
      simp only [txPollLoop, hagain, if_true, txPollIter, hempty, hmatch, Bool.or_false]
      exact ht'

theorem rxPollLoop_awaited {k n : ℕ} {sc : Softc} {w : World} {q : RxWait} {ev : Word}
    {evq : ℕ → Word} {r : ℕ}
    (hev : awaited (fun ev => evCode ev == 0#32) k w.dataEvq sc.dataEvqReadPtr = some (ev, evq, r))
    (hkn : k ≤ n) (htries : q.tries + k ≤ rxTries) (hfound : q.found = none) :
    ∃ q', rxPollLoop n sc w q =
        ({ sc with dataEvqReadPtr := r }, { w with dataEvq := evq }, q') ∧
      q'.found = some (evRxBytes ev) ∧ 0 < q'.consumed := by
  induction k generalizing n sc w q with
  | zero => simp [awaited] at hev
  | succ k ih =>
    obtain ⟨m, rfl⟩ : ∃ m, n = m + 1 := ⟨n - 1, by omega⟩
    have hagain : q.again = true := RxWait.again_eq_true (by omega) hfound
    obtain ⟨hempty, ⟨hmatch, heq⟩ | ⟨hmatch, hrest⟩⟩ := awaited_succ hev
    · obtain ⟨rfl, rfl, rfl⟩ : _ ∧ _ ∧ _ := by simpa using heq
      have hcode : evCode (w.dataEvq sc.dataEvqReadPtr) = 0#32 := by simpa using hmatch
      refine ⟨⟨q.tries + 1, some (evRxBytes (w.dataEvq sc.dataEvqReadPtr)), q.consumed + 1⟩, ?_,
        rfl, Nat.succ_pos _⟩
      simp only [rxPollLoop, hagain, if_true, rxPollIter, hempty, hcode]
      apply rxPollLoop_stop
      simp [RxWait.again]
    · have hcode : ¬ evCode (w.dataEvq sc.dataEvqReadPtr) = 0#32 := by simpa using hmatch
      obtain ⟨q', hq', hf, hc⟩ := @ih m (consumeEv sc w).1 (consumeEv sc w).2
        ⟨q.tries + 1, q.found, q.consumed + 1⟩ hrest (by omega)
        (show q.tries + 1 + k ≤ rxTries by omega) hfound
      refine ⟨q', ?_, hf, hc⟩
      simp only [rxPollLoop, hagain, if_true, rxPollIter, hempty, hcode, if_false]
      exact hq'

/-- One call of `sfc7120_poll` takes and acknowledges the event at the read pointer. -/
theorem poll_one {sfc : SfcIf} {w : World} (hevq : sfc.evqRing = true)
    (hslice : sfc.hasSlice .dataEvqRptrDbl = true)
    (hev : evEmpty (w.dataEvq sfc.evqReadPtr) = false) :
    poll sfc w 1 = some ([decodeEv (w.dataEvq sfc.evqReadPtr)],
      { sfc with
        usedPoll := true, evqReadPtr := (sfc.evqReadPtr + 1) &&& (numEvqEntry - 1) },
      consumedTo w (Function.update w.dataEvq sfc.evqReadPtr 0)
        ((sfc.evqReadPtr + 1) &&& (numEvqEntry - 1))) := by
  simp [poll, pollReady, hevq, hslice, pollLoop, pollIter, hev, pollAck, consumedTo]

/-- Polling one event at a time leaves the queue as the handlers' loop does, every intermediate
acknowledgement being overwritten by the last. -/
theorem pollUntil_awaited {p : Word → Bool} {p' : Ev → Bool} (hp : ∀ ev, p' (decodeEv ev) = p ev)
    {k polls : ℕ} {sfc : SfcIf} {w : World} {ev : Word} {evq : ℕ → Word} {r : ℕ}
    (hevq : sfc.evqRing = true) (hslice : sfc.hasSlice .dataEvqRptrDbl = true)
    (hev : awaited p k w.dataEvq sfc.evqReadPtr = some (ev, evq, r)) (hk : k ≤ polls) :
    pollUntil p' polls sfc w =
      some (decodeEv ev, { sfc with usedPoll := true, evqReadPtr := r }, consumedTo w evq r) := by
  induction k generalizing polls sfc w with
  | zero => simp [awaited] at hev
  | succ k ih =>
    obtain ⟨m, rfl⟩ : ∃ m, polls = m + 1 := ⟨polls - 1, by omega⟩
    obtain ⟨hempty, ⟨hmatch, heq⟩ | ⟨hmatch, hrest⟩⟩ := awaited_succ hev
    · obtain ⟨rfl, rfl, rfl⟩ : _ ∧ _ ∧ _ := by simpa using heq
      simp only [pollUntil, poll_one hevq hslice hempty, hp, hmatch, if_true]
      rfl
    · have hnext := @ih m
        { sfc with usedPoll := true, evqReadPtr := (sfc.evqReadPtr + 1) &&& (numEvqEntry - 1) }
        (consumedTo w (Function.update w.dataEvq sfc.evqReadPtr 0)
          ((sfc.evqReadPtr + 1) &&& (numEvqEntry - 1))) hevq hslice hrest (by omega)
      simp only [pollUntil, poll_one hevq hslice hempty, hp, hmatch, Bool.false_eq_true, if_false]
      simpa only [consumedTo, writeReg_overwrite] using hnext

theorem txDone_decodeEv (idx : ℕ) (ev : Word) :
    txDone idx (decodeEv ev) = isTxCompletion ev idx := by
  unfold decodeEv
  split_ifs with hrx htx
  · simp [txDone, isTxCompletion, hrx]
  · simp [txDone, isTxCompletion, htx]
  · have hcode : (evCode ev == 2#32) = false := by simpa using htx
    rw [isTxCompletion, hcode]
    rfl

theorem isRx_decodeEv (ev : Word) : ((decodeEv ev).type == .rx) = (evCode ev == 0#32) := by
  unfold decodeEv
  split_ifs with hrx htx
  · simp [hrx]
  · simp [htx]
  · simp [hrx]

/-- `sfc7120_tx_post` writes what steps 2 to 4 of the TX handler write. -/
theorem txPost_mirrors {sfc : SfcIf} {sc : Softc} (hsame : Mirrors sfc sc) {req : TxReq}
    (hvalid : txValidate req = none) (w : World) :
    sfc.txPost w req.bytes req.length =
      some ({ sfc with usedPoll := true, txHead := (sc.txHead + 1) &&& (numTxDesc - 1) },
        txPost sc w req) := by
  obtain ⟨hpos, hle⟩ := txValidate_length hvalid
  have hready : txPostReady sfc req.length = true := by
    simp [txPostReady, hsame.txBuffer, hsame.txDescRing, hsame.slices, hpos, hle]
  simp only [SfcIf.txPost, hready, if_true, txPostRing, txPostDesc, txPostCopy, hsame.txHead,
    hsame.txBufferPaddr]
  rfl

/-- `sfc7120_rx_recv` delivers and re-posts what steps 4 to 6 of the RX handler do. -/
theorem rxRecv_mirrors {sfc : SfcIf} {sc : Softc} (hsame : Mirrors sfc sc) (w : World)
    (rxBytes : BitVec 16) :
    rxRecv sfc w rxBytes = some (rxCopyFrame sc w rxBytes,
      { sfc with usedPoll := true, rxHead := (sc.rxHead + 1) &&& (numRxDesc - 1) },
      (rxRepost sc w).2) := by
  have hready : rxRecvReady sfc = true := by
    simp [rxRecvReady, hsame.rxBuffer, hsame.rxDescRing, hsame.slices]
  simp only [rxRecv, hready, if_true, rxRecvRing, rxRecvPost, rxRecvCopy, hsame.rxHead,
    hsame.rxBufferPaddr]
  rfl

theorem ackEvq_eq {sc : Softc} {n : ℕ} (hn : 0 < n) (w : World) (evq : ℕ → Word) (r : ℕ) :
    ackEvq { sc with dataEvqReadPtr := r } { w with dataEvq := evq } n = consumedTo w evq r := by
  rw [ackEvq, if_pos hn, consumedTo]

/-- A transmit leaves the same world on both paths. -/
theorem tx_refines {polls : ℕ} {sfc : SfcIf} {sc : Softc} {w : World} {req : TxReq}
    (hsame : Mirrors sfc sc) (hready : OpReady sc w (.tx req)) (hpolls : txTries ≤ polls) :
    ∃ sc' sfc' w', kernelOp sc w (.tx req) = some (sc', w', []) ∧
      directOp polls sfc w (.tx req) = some (sfc', w', []) ∧ Mirrors sfc' sc' := by
  obtain ⟨hvalid, hev⟩ := hready
  obtain ⟨⟨ev, evq, r⟩, hev⟩ := Option.isSome_iff_exists.mp hev
  refine ⟨{ sc with dataEvqReadPtr := r, txHead := (sc.txHead + 1) &&& (numTxDesc - 1) },
    { sfc with
      usedPoll := true, evqReadPtr := r, txHead := (sc.txHead + 1) &&& (numTxDesc - 1) },
    consumedTo (txPost sc w req) evq r, ?_, ?_, ?_⟩
  · obtain ⟨t', hloop, hdone, hcons⟩ := @txPollLoop_awaited txTries txTries sc (txPost sc w req)
      ⟨sc.txHead, 0, false, 0⟩ ev evq r hev le_rfl (by simp) rfl
    have hcall : ioctlTx sc w req none =
        ((txFinish { sc with dataEvqReadPtr := r } t').1,
          consumedTo (txPost sc w req) evq r, none) := by
      unfold ioctlTx
      simp only [hvalid, hloop, txFinish, hdone, if_true, ackEvq_eq hcons]
    simp only [kernelOp, hcall]
    rfl
  · have hev' : awaited (fun ev => isTxCompletion ev sc.txHead) txTries w.dataEvq sfc.evqReadPtr =
        some (ev, evq, r) := by
      rw [hsame.evqReadPtr]
      exact hev
    have hpoll := @pollUntil_awaited _ (txDone sc.txHead) (txDone_decodeEv sc.txHead) txTries polls
      { sfc with usedPoll := true, txHead := (sc.txHead + 1) &&& (numTxDesc - 1) }
      (txPost sc w req) ev evq r hsame.evqRing (hsame.slices _) hev' hpolls
    simp only [directOp, txPost_mirrors hsame hvalid, Option.bind_some, hsame.txHead, hpoll,
      Option.map_some]
  · exact ⟨hsame.txBuffer, hsame.rxBuffer, hsame.txDescRing, hsame.rxDescRing, hsame.evqRing,
      hsame.slices, hsame.txBufferPaddr, hsame.rxBufferPaddr, rfl, rfl, hsame.rxHead⟩

/-- A receive leaves the same world and delivers the same frame on both paths. -/
theorem rx_refines {polls : ℕ} {sfc : SfcIf} {sc : Softc} {w : World} (hsame : Mirrors sfc sc)
    (hready : OpReady sc w .rx) (hpolls : rxTries ≤ polls) :
    ∃ sc' sfc' w' frame, kernelOp sc w .rx = some (sc', w', [frame]) ∧
      directOp polls sfc w .rx = some (sfc', w', [frame]) ∧ Mirrors sfc' sc' := by
  obtain ⟨⟨ev, evq, r⟩, hev, -⟩ := hready
  have hcode : evCode ev = 0#32 := by simpa using awaited_meets hev
  refine ⟨{ sc with dataEvqReadPtr := r, rxHead := (sc.rxHead + 1) &&& (numRxDesc - 1) },
    { sfc with
      usedPoll := true, evqReadPtr := r, rxHead := (sc.rxHead + 1) &&& (numRxDesc - 1) },
    (rxRepost sc (consumedTo w evq r)).2, rxCopyFrame sc (consumedTo w evq r) (evRxBytes ev),
    ?_, ?_, ?_⟩
  · obtain ⟨q', hloop, hfound, hcons⟩ := @rxPollLoop_awaited rxTries rxTries sc w ⟨0, none, 0⟩
      ev evq r hev le_rfl (by simp) rfl
    have hcall : ioctlRx sc w none =
        ((rxRepost { sc with dataEvqReadPtr := r } (consumedTo w evq r)).1,
          (rxRepost sc (consumedTo w evq r)).2,
          .ok (rxCopyFrame sc (consumedTo w evq r) (evRxBytes ev))) := by
      unfold ioctlRx
      simp only [hloop, hfound, ackEvq_eq hcons]
      rfl
    simp only [kernelOp, hcall]
    rfl
  · have hpoll : pollUntil (fun ev => ev.type == .rx) polls sfc w =
        some (decodeEv ev, { sfc with usedPoll := true, evqReadPtr := r }, consumedTo w evq r) :=
      pollUntil_awaited isRx_decodeEv hsame.evqRing (hsame.slices _) (hsame.evqReadPtr ▸ hev) hpolls
    have hmid : Mirrors { sfc with usedPoll := true, evqReadPtr := r }
        { sc with dataEvqReadPtr := r } :=
      ⟨hsame.txBuffer, hsame.rxBuffer, hsame.txDescRing, hsame.rxDescRing, hsame.evqRing,
        hsame.slices, hsame.txBufferPaddr, hsame.rxBufferPaddr, rfl, hsame.txHead, hsame.rxHead⟩
    have hbytes : (decodeEv ev).rxBytes = evRxBytes ev := by simp [decodeEv, hcode]
    simp only [directOp, hpoll, Option.bind_some, hbytes, rxRecv_mirrors hmid, Option.map_some]
    rfl
  · exact ⟨hsame.txBuffer, hsame.rxBuffer, hsame.txDescRing, hsame.rxDescRing, hsame.evqRing,
      hsame.slices, hsame.txBufferPaddr, hsame.rxBufferPaddr, rfl, hsame.txHead, rfl⟩

theorem op_refines {polls : ℕ} {sfc : SfcIf} {sc : Softc} {w : World} {op : Op}
    (hsame : Mirrors sfc sc) (hready : OpReady sc w op) (hpolls : rxTries ≤ polls) :
    ∃ sc' sfc' w' frames, kernelOp sc w op = some (sc', w', frames) ∧
      directOp polls sfc w op = some (sfc', w', frames) ∧ Mirrors sfc' sc' := by
  cases op with
  | tx req =>
    obtain ⟨sc', sfc', w', h⟩ := tx_refines hsame hready
      (le_trans (show txTries ≤ rxTries by decide) hpolls)
    exact ⟨sc', sfc', w', [], h⟩
  | rx =>
    obtain ⟨sc', sfc', w', frame, h⟩ := rx_refines hsame hready hpolls
    exact ⟨sc', sfc', w', [frame], h⟩

/-- From any common state, over any operations whose events are there when their ioctls look:
both paths succeed, in the same world (rings, queue, packet buffers, doorbells), with the same
frames delivered and the cursors still in agreement. -/
theorem direct_refines_kernel {polls : ℕ} {sfc : SfcIf} {sc : Softc} {w : World} {ops : List Op}
    (hsame : Mirrors sfc sc) (hready : Ready sc w ops) (hpolls : rxTries ≤ polls) :
    ∃ sc' sfc' w' frames, kernelRun sc w ops = some (sc', w', frames) ∧
      directRun polls sfc w ops = some (sfc', w', frames) ∧ Mirrors sfc' sc' := by
  induction ops generalizing sfc sc w with
  | nil => exact ⟨sc, sfc, w, [], rfl, rfl, hsame⟩
  | cons op ops ih =>
    obtain ⟨hop, hrest⟩ := hready
    obtain ⟨sc₁, sfc₁, w₁, fs, hk, hd, hmid⟩ := op_refines hsame hop hpolls
    obtain ⟨sc', sfc', w', fs', hk', hd', hend⟩ := ih hmid (hrest _ hk)
    refine ⟨sc', sfc', w', fs ++ fs', ?_, ?_, hend⟩
    · simp only [kernelRun, hk, Option.bind_some, hk', Option.map_some]
    · simp only [directRun, hd, Option.bind_some, hd', Option.map_some]

/-- A queue with a foreign event, a completion of slot 511 and an RX event waiting. -/
def sampleWorld : World :=
  let w := World.fresh fun _ => 0
  { w with
    dataEvq := fun i =>
      if i = 510 then 0x5000000000000001#64
      else if i = 511 then 0x20000000000003ff#64
      else if i = 0 then 0x0000000000000012#64
      else 0 }

def sampleSoftc : Softc := ⟨0x100000#64, 0x200000#64, 510, 511, 7⟩

def sampleReq : TxReq := ⟨true, true, 4, 3, [1, 2, 3, 4]⟩

theorem direct_refines_kernel_sample :
    ∃ sc' sfc' w' frames,
      kernelRun sampleSoftc sampleWorld [.tx sampleReq, .rx] = some (sc', w', frames) ∧
      directRun rxTries
        { SfcIf.fresh 0x100000#64 0x200000#64 with evqReadPtr := 510, txHead := 511, rxHead := 7 }
        sampleWorld [.tx sampleReq, .rx] = some (sfc', w', frames) ∧ Mirrors sfc' sc' :=
  direct_refines_kernel
    ⟨rfl, rfl, rfl, rfl, rfl, fun i => by cases i <;> rfl, rfl, rfl, rfl, rfl, rfl⟩
    (by decide +kernel) le_rfl

end Sfc7120.Refinement

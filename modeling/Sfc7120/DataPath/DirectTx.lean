import Sfc7120.Lib.Machine
import Sfc7120.DataPath.User

/-! Direct-path transmit as a system: an application that posts packets and a NIC that fetches
them, each between any two memory accesses of the other. `sfc7120_tx_post` looks at nothing
the NIC writes; the application keeps its own count of what is on its way. -/
namespace Sfc7120.DirectTx

open ByteMemory RingQueue Machine

/-- Where the application is inside `sfc7120_tx_post`, with the packet being posted. -/
inductive Pc where
  | idle
  | copied (pkt : List Byte)
  | described (pkt : List Byte)
  deriving DecidableEq

structure Sys where
  w : World
  sfc : SfcIf
  pc : Pc
  /-- The descriptor the NIC has read and whose packet it has not. -/
  latched : Option Word
  posted : List (List Byte)
  /-- What the NIC has put on the wire. -/
  sent : List (List Byte)

inductive Act where
  | callPost (buf : List Byte) (len : ℕ)
  | postDesc
  | postRing
  | nicFetch
  | nicSend
  | nicDma (addr : ℕ) (bytes : List Byte)
  | nicEvent (i : ℕ) (ev : Word)
  deriving DecidableEq

/-- The write pointer the NIC knows: zero until the doorbell is first written. -/
def wptr (w : World) : ℕ :=
  match w.regs regDataTxWptrDbl with
  | none => 0
  | some v => v.toNat % numTxDesc

/-- Packets posted and not yet fetched. -/
def Sys.pending (s : Sys) : ℕ := s.posted.length - s.sent.length

def step (s : Sys) : Act → Option Sys
  | .callPost buf len =>
      match s.pc with
      | .idle =>
          if buf.length < len then none
          else if txPostReady s.sfc len then
            let sfc := { s.sfc with usedPoll := true }
            some { s with
              w := txPostCopy sfc s.w (buf.take len), sfc := sfc, pc := .copied (buf.take len) }
          else some s
      | _ => none
  | .postDesc =>
      match s.pc with
      | .copied pkt => some { s with w := txPostDesc s.sfc s.w pkt.length, pc := .described pkt }
      | _ => none
  | .postRing =>
      match s.pc with
      | .described pkt =>
          let r := txPostRing s.sfc s.w
          some { s with w := r.2, sfc := r.1, pc := .idle, posted := s.posted ++ [pkt] }
      | _ => none
  | .nicFetch =>
      match s.latched with
      | none =>
          if s.w.txFetched % numTxDesc ≠ wptr s.w then
            some { s with latched := some (s.w.txRing (s.w.txFetched % numTxDesc)) }
          else none
      | some _ => none
  | .nicSend =>
      match s.latched with
      | none => none
      | some d =>
          some { s with
            w := { s.w with txFetched := s.w.txFetched + 1 }
            latched := none
            sent := s.sent ++ [readBytes s.w.mem (descAddr d).toNat (descBytes d).toNat] }
  | .nicDma addr bytes =>
      -- received frames land in other memory than the TX buffer
      let base := s.sfc.txBufferPaddr.toNat
      if addr + bytes.length ≤ base ∨ base + numTxDesc * txBufferSize ≤ addr then
        some { s with w := { s.w with mem := writeBytes s.w.mem addr bytes } }
      else none
  | .nicEvent i ev =>
      some { s with w := { s.w with dataEvq := Function.update s.w.dataEvq i ev } }

def start (sfc : SfcIf) (w : World) : Sys := ⟨w, sfc, .idle, none, [], []⟩

/-- A call of `sfc7120_tx_post` in which the NIC does not act is a run of the system. -/
theorem txPost_reaches {s : Sys} {buf : List Byte} {len : ℕ} {sfc : SfcIf} {w : World}
    (hpc : s.pc = .idle) (hbuf : len ≤ buf.length)
    (hpost : s.sfc.txPost s.w buf len = some (sfc, w)) :
    Reaches step s { s with w := w, sfc := sfc, posted := s.posted ++ [buf.take len] } := by
  unfold SfcIf.txPost at hpost
  split_ifs at hpost with hready
  have hlen : (buf.take len).length = len := List.length_take_of_le hbuf
  obtain ⟨rfl, rfl⟩ := Prod.mk.inj (Option.some.inj hpost)
  obtain ⟨w₀, sfc₀, pc, latched, posted, sent⟩ := s
  obtain rfl : pc = .idle := hpc
  have hcall : txPostReady sfc₀ len = true := hready
  refine ⟨[.callPost buf len, .postDesc, .postRing], ?_⟩
  simp only [run, step, not_lt.mpr hbuf, if_false, hcall, if_true, Option.bind_some, hlen]
  rfl

/-- The application, the doorbell and the NIC stand at the same slot. -/
structure Aligned (sfc : SfcIf) (w : World) : Prop where
  doorbell : wptr w = sfc.txHead
  readIdx : w.txFetched % numTxDesc = sfc.txHead

/-- The application never has more than 511 packets on their way. -/
def Windowed (s : Sys) (a : Act) : Prop := (step s a).all (fun t => t.pending ≤ 511) = true

instance Windowed.decidable (s : Sys) (a : Act) : Decidable (Windowed s a) :=
  inferInstanceAs (Decidable (_ = true))

/-- Slot `j` holds the packet. -/
def SlotBytes (base : Word) (w : World) (j : ℕ) (pkt : List Byte) : Prop :=
  readBytes w.mem (base.toNat + j * txBufferSize) pkt.length = pkt

/-- The descriptor of slot `j` for a packet of `len` bytes. -/
def txDesc (base : Word) (j len : ℕ) : Word :=
  kernDesc (BitVec.ofNat 64 len) (slotPa base txBufferSize j)

/-- Every packet on its way is still in its slot, behind its own descriptor. -/
def Intact (base : Word) (first : ℕ) (s : Sys) : Prop :=
  ∀ k (h : k < s.posted.length), s.sent.length ≤ k →
    s.w.txRing ((first + k) % numTxDesc) =
        txDesc base ((first + k) % numTxDesc) (s.posted[k]).length ∧
      SlotBytes base s.w ((first + k) % numTxDesc) s.posted[k]

/-- The packet being posted is in the slot at `tx_head`, with its descriptor once written. -/
def Posting (base : Word) (s : Sys) : Prop :=
  match s.pc with
  | .idle => True
  | .copied pkt => pkt.length ≤ txBufferSize ∧ SlotBytes base s.w s.sfc.txHead pkt
  | .described pkt => pkt.length ≤ txBufferSize ∧ SlotBytes base s.w s.sfc.txHead pkt ∧
      s.w.txRing s.sfc.txHead = txDesc base s.sfc.txHead pkt.length

/-- `first` is the NIC's read index at the start: packet `k` since then goes through slot
`first + k`. -/
structure Inv (base : Word) (first : ℕ) (s : Sys) : Prop where
  paddr : s.sfc.txBufferPaddr = base
  head : s.sfc.txHead = (first + s.posted.length) % numTxDesc
  doorbell : wptr s.w = (first + s.posted.length) % numTxDesc
  readIdx : s.w.txFetched = first + s.sent.length
  window : s.posted.length ≤ s.sent.length + 511
  fits : ∀ p ∈ s.posted, p.length ≤ txBufferSize
  order : s.sent <+: s.posted
  intact : Intact base first s
  posting : Posting base s
  latched : ∀ d, s.latched = some d → ∃ h : s.sent.length < s.posted.length,
    d = txDesc base ((first + s.sent.length) % numTxDesc) (s.posted[s.sent.length]).length

theorem inv_start {sfc : SfcIf} {w : World} (h : Aligned sfc w) :
    Inv sfc.txBufferPaddr w.txFetched (start sfc w) where
  paddr := rfl
  head := by simpa [start] using h.readIdx.symm
  doorbell := by
    simp only [start, List.length_nil, Nat.add_zero]
    exact h.doorbell.trans h.readIdx.symm
  readIdx := rfl
  window := by simp [start]
  fits := by simp [start]
  order := List.nil_prefix
  intact k hk := by simp [start] at hk
  posting := trivial
  latched d hd := by simp [start] at hd

/-- The NIC reads from its descriptor exactly the packet in the slot. -/
theorem SlotBytes.fetch {base : Word} (hbase : base.toNat + numTxDesc * txBufferSize ≤ 2 ^ 48)
    {w : World} {j : ℕ} (hj : j < numTxDesc) {pkt : List Byte} (hlen : pkt.length ≤ txBufferSize)
    (h : SlotBytes base w j pkt) :
    readBytes w.mem (descAddr (txDesc base j pkt.length)).toNat
      (descBytes (txDesc base j pkt.length)).toNat = pkt := by
  have hpa := slotPa_toNat hbase hj
  have hlt : (slotPa base txBufferSize j).toNat < 2 ^ 48 := by
    rw [hpa]
    simp only [numTxDesc, txBufferSize] at *
    omega
  have hbytes : (BitVec.ofNat 64 pkt.length).toNat = pkt.length := by
    rw [BitVec.toNat_ofNat]
    simp only [txBufferSize] at hlen
    omega
  have hfield : (BitVec.ofNat 64 pkt.length).toNat < 2 ^ 14 := by
    rw [hbytes]
    simp only [txBufferSize] at hlen
    omega
  rw [txDesc, descAddr_kernDesc hlt, descBytes_kernDesc hfield, hpa, hbytes]
  exact h

/-- A write outside the slot's bytes leaves its packet alone. -/
theorem SlotBytes.writeBytes {base : Word} {w : World} {j : ℕ} {pkt : List Byte}
    (h : SlotBytes base w j pkt) (hlen : pkt.length ≤ txBufferSize) {a : ℕ} {bs : List Byte}
    (hout : a + bs.length ≤ base.toNat + j * txBufferSize ∨
      base.toNat + (j + 1) * txBufferSize ≤ a) :
    SlotBytes base { w with mem := ByteMemory.writeBytes w.mem a bs } j pkt := by
  refine Eq.trans (readBytes_congr fun i hi => writeBytes_outside ?_) h
  rw [Nat.add_mul, Nat.one_mul] at hout
  omega

section
variable {base : Word} {first : ℕ} {s : Sys}

/-- The slot at `tx_head` belongs to no packet on its way. -/
theorem Inv.head_ne (h : Inv base first s) {k : ℕ} (hk : k < s.posted.length)
    (hsent : s.sent.length ≤ k) : (first + k) % numTxDesc ≠ s.sfc.txHead := by
  have hwin := h.window
  rw [h.head]
  exact mod_ne_of_lt numTxDesc (by omega) (by simp only [numTxDesc]; omega)

theorem Inv.head_lt (h : Inv base first s) : s.sfc.txHead < numTxDesc := by
  rw [h.head]
  exact Nat.mod_lt _ (by decide)

theorem Inv.callPost (h : Inv base first s) {pkt : List Byte}
    (hlen : pkt.length ≤ txBufferSize) :
    Inv base first { s with
      w := txPostCopy { s.sfc with usedPoll := true } s.w pkt
      sfc := { s.sfc with usedPoll := true }
      pc := .copied pkt } where
  paddr := h.paddr
  head := h.head
  doorbell := h.doorbell
  readIdx := h.readIdx
  window := h.window
  fits := h.fits
  order := h.order
  intact k hk hsent := by
    obtain ⟨hring, hbytes⟩ := h.intact k hk hsent
    refine ⟨hring, hbytes.writeBytes (h.fits _ (List.getElem_mem hk)) ?_⟩
    have hne := h.head_ne hk hsent
    simp only [h.paddr, txBufferSize] at hlen ⊢
    rcases Nat.lt_or_gt_of_ne hne with hlt | hgt
    · right
      omega
    · left
      omega
  posting := by
    refine ⟨hlen, ?_⟩
    simp only [SlotBytes, txPostCopy, h.paddr]
    exact readBytes_writeBytes_self _ _ _
  latched := h.latched

theorem Inv.postDesc (h : Inv base first s) {pkt : List Byte} (hpc : s.pc = .copied pkt) :
    Inv base first { s with w := txPostDesc s.sfc s.w pkt.length, pc := .described pkt } where
  paddr := h.paddr
  head := h.head
  doorbell := h.doorbell
  readIdx := h.readIdx
  window := h.window
  fits := h.fits
  order := h.order
  intact k hk hsent := by
    obtain ⟨hring, hbytes⟩ := h.intact k hk hsent
    exact ⟨(Function.update_of_ne (h.head_ne hk hsent) _ _).trans hring, hbytes⟩
  posting := by
    have hpost := h.posting
    simp only [Posting, hpc] at hpost
    refine ⟨hpost.1, hpost.2, ?_⟩
    simp [txPostDesc, txDesc, h.paddr]
  latched := h.latched

theorem wptr_txPostRing (sfc : SfcIf) (w : World) :
    wptr (txPostRing sfc w).2 = (sfc.txHead + 1) % numTxDesc := by
  have hreg : (txPostRing sfc w).2.regs regDataTxWptrDbl =
      some (BitVec.ofNat 32 ((sfc.txHead + 1) &&& (numTxDesc - 1))) := by
    -- dword 2 of the slice is the WPTR doorbell
    rw [show regDataTxWptrDbl = regDataTxDescDbl + 2 * 4 from rfl]
    simp [txPostRing, World.writeReg]
  simp only [wptr, hreg, BitVec.toNat_ofNat]
  rw [show numTxDesc - 1 = numEvqEntry - 1 from rfl, and_ringMask]
  simp only [numEvqEntry, numTxDesc]
  omega

theorem Inv.postRing (h : Inv base first s) {pkt : List Byte} (hpc : s.pc = .described pkt)
    (hwin : s.posted.length < s.sent.length + 511) :
    Inv base first { s with
      w := (txPostRing s.sfc s.w).2
      sfc := (txPostRing s.sfc s.w).1
      pc := .idle
      posted := s.posted ++ [pkt] } := by
  have hpost := h.posting
  simp only [Posting, hpc] at hpost
  have hnext : (s.sfc.txHead + 1) % numTxDesc =
      (first + (s.posted ++ [pkt]).length) % numTxDesc := by
    rw [h.head, List.length_append, List.length_singleton, ← Nat.add_assoc, Nat.mod_add_mod]
  refine ⟨h.paddr, ?_, ?_, h.readIdx, ?_, ?_, ?_, ?_, trivial, ?_⟩
  · simp only [txPostRing]
    rw [show numTxDesc - 1 = numEvqEntry - 1 from rfl, and_ringMask]
    exact hnext
  · exact (wptr_txPostRing s.sfc s.w).trans hnext
  · simp only [List.length_append, List.length_singleton]
    omega
  · intro p hp
    rcases List.mem_append.mp hp with hp | hp
    · exact h.fits p hp
    · obtain rfl := List.mem_singleton.mp hp
      exact hpost.1
  · exact h.order.trans (List.prefix_append _ _)
  · intro k hk hsent
    simp only [List.length_append, List.length_singleton] at hk
    rcases Nat.lt_or_ge k s.posted.length with hlt | hge
    · simp only [List.getElem_append_left hlt]
      exact h.intact k hlt hsent
    · obtain rfl : k = s.posted.length := by omega
      simp only [List.getElem_append_right le_rfl, Nat.sub_self, List.getElem_singleton, ← h.head]
      exact ⟨hpost.2.2, hpost.2.1⟩
  · intro d hd
    obtain ⟨hlt, hdesc⟩ := h.latched d hd
    refine ⟨?_, ?_⟩
    · simp only [List.length_append, List.length_singleton]
      omega
    · simp only [List.getElem_append_left hlt]
      exact hdesc

/-- The doorbell stands at the NIC's read index exactly when nothing is on its way. -/
theorem Inv.doorbell_eq_iff (h : Inv base first s) :
    wptr s.w = s.w.txFetched % numTxDesc ↔ s.sent = s.posted := by
  have hle := h.order.length_le
  have hwin := h.window
  rw [h.doorbell, h.readIdx]
  constructor
  · intro heq
    refine h.order.eq_of_length (le_antisymm hle (not_lt.mp fun hlt => ?_))
    refine mod_ne_of_lt numTxDesc (i := first + s.sent.length) (j := first + s.posted.length)
      (by omega) (by simp only [numTxDesc]; omega) heq.symm
  · intro heq
    rw [heq]

theorem Inv.sent_lt (h : Inv base first s) (hne : s.sent ≠ s.posted) :
    s.sent.length < s.posted.length :=
  lt_of_le_of_ne h.order.length_le fun heq => hne (h.order.eq_of_length heq)

theorem Inv.nicFetch (h : Inv base first s)
    (hne : s.w.txFetched % numTxDesc ≠ wptr s.w) :
    Inv base first { s with latched := some (s.w.txRing (s.w.txFetched % numTxDesc)) } := by
  refine ⟨h.paddr, h.head, h.doorbell, h.readIdx, h.window, h.fits, h.order, h.intact, h.posting,
    fun d hd => ?_⟩
  have hlt := h.sent_lt fun heq => hne (h.doorbell_eq_iff.mpr heq).symm
  obtain rfl := Option.some.inj hd
  refine ⟨hlt, ?_⟩
  rw [h.readIdx]
  exact (h.intact _ hlt le_rfl).1

theorem Inv.nicSend (h : Inv base first s)
    (hbase : base.toNat + numTxDesc * txBufferSize ≤ 2 ^ 48) {d : Word}
    (hd : s.latched = some d) :
    Inv base first { s with
      w := { s.w with txFetched := s.w.txFetched + 1 }
      latched := none
      sent := s.sent ++ [readBytes s.w.mem (descAddr d).toNat (descBytes d).toNat] } := by
  obtain ⟨hlt, rfl⟩ := h.latched d hd
  have hpkt := (h.intact _ hlt le_rfl).2.fetch hbase (Nat.mod_lt _ (by decide))
    (h.fits _ (List.getElem_mem hlt))
  rw [hpkt]
  refine ⟨h.paddr, h.head, h.doorbell, ?_, ?_, h.fits, ?_, ?_, h.posting, fun _ hd => by cases hd⟩
  · simp only [List.length_append, List.length_singleton, h.readIdx, Nat.add_assoc]
  · have hwin := h.window
    simp only [List.length_append, List.length_singleton]
    omega
  · exact prefix_snoc_iff.mpr ⟨h.order, List.getElem?_eq_getElem hlt⟩
  · intro k hk hsent
    simp only [List.length_append, List.length_singleton] at hsent
    exact h.intact k hk (by omega)

theorem Inv.nicDma (h : Inv base first s) {addr : ℕ} {bytes : List Byte}
    (hout : addr + bytes.length ≤ base.toNat ∨ base.toNat + numTxDesc * txBufferSize ≤ addr) :
    Inv base first { s with w := { s.w with mem := writeBytes s.w.mem addr bytes } } := by
  have hkeep : ∀ {j : ℕ} {pkt : List Byte}, j < numTxDesc → pkt.length ≤ txBufferSize →
      SlotBytes base s.w j pkt →
      SlotBytes base { s.w with mem := writeBytes s.w.mem addr bytes } j pkt := by
    intro j pkt hj hlen hslot
    refine hslot.writeBytes hlen ?_
    simp only [numTxDesc, txBufferSize] at *
    omega
  refine ⟨h.paddr, h.head, h.doorbell, h.readIdx, h.window, h.fits, h.order, ?_, ?_, h.latched⟩
  · intro k hk hsent
    obtain ⟨hring, hbytes⟩ := h.intact k hk hsent
    exact ⟨hring, hkeep (Nat.mod_lt _ (by decide)) (h.fits _ (List.getElem_mem hk)) hbytes⟩
  · have hpost := h.posting
    unfold Posting at hpost ⊢
    cases hpc : s.pc with
    | idle => trivial
    | copied pkt =>
      simp only [hpc] at hpost ⊢
      exact ⟨hpost.1, hkeep h.head_lt hpost.1 hpost.2⟩
    | described pkt =>
      simp only [hpc] at hpost ⊢
      exact ⟨hpost.1, hkeep h.head_lt hpost.1 hpost.2.1, hpost.2.2⟩

end

theorem inv_step {base : Word} (hbase : base.toNat + numTxDesc * txBufferSize ≤ 2 ^ 48)
    {first : ℕ} (s : Sys) (a : Act) (t : Sys) (h : Inv base first s) (hwin : Windowed s a)
    (hstep : step s a = some t) : Inv base first t := by
  have hwin : t.pending ≤ 511 := by simpa [Windowed, hstep] using hwin
  cases a with
  | callPost buf len =>
    simp only [step] at hstep
    split at hstep
    next hpc =>
      split_ifs at hstep with hbuf hready
      · obtain rfl := Option.some.inj hstep
        refine h.callPost ?_
        simp only [txPostReady, Bool.and_eq_true, decide_eq_true_eq] at hready
        exact (List.length_take_le _ _).trans hready.2
      · obtain rfl := Option.some.inj hstep
        exact h
    next => cases hstep
  | postDesc =>
    simp only [step] at hstep
    split at hstep
    next pkt hpc =>
      obtain rfl := Option.some.inj hstep
      exact h.postDesc hpc
    next => cases hstep
  | postRing =>
    simp only [step] at hstep
    split at hstep
    next pkt hpc =>
      obtain rfl := Option.some.inj hstep
      have hle := h.order.length_le
      simp only [Sys.pending, List.length_append, List.length_singleton] at hwin
      exact h.postRing hpc (by omega)
    next => cases hstep
  | nicFetch =>
    simp only [step] at hstep
    split at hstep
    · split_ifs at hstep with hne
      obtain rfl := Option.some.inj hstep
      exact h.nicFetch hne
    · cases hstep
  | nicSend =>
    simp only [step] at hstep
    split at hstep
    · cases hstep
    next d hd =>
      obtain rfl := Option.some.inj hstep
      exact h.nicSend hbase hd
  | nicDma addr bytes =>
    simp only [step, h.paddr] at hstep
    split_ifs at hstep with hout
    obtain rfl := Option.some.inj hstep
    exact h.nicDma hout
  | nicEvent i ev =>
    obtain rfl := Option.some.inj hstep
    exact ⟨h.paddr, h.head, h.doorbell, h.readIdx, h.window, h.fits, h.order, h.intact, h.posting,
      h.latched⟩

def Act.isNic : Act → Bool
  | .nicFetch => true
  | .nicSend => true
  | _ => false

/-- With a packet on its way the NIC can send the next one. -/
theorem Inv.nicNext {base : Word} (hbase : base.toNat + numTxDesc * txBufferSize ≤ 2 ^ 48)
    {first : ℕ} {s : Sys} (h : Inv base first s) (hne : s.sent ≠ s.posted) :
    ∃ as t, (∀ a ∈ as, a.isNic = true) ∧ run step s as = some t ∧ Inv base first t ∧
      t.posted = s.posted ∧ t.sent.length = s.sent.length + 1 := by
  have hdoor : s.w.txFetched % numTxDesc ≠ wptr s.w := fun heq =>
    hne (h.doorbell_eq_iff.mp heq.symm)
  cases hlatched : s.latched with
  | some d =>
    refine ⟨[.nicSend], _, by simp [Act.isNic], ?_, h.nicSend hbase hlatched, rfl, by simp⟩
    simp [run, step, hlatched]
  | none =>
    have hfetched := h.nicFetch hdoor
    refine ⟨[.nicFetch, .nicSend], _, by simp [Act.isNic], ?_, hfetched.nicSend hbase rfl, rfl,
      by simp⟩
    simp [run, step, hlatched, hdoor]

/-- Left to itself, the NIC sends everything that was posted. -/
theorem Inv.drain {base : Word} (hbase : base.toNat + numTxDesc * txBufferSize ≤ 2 ^ 48)
    {first : ℕ} (n : ℕ) {s : Sys} (h : Inv base first s)
    (hn : s.posted.length = s.sent.length + n) :
    ∃ as t, (∀ a ∈ as, a.isNic = true) ∧ run step s as = some t ∧ t.sent = s.posted := by
  induction n generalizing s with
  | zero =>
    exact ⟨[], s, by simp, rfl, h.order.eq_of_length (by omega)⟩
  | succ n ih =>
    have hne : s.sent ≠ s.posted := fun heq => by
      rw [heq] at hn
      omega
    obtain ⟨as, t, has, hrun, ht, hposted, hsent⟩ := h.nicNext hbase hne
    obtain ⟨bs, u, hbs, hrest, hu⟩ := ih ht (by rw [hposted]; omega)
    refine ⟨as ++ bs, u, fun a ha => ?_, run_append hrun hrest, hu.trans hposted⟩
    rcases List.mem_append.mp ha with ha | ha
    · exact has a ha
    · exact hbs a ha

/-- From any aligned state, in every run that keeps to the window: the NIC has sent the posted
packets byte for byte and in order up to some point; those behind it are intact in their slots;
the doorbell stands at the read index only when nothing is on its way; and left to itself the
NIC sends the rest. -/
theorem transmit_exact {sfc : SfcIf} {w : World} {s : Sys} {as : List Act}
    (hbase : sfc.txBufferPaddr.toNat + numTxDesc * txBufferSize ≤ 2 ^ 48)
    (hstart : Aligned sfc w) (hwin : Along step Windowed (start sfc w) as)
    (hrun : run step (start sfc w) as = some s) :
    s.sent <+: s.posted ∧ Intact sfc.txBufferPaddr w.txFetched s ∧
      (wptr s.w = s.w.txFetched % numTxDesc ↔ s.sent = s.posted) ∧
      ∃ bs t, (∀ b ∈ bs, b.isNic = true) ∧ run step s bs = some t ∧ t.sent = s.posted := by
  have h := run_invariant_along (inv_step hbase) (inv_start hstart) hwin hrun
  have hle := h.order.length_le
  exact ⟨h.order, h.intact, h.doorbell_eq_iff,
    h.drain hbase (s.posted.length - s.sent.length) (by omega)⟩

/-- Two packets around the wrap, the second posted before the first is sent. -/
def sampleRun : List Act :=
  [.callPost [1, 2, 3] 3, .postDesc, .postRing, .nicFetch, .callPost [4, 5, 6] 2, .postDesc,
    .nicSend, .postRing]

def sampleWorld : World :=
  { World.fresh fun _ => 0 with
    regs := fun off => if off = regDataTxWptrDbl then some 511#32 else none
    txFetched := 1023 }

def sampleIf : SfcIf := { SfcIf.fresh 0x100000#64 0x200000#64 with txHead := 511 }

theorem transmit_exact_sample :
    ∃ s, run step (start sampleIf sampleWorld) sampleRun = some s ∧
      s.sent = [[1, 2, 3]] ∧ s.posted = [[1, 2, 3], [4, 5]] ∧ s.sent <+: s.posted := by
  have hsome : (run step (start sampleIf sampleWorld) sampleRun).isSome = true := by
    decide +kernel
  obtain ⟨s, hs⟩ := Option.isSome_iff_exists.mp hsome
  have hsent : (run step (start sampleIf sampleWorld) sampleRun).map Sys.sent =
      some [[1, 2, 3]] := by decide +kernel
  have hposted : (run step (start sampleIf sampleWorld) sampleRun).map Sys.posted =
      some [[1, 2, 3], [4, 5]] := by decide +kernel
  rw [hs] at hsent hposted
  refine ⟨s, hs, Option.some.inj hsent, Option.some.inj hposted, ?_⟩
  exact (transmit_exact (by decide +kernel) ⟨by decide +kernel, by decide +kernel⟩
    (by decide +kernel) hs).1

end Sfc7120.DirectTx

import Sfc7120.Control.Evq
import Sfc7120.DataPath.Kernel

/-! One run of `sfc7120_interrupt_handler`, as a whole. The loop ends by its own counter; the ring
it walks is the ring it overwrites. -/
namespace Sfc7120.ControlEvq

open RingQueue Machine BitFields

/-- The softc as the handler sees it: the control queue, the link state, and the data path it must
leave alone. `pio` lists the register writes in order. -/
structure Device where
  evqRing : ℕ → Word
  evqReadPtr : ℕ
  evqInitialized : Bool
  dying : Bool
  link : LinkState
  sc : Softc
  w : World
  pio : List (ℕ × BitVec 32)

def Device.writeReg (d : Device) (off : ℕ) (v : BitVec 32) : Device :=
  { d with w := d.w.writeReg off v, pio := d.pio ++ [(off, v)] }

/-- What the loop works on. -/
structure Drain where
  evqRing : ℕ → Word
  evqReadPtr : ℕ
  link : LinkState
  processed : ℕ

/-- One event handled, zeroed and counted. -/
def Drain.take (d : Drain) : Drain where
  evqRing := Function.update d.evqRing d.evqReadPtr 0
  evqReadPtr := (d.evqReadPtr + 1) &&& (numEvqEntry - 1)
  link := handleEv d.link (d.evqRing d.evqReadPtr)
  processed := d.processed + 1

/-- The loop: it leaves at an empty slot, or when a whole ring is processed. -/
def drainLoop (d : Drain) : Drain :=
  if evEmpty (d.evqRing d.evqReadPtr) then d
  else if numEvqEntry ≤ d.take.processed then d.take
  else drainLoop d.take
termination_by numEvqEntry - d.processed
decreasing_by
  simp only [Drain.take] at *
  omega

/-- `sfc7120_interrupt_handler`. -/
def interruptHandler (d : Device) : Device :=
  if d.dying || !d.evqInitialized then d
  else
    let r := drainLoop ⟨d.evqRing, d.evqReadPtr, d.link, 0⟩
    let d := { d with evqRing := r.evqRing, evqReadPtr := r.evqReadPtr, link := r.link }
    if 0 < r.processed then
      d.writeReg regEvqRptrDbl (BitVec.ofNat 32 (d.evqReadPtr &&& evqRptrMask))
    else d

section
variable {d : Drain} {s : Sys} {entry : ℕ}

/-- One event: read, cleared and counted. -/
theorem take_reaches (hisr : s.isr = .loop entry d.processed) (hring : s.evqRing = d.evqRing)
    (hptr : s.evqReadPtr = d.evqReadPtr) (hlink : s.link = d.link)
    (hpresent : evEmpty (d.evqRing d.evqReadPtr) = false) :
    Reaches step s { s with
      evqRing := d.take.evqRing, evqReadPtr := d.take.evqReadPtr, link := d.take.link,
      isr := if numEvqEntry ≤ d.take.processed then .leave entry d.take.processed
        else .loop entry d.take.processed,
      consumed := s.consumed ++ [d.evqRing d.evqReadPtr] } := by
  refine ⟨[.isrRead, .isrClear, .isrAdvance], ?_⟩
  simp only [run, step, hisr, hring, hptr, hlink, hpresent, Option.bind_some, Bool.false_eq_true,
    if_false]
  rfl

/-- The loop is a run of the system in which nobody else acts. -/
theorem drainLoop_reaches (hisr : s.isr = .loop entry d.processed)
    (hring : s.evqRing = d.evqRing) (hptr : s.evqReadPtr = d.evqReadPtr)
    (hlink : s.link = d.link) :
    ∃ evs, Reaches step s { s with
      evqRing := (drainLoop d).evqRing, evqReadPtr := (drainLoop d).evqReadPtr,
      link := (drainLoop d).link, isr := .leave entry (drainLoop d).processed,
      consumed := s.consumed ++ evs } := by
  induction d using drainLoop.induct generalizing s with
  | case1 d hempty =>
    refine ⟨[], ⟨[.isrRead], ?_⟩⟩
    rw [drainLoop, if_pos hempty]
    simp [run, step, hisr, hring, hptr, hlink, hempty]
  | case2 d hpresent hfull =>
    have htake := take_reaches hisr hring hptr hlink (by simpa using hpresent)
    rw [if_pos hfull] at htake
    rw [drainLoop, if_neg hpresent, if_pos hfull]
    exact ⟨_, htake⟩
  | case3 d hpresent hroom ih =>
    have htake := take_reaches hisr hring hptr hlink (by simpa using hpresent)
    rw [if_neg hroom] at htake
    rw [drainLoop, if_neg hpresent, if_neg hroom]
    obtain ⟨evs, hrest⟩ := ih (s := { s with
      evqRing := d.take.evqRing, evqReadPtr := d.take.evqReadPtr, link := d.take.link,
      isr := .loop entry d.take.processed,
      consumed := s.consumed ++ [d.evqRing d.evqReadPtr] }) rfl rfl rfl rfl
    refine ⟨d.evqRing d.evqReadPtr :: evs, htake.trans ?_⟩
    simpa using hrest

/-- The system's control queue beside a data path. -/
def Sys.device (s : Sys) (sc : Softc) (w : World) : Device :=
  ⟨s.evqRing, s.evqReadPtr, s.evqInitialized, s.dying, s.link, sc, w, []⟩

/-- A run of the handler in which nobody else acts is a run of the system. -/
theorem interruptHandler_reaches (sc : Softc) (w : World) (hidle : s.isr = .idle)
    (harmed : s.evqInitialized = true) (halive : s.dying = false) :
    ∃ evs acked, Reaches step s { s with
      evqRing := (interruptHandler (s.device sc w)).evqRing,
      evqReadPtr := (interruptHandler (s.device sc w)).evqReadPtr,
      link := (interruptHandler (s.device sc w)).link,
      consumed := s.consumed ++ evs, acked := acked } := by
  obtain ⟨evs, hloop⟩ := drainLoop_reaches (d := ⟨s.evqRing, s.evqReadPtr, s.link, 0⟩)
    (s := { s with isr := .loop s.evLog.length 0 }) rfl rfl rfl rfl
  have henter : step s .interrupt = some { s with isr := .loop s.evLog.length 0 } := by
    simp [step, hidle, harmed, halive]
  unfold interruptHandler
  rw [if_neg (by simp [Sys.device, harmed, halive])]
  generalize hr : drainLoop ⟨s.evqRing, s.evqReadPtr, s.link, 0⟩ = r at hloop
  refine ⟨evs, if 0 < r.processed then s.evLog.length - unacked s.evLog.length
      (BitVec.ofNat 32 (r.evqReadPtr &&& evqRptrMask)) else s.acked,
    .step henter (hloop.trans (.step (a := .isrReturn) ?_ (.refl _ _)))⟩
  simp only [step, Sys.device, hr, hidle, Device.writeReg]
  split_ifs <;> rfl

end

/-- An MCDI event with the `LINKCHANGE` subcode: code 12 in bits 63:60, subcode 4 in 51:44. -/
def isLinkchange (ev : Word) : Bool := get 60 4 ev == 12#64 && get 44 8 ev == 4#64

/-- What a `LINKCHANGE` says: speed in bits 19:16, flow control in 23:20, flags from 24 on. -/
def decodeLink (ev : Word) : LinkState where
  linkUp := ev.getLsbD 24
  fullDuplex := ev.getLsbD 25
  linkSpeedMbps := linkchangeSpeedMbps ((get 16 4 ev).setWidth 32)
  linkFcntl := (get 20 4 ev).setWidth 32

section
variable (ev : Word) {b k : ℕ}

theorem hi_field (h : b + k ≤ 32) : ((ev >>> 32).setWidth 32 >>> b) &&& mask 32 k =
    (get (32 + b) k ev).setWidth 32 := by
  apply BitVec.eq_of_getLsbD_eq
  intro i hi
  rw [BitVec.getLsbD_and, BitVec.getLsbD_ushiftRight, BitVec.getLsbD_setWidth,
    BitVec.getLsbD_ushiftRight, BitVec.getLsbD_setWidth, mask_getLsbD hi,
    get_getLsbD (by omega), Nat.add_assoc]
  by_cases hk : i < k
  · simp [hk, hi, show b + i < 32 by omega]
  · simp [hk]

theorem lo_field (h : b + k ≤ 32) :
    ((ev &&& 0xffffffff#64).setWidth 32 >>> b) &&& mask 32 k = (get b k ev).setWidth 32 := by
  apply BitVec.eq_of_getLsbD_eq
  intro i hi
  rw [BitVec.getLsbD_and, BitVec.getLsbD_ushiftRight, BitVec.getLsbD_setWidth,
    BitVec.getLsbD_and, BitVec.getLsbD_setWidth, mask_getLsbD hi, get_getLsbD (by omega),
    show (0xffffffff#64 : Word) = mask 64 32 from rfl]
  by_cases hk : i < k
  · simp [hk, hi, show b + i < 32 by omega, mask_getLsbD (show b + i < 64 by omega)]
  · simp [hk]

theorem field_eq_iff {lo c : ℕ} (hk : k ≤ 32) (hc : c < 2 ^ 32) :
    (get lo k ev).setWidth 32 = BitVec.ofNat 32 c ↔ get lo k ev = BitVec.ofNat 64 c := by
  have hlt : (get lo k ev).toNat < 2 ^ 32 := by
    rw [BitFields.get, toNat_and_mask (by omega)]
    exact (Nat.mod_lt _ (by positivity)).trans_le (Nat.pow_le_pow_right (by decide) hk)
  rw [← BitVec.toNat_inj, ← BitVec.toNat_inj, BitVec.toNat_setWidth, BitVec.toNat_ofNat,
    BitVec.toNat_ofNat, Nat.mod_eq_of_lt hlt, Nat.mod_eq_of_lt hc,
    Nat.mod_eq_of_lt (hc.trans (by decide))]

theorem flag_eq {i : ℕ} (hi : i < 8) :
    ((get 24 8 ev).setWidth 32 &&& BitVec.twoPow 32 i != 0#32) = ev.getLsbD (24 + i) := by
  have hbit : ((get 24 8 ev).setWidth 32).getLsbD i = ev.getLsbD (24 + i) := by
    rw [BitVec.getLsbD_setWidth, get_getLsbD (by omega)]
    simp [hi, show i < 32 by omega]
  have hne : BitVec.twoPow 32 i ≠ 0#32 := by
    intro h
    have hlsb := congrArg (BitVec.getLsbD · i) h
    simp [show i < 32 by omega] at hlsb
  rw [BitVec.and_twoPow, hbit]
  cases ev.getLsbD (24 + i) with
  | true => simpa using hne
  | false => simp

end

/-- The handler's link state is what the last field layout says, event by event. -/
theorem handleEv_eq (link : LinkState) (ev : Word) :
    handleEv link ev = if isLinkchange ev then decodeLink ev else link := by
  have hmcdi : ((ev >>> 32).setWidth 32 >>> 28) &&& 0xf#32 = evCodeMcdi ↔
      get 60 4 ev = 12#64 := by
    rw [show (0xf#32) = mask 32 4 from rfl, hi_field ev (by decide)]
    exact field_eq_iff ev (by decide) (by decide)
  have hlinkchange : ((ev >>> 32).setWidth 32 >>> 12) &&& 0xff#32 = mcdiEvLinkchange ↔
      get 44 8 ev = 4#64 := by
    rw [show (0xff#32) = mask 32 8 from rfl, hi_field ev (by decide)]
    exact field_eq_iff ev (by decide) (by decide)
  have hflags : ((ev &&& 0xffffffff#64).setWidth 32 >>> 24) &&& 0xff#32 =
      (get 24 8 ev).setWidth 32 := lo_field ev (b := 24) (k := 8) (by decide)
  have hspeed : ((ev &&& 0xffffffff#64).setWidth 32 >>> 16) &&& 0xf#32 =
      (get 16 4 ev).setWidth 32 := lo_field ev (b := 16) (k := 4) (by decide)
  have hfcntl : ((ev &&& 0xffffffff#64).setWidth 32 >>> 20) &&& 0xf#32 =
      (get 20 4 ev).setWidth 32 := lo_field ev (b := 20) (k := 4) (by decide)
  have hup : ((get 24 8 ev).setWidth 32 &&& 1#32 != 0#32) = ev.getLsbD 24 :=
    flag_eq ev (i := 0) (by decide)
  have hfdx : ((get 24 8 ev).setWidth 32 &&& 2#32 != 0#32) = ev.getLsbD 25 :=
    flag_eq ev (i := 1) (by decide)
  unfold handleEv isLinkchange decodeLink
  simp only [hmcdi, hlinkchange, hflags, hspeed, hfcntl, hup, hfdx, Bool.and_eq_true, beq_iff_eq]

theorem foldl_handleEv (link : LinkState) (evs : List Word) : evs.foldl handleEv link =
    ((evs.filter isLinkchange).getLast?.map decodeLink).getD link := by
  induction evs using List.reverseRecOn with
  | nil => rfl
  | append_singleton evs ev ih =>
    rw [List.foldl_append, List.foldl_cons, List.foldl_nil, handleEv_eq, List.filter_append]
    cases hev : isLinkchange ev with
    | true => simp [hev]
    | false => simpa [hev] using ih

theorem drainLoop_of_nil {d : Drain} (hptr : d.evqReadPtr < numEvqEntry)
    (hpending : pending numEvqEntry evEmpty d.evqRing d.evqReadPtr = []) : drainLoop d = d := by
  have hempty := (pending_eq_nil_iff _ _ _ (by decide)).mp hpending
  rw [Nat.mod_eq_of_lt hptr] at hempty
  rw [drainLoop, if_pos hempty]

/-- The loop takes all that is pending. The counter stops it, if ever, where the ring it has
emptied would: at its own start. -/
theorem drainLoop_eq (evs : List Word) {d : Drain} (hptr : d.evqReadPtr < numEvqEntry)
    (hpending : pending numEvqEntry evEmpty d.evqRing d.evqReadPtr = evs)
    (hcount : d.processed + evs.length ≤ numEvqEntry) :
    drainLoop d =
      ⟨clearFrom numEvqEntry 0 d.evqRing d.evqReadPtr evs.length,
        (d.evqReadPtr + evs.length) % numEvqEntry, evs.foldl handleEv d.link,
        d.processed + evs.length⟩ := by
  induction evs generalizing d with
  | nil =>
    rw [drainLoop_of_nil hptr hpending]
    simp [clearFrom_zero, Nat.mod_eq_of_lt hptr]
  | cons ev evs ih =>
    have hmod := Nat.mod_eq_of_lt hptr
    have hpresent : evEmpty (d.evqRing d.evqReadPtr) = false := by
      by_contra hne
      have hnil : pending numEvqEntry evEmpty d.evqRing d.evqReadPtr = [] := by
        rw [pending_eq_nil_iff _ _ _ (by decide), hmod]
        simpa using hne
      rw [hpending] at hnil
      cases hnil
    rw [← hmod] at hpresent
    have htake := pending_of_present (e := 0) (by decide) hpresent (by decide)
    rw [hmod] at hpresent
    rw [hpending, hmod] at htake
    obtain ⟨rfl, hrest⟩ := List.cons.inj htake
    have hptr' : d.take.evqReadPtr = (d.evqReadPtr + 1) % numEvqEntry := and_ringMask _
    have hlt' : d.take.evqReadPtr < numEvqEntry := by
      rw [hptr']
      exact Nat.mod_lt _ (by decide)
    rw [List.length_cons] at hcount ⊢
    have hclear : clearFrom numEvqEntry 0 d.take.evqRing d.take.evqReadPtr evs.length =
        clearFrom numEvqEntry 0 d.evqRing d.evqReadPtr (evs.length + 1) := by
      rw [← clearFrom_succ, hmod, hptr', clearFrom_mod]
      rfl
    have hnext : (d.take.evqReadPtr + evs.length) % numEvqEntry =
        (d.evqReadPtr + (evs.length + 1)) % numEvqEntry := by
      rw [hptr', Nat.mod_add_mod, Nat.add_assoc, Nat.add_comm 1]
    have hpending' : pending numEvqEntry evEmpty d.take.evqRing d.take.evqReadPtr = evs := by
      rw [hptr', pending_mod]
      exact hrest.symm
    have hprocessed : d.take.processed = d.processed + 1 := rfl
    have hloop : drainLoop d = drainLoop d.take := by
      rw [drainLoop, if_neg (by simp [hpresent])]
      split_ifs with hfull
      · have hnone : evs = [] := List.length_eq_zero_iff.mp (by omega)
        rw [drainLoop_of_nil hlt' (hpending'.trans hnone)]
      · rfl
    rw [hloop, ih hlt' hpending' (by omega), hclear, hnext, hprocessed, Nat.add_assoc,
      Nat.add_comm 1]
    rfl

/-- The handler took the `n` events from the read pointer on and nothing else: their slots are
zeroed, the pointer has moved past them, one doorbell write acknowledges them if there were any,
the link state is the last `LINKCHANGE`'s, and the data path is as it was. -/
structure Drains (n : ℕ) (d d' : Device) : Prop where
  atMost : n ≤ numEvqEntry
  present : ∀ i < n, evEmpty (d.evqRing ((d.evqReadPtr + i) % numEvqEntry)) = false
  longest : n < numEvqEntry → evEmpty (d.evqRing ((d.evqReadPtr + n) % numEvqEntry)) = true
  ring : ∀ j, d'.evqRing j =
    if ∃ i < n, (d.evqReadPtr + i) % numEvqEntry = j then 0 else d.evqRing j
  readPtr : d'.evqReadPtr = (d.evqReadPtr + n) % numEvqEntry
  doorbell : d'.pio = d.pio ++
    if 0 < n then [(regEvqRptrDbl, BitVec.ofNat 32 d'.evqReadPtr)] else []
  link : d'.link =
    ((((List.range n).map fun i => d.evqRing ((d.evqReadPtr + i) % numEvqEntry)).filter
      isLinkchange).getLast?.map decodeLink).getD d.link
  cursors : d'.sc = d.sc
  world : d'.w = { d.w with regs := d'.w.regs }
  regs : ∀ off, off ≠ regEvqRptrDbl → d'.w.regs off = d.w.regs off

/-- Every run of an armed handler drains the control queue, for every content of the ring, every
read pointer and link state. -/
theorem control_isr_drains {d : Device} (hptr : d.evqReadPtr < numEvqEntry)
    (harmed : d.evqInitialized = true) (halive : d.dying = false) :
    ∃ n, Drains n d (interruptHandler d) := by
  obtain ⟨hevs, hpresent, hlongest⟩ := pending_spec numEvqEntry evEmpty d.evqRing d.evqReadPtr
  have hle := pending_length_le numEvqEntry evEmpty d.evqRing d.evqReadPtr
  have hloop := drainLoop_eq _ (d := ⟨d.evqRing, d.evqReadPtr, d.link, 0⟩) hptr rfl (by simpa)
  simp only [Nat.zero_add, foldl_handleEv] at hloop
  rw [hevs] at hloop
  generalize (pending numEvqEntry evEmpty d.evqRing d.evqReadPtr).length = n at *
  simp only [List.length_map, List.length_range] at hloop
  have hlt : (d.evqReadPtr + n) % numEvqEntry < numEvqEntry := Nat.mod_lt _ (by decide)
  refine ⟨n, ?_⟩
  unfold interruptHandler
  rw [if_neg (by simp [harmed, halive])]
  dsimp only
  rw [hloop]
  dsimp only
  split_ifs with hpos
  · refine ⟨hle, hpresent, hlongest, fun j => rfl, rfl, ?_, rfl, rfl, ?_, fun off hoff => ?_⟩
    · simp only [Device.writeReg, hpos, if_true, and_rptrMask hlt]
    · simp [Device.writeReg, World.writeReg, regEvqRptrDbl, regDataEvqRptrDbl, viWindow,
        dataEvqInstance, viWindowShift]
    · exact World.writeReg_regs_of_ne _ hoff _
  · exact ⟨hle, hpresent, hlongest, fun j => rfl, rfl, by simp [hpos], rfl, rfl, rfl,
      fun off _ => rfl⟩

/-- A ring full of `LINKCHANGE` events, read from slot 5 on: the handler stops at its start. -/
theorem control_isr_drains_full :
    ∃ n, Drains n ⟨fun _ => 0xc000400001030000, 5, true, false, linkDown, ⟨0, 0, 0, 0, 0⟩,
        World.fresh fun _ => 0, []⟩
      (interruptHandler ⟨fun _ => 0xc000400001030000, 5, true, false, linkDown, ⟨0, 0, 0, 0, 0⟩,
        World.fresh fun _ => 0, []⟩) :=
  control_isr_drains (by decide) rfl rfl

end Sfc7120.ControlEvq

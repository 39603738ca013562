import Sfc7120.Lib.Machine
import Sfc7120.Basic
import Mathlib.Data.BitVec

/-! The MC doorbell pair, shared by the kernel's MCDI transport and, through the slice manifest,
by userspace. A write to the second register triggers: the MC latches the mailbox address from
the value of the first register and the value written. -/
namespace Sfc7120.Doorbell

open Machine

/-- The doorbell pair; the names refer to the offset, not to the address half. -/
def regMcDbLwrd : ℕ := 0x0200
def regMcDbHwrd : ℕ := 0x0204

def highHalf (paddr : BitVec 64) : BitVec 32 := (paddr >>> 32).setWidth 32

def lowHalf (paddr : BitVec 64) : BitVec 32 := (paddr &&& 0xffffffff#64).setWidth 32

/-- The mailbox address the MC takes from the two halves. -/
def latchAddr (hi lo : BitVec 32) : ℕ := hi.toNat * 2 ^ 32 + lo.toNat

/-- Where `sfc7120_mcdi_send_locked` is; `mcdi_mtx` keeps submissions apart. -/
inductive Pc where
  | idle
  | highWritten
  deriving DecidableEq

structure Sys where
  mcdiBufPaddr : BitVec 64
  regs : ℕ → BitVec 32
  pc : Pc
  /-- The address latched at each trigger so far. -/
  latched : List ℕ

/-- A register write, by whoever holds a way to make it. -/
def Sys.writeReg (s : Sys) (off : ℕ) (v : BitVec 32) : Sys :=
  { s with
    regs := Function.update s.regs off v
    latched := s.latched ++ if off = regMcDbHwrd then [latchAddr (s.regs regMcDbLwrd) v] else [] }

inductive Act where
  | sendHigh
  | sendLow
  | clientStore (slice : SliceDef) (off : ℕ) (v : BitVec 32)

def Act.byKernel : Act → Bool
  | .clientStore .. => false
  | _ => true

/-- A 32-bit store stays inside the bounds and permissions of the capability to a slice. -/
def storeAllowed (slice : SliceDef) (off : ℕ) : Bool :=
  !slice.readOnly && decide (slice.offset ≤ off) && decide (off + 4 ≤ slice.offset + slice.length)

def step (s : Sys) : Act → Option Sys
  | .sendHigh =>
      match s.pc with
      | .idle => some { s.writeReg regMcDbLwrd (highHalf s.mcdiBufPaddr) with pc := .highWritten }
      | .highWritten => none
  | .sendLow =>
      match s.pc with
      | .idle => none
      | .highWritten => some { s.writeReg regMcDbHwrd (lowHalf s.mcdiBufPaddr) with pc := .idle }
  | .clientStore slice off v =>
      if slice ∈ regSlices ∧ storeAllowed slice off then some (s.writeReg off v) else none

def start (paddr : BitVec 64) (regs : ℕ → BitVec 32) : Sys := ⟨paddr, regs, .idle, []⟩

/-- Every latched address is the mailbox, and the triggers are those of the run in which the
client never stores. -/
def Noninterfering (paddr : BitVec 64) (regs : ℕ → BitVec 32) (acts : List Act) (s : Sys) : Prop :=
  (∀ a ∈ s.latched, a = paddr.toNat) ∧
    ∃ t, run step (start paddr regs) (acts.filter Act.byKernel) = some t ∧ t.latched = s.latched

/-- A client store does not change the high half between the two writes of a submission. -/
def KeepsHigh (s : Sys) : Act → Prop
  | .clientStore _ off v =>
      s.pc = .highWritten → off = regMcDbLwrd → v = highHalf s.mcdiBufPaddr
  | _ => True

instance KeepsHigh.decidable (s : Sys) : (a : Act) → Decidable (KeepsHigh s a)
  | .clientStore _ off v => inferInstanceAs
      (Decidable (s.pc = .highWritten → off = regMcDbLwrd → v = highHalf s.mcdiBufPaddr))
  | .sendHigh => inferInstanceAs (Decidable True)
  | .sendLow => inferInstanceAs (Decidable True)

theorem latchAddr_halves (paddr : BitVec 64) :
    latchAddr (highHalf paddr) (lowHalf paddr) = paddr.toNat := by
  have hlt := paddr.isLt
  have hlow : paddr.toNat &&& 0xffffffff = paddr.toNat % 2 ^ 32 :=
    Nat.and_two_pow_sub_one_eq_mod _ 32
  simp only [latchAddr, highHalf, lowHalf, BitVec.toNat_setWidth, BitVec.toNat_ushiftRight,
    BitVec.toNat_and, BitVec.toNat_ofNat, Nat.shiftRight_eq_div_pow]
  rw [Nat.mod_eq_of_lt (a := 0xffffffff) (by decide), hlow]
  omega

/-- No writable slice reaches the trigger register. -/
theorem regSlices_spare_hwrd : ∀ slice ∈ regSlices, slice.readOnly = false →
    slice.offset + slice.length ≤ regMcDbHwrd ∨ regMcDbHwrd < slice.offset := by decide

theorem storeAllowed_ne_hwrd {slice : SliceDef} {off : ℕ} (hmem : slice ∈ regSlices)
    (hoff : storeAllowed slice off = true) : off ≠ regMcDbHwrd := by
  simp only [storeAllowed, Bool.and_eq_true, decide_eq_true_eq, Bool.not_eq_true'] at hoff
  obtain ⟨⟨hrw, hlo⟩, hhi⟩ := hoff
  have hspare := regSlices_spare_hwrd slice hmem hrw
  omega

structure Inv (paddr : BitVec 64) (s : Sys) : Prop where
  mailbox : s.mcdiBufPaddr = paddr
  high : s.pc = .highWritten → s.regs regMcDbLwrd = highHalf paddr
  latched : ∀ a ∈ s.latched, a = paddr.toNat

/-- Two states that differ only in registers the kernel rewrites before it uses them. -/
structure Alike (paddr : BitVec 64) (s s' : Sys) : Prop where
  inv : Inv paddr s
  inv' : Inv paddr s'
  pc : s'.pc = s.pc
  latched : s'.latched = s.latched

theorem Inv.sendHigh {paddr : BitVec 64} {s t : Sys} (h : Inv paddr s)
    (hstep : step s .sendHigh = some t) : Inv paddr t := by
  simp only [step] at hstep
  split at hstep
  next hpc =>
    obtain rfl := Option.some.inj hstep
    refine ⟨h.mailbox, fun _ => ?_, ?_⟩
    · simp [Sys.writeReg, h.mailbox]
    · simpa [Sys.writeReg, regMcDbLwrd, regMcDbHwrd] using h.latched
  next => cases hstep

theorem Inv.sendLow {paddr : BitVec 64} {s t : Sys} (h : Inv paddr s)
    (hstep : step s .sendLow = some t) : Inv paddr t := by
  simp only [step] at hstep
  split at hstep
  next => cases hstep
  next hpc =>
    obtain rfl := Option.some.inj hstep
    refine ⟨h.mailbox, fun hne => (by cases hne), fun a ha => ?_⟩
    rcases List.mem_append.mp ha with ha | ha
    · exact h.latched a ha
    · rw [if_pos rfl, h.high hpc, h.mailbox, latchAddr_halves] at ha
      exact List.mem_singleton.mp ha

theorem Inv.clientStore {paddr : BitVec 64} {s t : Sys} {slice : SliceDef} {off : ℕ}
    {v : BitVec 32} (h : Inv paddr s) (hkeeps : KeepsHigh s (.clientStore slice off v))
    (hstep : step s (.clientStore slice off v) = some t) :
    Inv paddr t ∧ t.pc = s.pc ∧ t.latched = s.latched := by
  simp only [step] at hstep
  split_ifs at hstep with hallowed
  obtain rfl := Option.some.inj hstep
  have hne := storeAllowed_ne_hwrd hallowed.1 hallowed.2
  have hlatched : (s.writeReg off v).latched = s.latched := by simp [Sys.writeReg, hne]
  refine ⟨⟨h.mailbox, fun hpc => ?_, hlatched ▸ h.latched⟩, rfl, hlatched⟩
  by_cases hoff : regMcDbLwrd = off
  · have hv := hkeeps hpc hoff.symm
    simp [Sys.writeReg, hoff, hv, h.mailbox]
  · simpa [Sys.writeReg, hoff] using h.high hpc

theorem Alike.visible {paddr : BitVec 64} {s s' t : Sys} {a : Act} (h : Alike paddr s s')
    (ha : a.byKernel = true) (hstep : step s a = some t) :
    ∃ t', step s' a = some t' ∧ Alike paddr t t' := by
  have hpc := h.pc
  cases a with
  | sendHigh =>
    have hinv := h.inv.sendHigh hstep
    simp only [step] at hstep
    split at hstep
    next hidle =>
      obtain rfl := Option.some.inj hstep
      have hstep' : step s' .sendHigh = some { s'.writeReg regMcDbLwrd (highHalf s'.mcdiBufPaddr)
          with pc := .highWritten } := by simp [step, hpc, hidle]
      exact ⟨_, hstep', hinv, h.inv'.sendHigh hstep', rfl,
        by simp [Sys.writeReg, regMcDbLwrd, regMcDbHwrd, h.latched]⟩
    next => cases hstep
  | sendLow =>
    have hinv := h.inv.sendLow hstep
    simp only [step] at hstep
    split at hstep
    next => cases hstep
    next hhigh =>
      obtain rfl := Option.some.inj hstep
      have hstep' : step s' .sendLow = some { s'.writeReg regMcDbHwrd (lowHalf s'.mcdiBufPaddr)
          with pc := .idle } := by simp [step, hpc, hhigh]
      refine ⟨_, hstep', hinv, h.inv'.sendLow hstep', rfl, ?_⟩
      simp only [Sys.writeReg, h.inv.high hhigh, h.inv'.high (hpc.trans hhigh), h.inv.mailbox,
        h.inv'.mailbox, h.latched]
  | clientStore slice off v => cases ha

theorem Alike.hidden {paddr : BitVec 64} {s s' t : Sys} {a : Act} (h : Alike paddr s s')
    (ha : a.byKernel = false) (hkeeps : KeepsHigh s a) (hstep : step s a = some t) :
    Alike paddr t s' := by
  cases a with
  | sendHigh => cases ha
  | sendLow => cases ha
  | clientStore slice off v =>
    obtain ⟨hinv, hpc, hlatched⟩ := h.inv.clientStore hkeeps hstep
    exact ⟨hinv, h.inv', h.pc.trans hpc.symm, h.latched.trans hlatched.symm⟩

/-- In every run in which no client store changes the high half while a submission is between
its two writes, the MC latches the mailbox and nothing else, and userspace might as well have
stored nothing. -/
theorem mc_latches_mailbox {paddr : BitVec 64} {regs : ℕ → BitVec 32} {acts : List Act} {s : Sys}
    (hkeeps : Along step KeepsHigh (start paddr regs) acts)
    (hrun : run step (start paddr regs) acts = some s) : Noninterfering paddr regs acts s := by
  have hinv : Inv paddr (start paddr regs) :=
    ⟨rfl, fun hpc => (by cases hpc), fun a ha => (by cases ha)⟩
  obtain ⟨t, ht, halike⟩ := run_filter (R := Alike paddr) (v := Act.byKernel)
    (fun _ _ _ _ h ha hstep => h.visible ha hstep)
    (fun _ _ _ _ h ha hk hstep => h.hidden ha hk hstep)
    ⟨hinv, hinv, rfl, rfl⟩ hkeeps hrun
  exact ⟨halike.inv.latched, t, ht, halike.latched⟩

/-- One store through `MC_DOORBELL` between the two writes points the MC elsewhere. -/
def redirected : List Act :=
  [.sendHigh, .clientStore ⟨regMcdb, "MC_DOORBELL", false, 4⟩ regMcdb 1, .sendLow]

theorem mc_redirected : ¬ ∀ (paddr : BitVec 64) (regs : ℕ → BitVec 32) (acts : List Act) (s : Sys),
    run step (start paddr regs) acts = some s → Noninterfering paddr regs acts s := by
  intro hall
  have hend : (run step (start 0x1000 fun _ => 0) redirected).map Sys.latched =
      some [0x100001000] := by decide +kernel
  obtain ⟨s, hs, hlatched⟩ := Option.map_eq_some_iff.mp hend
  have hmailbox := (hall 0x1000 _ redirected s hs).1 0x100001000 (by simp [hlatched])
  exact absurd hmailbox (by decide)

/-- Stores outside a submission, and doorbell traffic of the data path inside one. -/
def harmless : List Act :=
  [.clientStore ⟨regMcdb, "MC_DOORBELL", false, 4⟩ regMcdb 7, .sendHigh,
   .clientStore ⟨regDataTxDescDbl, "TX_DESC_DBL", false, 12⟩ regDataTxWptrDbl 3, .sendLow]

theorem mc_latches_mailbox_harmless :
    ∃ s, run step (start 0x2300001000 fun _ => 0) harmless = some s ∧
      s.latched = [0x2300001000] ∧
      Noninterfering 0x2300001000 (fun _ => 0) harmless s := by
  have hend : (run step (start 0x2300001000 fun _ => 0) harmless).map Sys.latched =
      some [0x2300001000] := by decide +kernel
  obtain ⟨s, hs, hlatched⟩ := Option.map_eq_some_iff.mp hend
  exact ⟨s, hs, hlatched, mc_latches_mailbox (by decide +kernel) hs⟩

end Sfc7120.Doorbell

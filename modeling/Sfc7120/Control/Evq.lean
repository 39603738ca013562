import Sfc7120.Lib.Machine
import Sfc7120.DataPath.User

/-! The control event queue during attach: the NIC writes events to EVQ 0, the interrupt handler
takes them under the softc lock, and the attach thread goes on without the lock through the
steps that follow `INIT_EVQ(0)`. -/
namespace Sfc7120.ControlEvq

open RingQueue Machine

structure LinkState where
  linkUp : Bool
  fullDuplex : Bool
  linkSpeedMbps : ℕ
  linkFcntl : BitVec 32
  deriving DecidableEq

def linkchangeSpeedMbps (code : BitVec 32) : ℕ :=
  match code.toNat with
  | 1 => 100
  | 2 => 1000
  | 3 => 10000
  | 4 => 40000
  | 5 => 25000
  | 6 => 50000
  | 7 => 100000
  | _ => 0

def evCodeMcdi : BitVec 32 := 12
def mcdiEvLinkchange : BitVec 32 := 0x4

/-- What the handler does with one event before it consumes it: an MCDI `LINKCHANGE` sets the
link state, everything else is only logged. -/
def handleEv (link : LinkState) (ev : Word) : LinkState :=
  let lo : BitVec 32 := (ev &&& 0xffffffff#64).setWidth 32
  let hi : BitVec 32 := (ev >>> 32).setWidth 32
  if (hi >>> 28) &&& 0xf#32 = evCodeMcdi ∧ (hi >>> 12) &&& 0xff#32 = mcdiEvLinkchange then
    let flags := (lo >>> 24) &&& 0xff#32
    { linkUp := flags &&& 1#32 != 0#32
      fullDuplex := flags &&& 2#32 != 0#32
      linkSpeedMbps := linkchangeSpeedMbps ((lo >>> 16) &&& 0xf#32)
      linkFcntl := (lo >>> 20) &&& 0xf#32 }
  else link

/-- Where the handler is. `entry` is the number of events written when it passed its latch. -/
inductive Isr where
  | idle
  | loop (entry processed : ℕ)
  | handled (entry processed : ℕ) (ev : Word)
  | cleared (entry processed : ℕ) (ev : Word)
  | leave (entry processed : ℕ)
  deriving DecidableEq

def Isr.entry : Isr → ℕ
  | .idle => 0
  | .loop e _ => e
  | .handled e _ _ => e
  | .cleared e _ _ => e
  | .leave e _ => e

def Isr.processed : Isr → ℕ
  | .idle => 0
  | .loop _ p => p
  | .handled _ p _ => p
  | .cleared _ p _ => p
  | .leave _ p => p

/-- The event read and not yet counted as consumed. -/
def Isr.inHand : Isr → List Word
  | .handled _ _ ev => [ev]
  | .cleared _ _ ev => [ev]
  | _ => []

/-- Slots emptied ahead of the read pointer. -/
def Isr.freed : Isr → ℕ
  | .cleared .. => 1
  | _ => 0

/-- What attach still does once `sfc7120_mcdi_init_evq` has returned for EVQ 0. The last part of
that function stores to the softc whatever the instance. -/
inductive AttachStep where
  | setEvqInitialized
  | initEvqExec (inst : ℕ)
  | initEvqReadPtr (inst : ℕ)
  | initEvqInitialized (inst : ℕ)
  | setDataEvqInitialized
  | initRxq
  | postRxBuffers
  | initTxq
  | filterInsert
  deriving DecidableEq

def attachRest : List AttachStep :=
  [.setEvqInitialized, .initEvqExec 1, .initEvqReadPtr 1, .initEvqInitialized 1,
   .setDataEvqInitialized, .initRxq, .postRxBuffers, .initTxq, .filterInsert]

structure Sys where
  evqRing : ℕ → Word
  evqReadPtr : ℕ
  evqInitialized : Bool
  dataEvqInitialized : Bool
  dying : Bool
  link : LinkState
  /-- Events the NIC has written to EVQ 0. -/
  evLog : List Word
  acked : ℕ
  attach : List AttachStep
  isr : Isr
  /-- Events the handler has consumed since `INIT_EVQ(0)`, in order. -/
  consumed : List Word

inductive Act where
  | nicEvent (ev : Word)
  | interrupt
  | isrRead
  | isrClear
  | isrAdvance
  | isrReturn
  | attachStep
  deriving DecidableEq

def attachStep (s : Sys) : AttachStep → Sys
  | .initEvqReadPtr _ => { s with evqReadPtr := 0 }
  | .setEvqInitialized => { s with evqInitialized := true }
  | .initEvqInitialized _ => { s with evqInitialized := true }
  | .setDataEvqInitialized => { s with dataEvqInitialized := true }
  -- MCDI commands and the RX ring do not touch the control queue's fields
  | .initEvqExec _ => s
  | .initRxq => s
  | .postRxBuffers => s
  | .initTxq => s
  | .filterInsert => s

def step (s : Sys) : Act → Option Sys
  | .nicEvent ev =>
      if evEmpty ev = false ∧ s.evLog.length - s.acked < numEvqEntry then
        some { s with
          evqRing := Function.update s.evqRing (s.evLog.length % numEvqEntry) ev
          evLog := s.evLog ++ [ev] }
      else none
  | .interrupt =>
      match s.isr with
      | .idle =>
          if s.dying || !s.evqInitialized then some s
          else some { s with isr := .loop s.evLog.length 0 }
      | _ => none
  | .isrRead =>
      match s.isr with
      | .loop entry processed =>
          let ev := s.evqRing s.evqReadPtr
          if evEmpty ev then some { s with isr := .leave entry processed }
          else some { s with link := handleEv s.link ev, isr := .handled entry processed ev }
      | _ => none
  | .isrClear =>
      match s.isr with
      | .handled entry processed ev =>
          some { s with
            evqRing := Function.update s.evqRing s.evqReadPtr 0
            isr := .cleared entry processed ev }
      | _ => none
  | .isrAdvance =>
      match s.isr with
      | .cleared entry processed ev =>
          some { s with
            evqReadPtr := (s.evqReadPtr + 1) &&& (numEvqEntry - 1)
            consumed := s.consumed ++ [ev]
            isr := if numEvqEntry ≤ processed + 1 then .leave entry (processed + 1)
              else .loop entry (processed + 1) }
      | _ => none
  | .isrReturn =>
      match s.isr with
      | .leave _ processed =>
          some { s with
            acked := if 0 < processed then
                s.evLog.length - unacked s.evLog.length
                  (BitVec.ofNat 32 (s.evqReadPtr &&& evqRptrMask))
              else s.acked
            isr := .idle }
      | _ => none
  | .attachStep =>
      match s.attach with
      | [] => none
      | a :: rest => some { attachStep s a with attach := rest }

/-- `INIT_EVQ(0)` has returned; the NIC may already have written some events. -/
def start (link : LinkState) (evs : List Word) : Sys where
  evqRing j := evs.getD j 0xffffffffffffffff#64
  evqReadPtr := 0
  evqInitialized := true
  dataEvqInitialized := false
  dying := false
  link := link
  evLog := evs
  acked := 0
  attach := attachRest
  isr := .idle
  consumed := []

/-- The queue has not lost its place: the read pointer counts the events consumed, the oldest
unconsumed one is in its slot, the events consumed are the first ones written, and a handler
that leaves has consumed every event that was there when it came. -/
structure InPlace (s : Sys) : Prop where
  readPtr : s.evqReadPtr = s.consumed.length % numEvqEntry
  oldest : (∀ entry processed ev, s.isr ≠ .cleared entry processed ev) →
    ∀ ev, s.evLog[s.consumed.length]? = some ev → s.evqRing s.evqReadPtr = ev
  order : s.consumed <+: s.evLog
  drained : ∀ entry processed, s.isr = .leave entry processed → entry ≤ s.consumed.length

/-- The bookkeeping of `INIT_EVQ(1)` finds the control queue's read pointer still at zero. -/
def ResetHarmless (s : Sys) (a : Act) : Prop :=
  a = .attachStep → s.attach.head? = some (.initEvqReadPtr 1) → s.evqReadPtr = 0

instance ResetHarmless.decidable (s : Sys) (a : Act) : Decidable (ResetHarmless s a) :=
  inferInstanceAs (Decidable (a = .attachStep →
    s.attach.head? = some (.initEvqReadPtr 1) → s.evqReadPtr = 0))

structure Inv (link : LinkState) (s : Sys) : Prop where
  readPtr : s.evqReadPtr = s.consumed.length % numEvqEntry
  armed : s.evqInitialized = true
  alive : s.dying = false
  present : ∀ ev ∈ s.evLog, evEmpty ev = false
  order : s.consumed ++ s.isr.inHand <+: s.evLog
  ring : Holds numEvqEntry (fun ev => evEmpty ev = true) s.evqRing s.evLog
    (s.consumed.length + s.isr.freed)
  polled : s.acked + s.isr.processed = s.consumed.length
  room : s.evLog.length ≤ s.acked + numEvqEntry
  entry : s.isr.entry ≤ s.evLog.length ∧ s.isr.entry ≤ s.acked + numEvqEntry
  drained : ∀ entry processed, s.isr = .leave entry processed → entry ≤ s.consumed.length
  link : s.link = (s.consumed ++ s.isr.inHand).foldl handleEv link
  rest : s.attach <:+ attachRest

theorem inv_start (link : LinkState) {evs : List Word} (hlen : evs.length ≤ numEvqEntry)
    (hevs : ∀ ev ∈ evs, evEmpty ev = false) : Inv link (start link evs) where
  readPtr := rfl
  armed := rfl
  alive := rfl
  present := hevs
  order := List.nil_prefix
  ring := Holds.initList (by decide) hlen
  polled := rfl
  room := by simpa [start] using hlen
  entry := ⟨Nat.zero_le _, Nat.zero_le _⟩
  drained _ _ h := by cases h
  link := rfl
  rest := List.suffix_refl _

section
variable {link : LinkState} {s t : Sys}

theorem Inv.nicEvent (h : Inv link s) {ev : Word} (hstep : step s (.nicEvent ev) = some t) :
    Inv link t := by
  simp only [step] at hstep
  split_ifs at hstep with hpost
  obtain rfl := Option.some.inj hstep
  have hpolled := h.polled
  have hroom : s.evLog.length < s.acked + numEvqEntry := by
    have : 0 < numEvqEntry := by decide
    omega
  have hgrow : s.evLog <+: s.evLog ++ [ev] := List.prefix_append _ _
  refine ⟨h.readPtr, h.armed, h.alive, ?_, h.order.trans hgrow, h.ring.push (by omega) ev,
    hpolled, ?_, ⟨h.entry.1.trans hgrow.length_le, h.entry.2⟩, h.drained, h.link, h.rest⟩
  · intro e he
    rcases List.mem_append.mp he with he | he
    · exact h.present e he
    · rw [List.mem_singleton.mp he]
      exact hpost.1
  · simp only [List.length_append, List.length_singleton]
    omega

theorem Inv.interrupt (h : Inv link s) (hstep : step s .interrupt = some t) : Inv link t := by
  simp only [step] at hstep
  split at hstep
  next hidle =>
    rw [if_neg (by simp [h.armed, h.alive])] at hstep
    obtain rfl := Option.some.inj hstep
    have horder := h.order
    have hring := h.ring
    have hpolled := h.polled
    have hlink := h.link
    rw [hidle] at horder hring hpolled hlink
    exact ⟨h.readPtr, h.armed, h.alive, h.present, horder, hring, hpolled, h.room,
      ⟨le_rfl, h.room⟩, fun _ _ hne => (by cases hne), hlink, h.rest⟩
  next => cases hstep

/-- What the handler finds at the read pointer is the oldest unconsumed event or nothing. -/
theorem Inv.isrRead (h : Inv link s) (hstep : step s .isrRead = some t) : Inv link t := by
  simp only [step] at hstep
  split at hstep
  next entry processed hloop =>
    have horder := h.order
    have hring := h.ring
    have hpolled := h.polled
    have hlink := h.link
    have hentry := h.entry
    rw [hloop] at horder hring hpolled hlink hentry
    simp only [Isr.inHand, List.append_nil, Isr.freed, Nat.add_zero] at horder hring hlink
    have hiff := hring.not_empty_iff (by decide) fun ev hev => by simp [h.present ev hev]
    rw [← h.readPtr] at hiff
    split_ifs at hstep with hempty
    · obtain rfl := Option.some.inj hstep
      have hall : s.evLog.length ≤ s.consumed.length := by
        by_contra hlt
        exact hiff.mpr (by omega) hempty
      refine ⟨h.readPtr, h.armed, h.alive, h.present, by simpa [Isr.inHand] using horder, hring,
        hpolled, h.room, hentry, ?_, by simpa [Isr.inHand] using hlink, h.rest⟩
      intro e p heq
      obtain ⟨rfl, rfl⟩ : entry = e ∧ processed = p := by simpa using heq
      exact hentry.1.trans hall
    · obtain rfl := Option.some.inj hstep
      have hlt := hiff.mp hempty
      have hword : s.evqRing s.evqReadPtr = s.evLog[s.consumed.length] := by
        rw [h.readPtr]
        exact hring.head_eq hlt
      refine ⟨h.readPtr, h.armed, h.alive, h.present, ?_, hring, hpolled, h.room, hentry,
        fun _ _ hne => (by cases hne), ?_, h.rest⟩
      · show s.consumed ++ [s.evqRing s.evqReadPtr] <+: s.evLog
        rw [hword, prefix_snoc_iff]
        exact ⟨horder, List.getElem?_eq_getElem hlt⟩
      · show handleEv s.link (s.evqRing s.evqReadPtr) = _
        rw [hlink, Isr.inHand, List.foldl_append]
        rfl
  next => cases hstep

theorem Inv.isrClear (h : Inv link s) (hstep : step s .isrClear = some t) : Inv link t := by
  simp only [step] at hstep
  split at hstep
  next entry processed ev hhandled =>
    obtain rfl := Option.some.inj hstep
    have horder := h.order
    have hring := h.ring
    have hpolled := h.polled
    have hlink := h.link
    have hentry := h.entry
    rw [hhandled] at horder hring hpolled hlink hentry
    have hlt : s.consumed.length < s.evLog.length := by
      have hle := horder.length_le
      simp only [Isr.inHand, List.length_append, List.length_singleton] at hle
      exact hle
    refine ⟨h.readPtr, h.armed, h.alive, h.present, horder, ?_, hpolled, h.room, hentry,
      fun _ _ hne => (by cases hne), hlink, h.rest⟩
    show Holds _ _ (Function.update s.evqRing s.evqReadPtr 0) s.evLog (s.consumed.length + 1)
    rw [h.readPtr]
    exact hring.pop hlt (by decide)
  next => cases hstep

theorem Inv.isrAdvance (h : Inv link s) (hstep : step s .isrAdvance = some t) : Inv link t := by
  simp only [step] at hstep
  split at hstep
  next entry processed ev hcleared =>
    obtain rfl := Option.some.inj hstep
    have horder := h.order
    have hring := h.ring
    have hpolled := h.polled
    have hlink := h.link
    have hentry := h.entry
    rw [hcleared] at horder hring hpolled hlink hentry
    have hlen : (s.consumed ++ [ev]).length = s.consumed.length + 1 := by simp
    simp only [Isr.processed] at hpolled
    refine ⟨?_, h.armed, h.alive, h.present, ?_, ?_, ?_, h.room, ?_, ?_, ?_, h.rest⟩
    · rw [hlen]
      show (s.evqReadPtr + 1) &&& (numEvqEntry - 1) = (s.consumed.length + 1) % numEvqEntry
      rw [and_ringMask, h.readPtr]
      exact Nat.mod_add_mod _ _ _
    · split_ifs <;> simpa [Isr.inHand] using horder
    · rw [hlen]
      split_ifs <;> exact hring
    · rw [hlen]
      split_ifs <;> simp only [Isr.processed] <;> omega
    · split_ifs <;> exact hentry
    · intro e p heq
      split_ifs at heq with hfull
      obtain ⟨rfl, -⟩ : entry = e ∧ _ := by simpa using heq
      have hle : entry ≤ s.acked + numEvqEntry := hentry.2
      show entry ≤ (s.consumed ++ [ev]).length
      omega
    · split_ifs <;> simpa [Isr.inHand] using hlink
  next => cases hstep

theorem Inv.isrReturn (h : Inv link s) (hstep : step s .isrReturn = some t) : Inv link t := by
  simp only [step] at hstep
  split at hstep
  next entry processed hleave =>
    obtain rfl := Option.some.inj hstep
    have horder := h.order
    have hring := h.ring
    have hpolled := h.polled
    have hlink := h.link
    rw [hleave] at horder hring hpolled hlink
    simp only [Isr.processed] at hpolled
    have hle := hring.read_le
    simp only [Isr.freed, Nat.add_zero] at hle
    have hroom := h.room
    have hacked : (if 0 < processed then s.evLog.length - unacked s.evLog.length
        (BitVec.ofNat 32 (s.evqReadPtr &&& evqRptrMask)) else s.acked) = s.consumed.length := by
      split_ifs with hpos
      · rw [h.readPtr, and_rptrMask (Nat.mod_lt _ (by decide)), unacked_eq hle (by omega)]
        omega
      · omega
    refine ⟨h.readPtr, h.armed, h.alive, h.present, horder, hring, hacked, ?_,
      ⟨Nat.zero_le _, Nat.zero_le _⟩, fun _ _ hne => (by cases hne), hlink, h.rest⟩
    simp only [hacked]
    omega
  next => cases hstep

/-- The only attach step that writes the read pointer is `INIT_EVQ(1)`'s, and it changes nothing
when the pointer is still zero. -/
theorem Inv.attachStep (h : Inv link s) (hreset : ResetHarmless s .attachStep)
    (hstep : step s .attachStep = some t) : Inv link t := by
  simp only [step] at hstep
  split at hstep
  next => cases hstep
  next a rest hattach =>
    obtain rfl := Option.some.inj hstep
    have hsuffix := h.rest
    rw [hattach] at hsuffix
    have hrest : rest <:+ attachRest := (List.suffix_cons a rest).trans hsuffix
    have hmem : a ∈ attachRest := hsuffix.subset (List.mem_cons_self ..)
    have hptr : ∀ inst, a = .initEvqReadPtr inst → s.evqReadPtr = 0 := by
      rintro inst rfl
      obtain rfl : inst = 1 := by simpa [attachRest] using hmem
      exact hreset rfl (by rw [hattach]; rfl)
    cases a with
    | initEvqReadPtr inst =>
      have hzero := hptr inst rfl
      exact { h with readPtr := hzero.symm.trans h.readPtr, rest := hrest }
    | setEvqInitialized => exact { h with armed := rfl, rest := hrest }
    | initEvqInitialized inst => exact { h with armed := rfl, rest := hrest }
    | _ => exact { h with rest := hrest }

theorem Inv.step {a : Act} (h : Inv link s) (hreset : ResetHarmless s a)
    (hstep : step s a = some t) : Inv link t := by
  cases a with
  | nicEvent ev => exact h.nicEvent hstep
  | interrupt => exact h.interrupt hstep
  | isrRead => exact h.isrRead hstep
  | isrClear => exact h.isrClear hstep
  | isrAdvance => exact h.isrAdvance hstep
  | isrReturn => exact h.isrReturn hstep
  | attachStep => exact h.attachStep hreset hstep

theorem Inv.inPlace (h : Inv link s) : InPlace s where
  readPtr := h.readPtr
  oldest hcleared ev hev := by
    have hring := h.ring
    have hfreed : s.isr.freed = 0 := by
      cases hisr : s.isr with
      | cleared e p w => exact absurd hisr (hcleared e p w)
      | _ => rfl
    rw [hfreed, Nat.add_zero] at hring
    obtain ⟨hlt, rfl⟩ := List.getElem?_eq_some_iff.mp hev
    rw [h.readPtr]
    exact hring.head_eq hlt
  order := (List.prefix_append _ _).trans h.order
  drained := h.drained

theorem inv_run {evs : List Word} {acts : List Act} (hlen : evs.length ≤ numEvqEntry)
    (hevs : ∀ ev ∈ evs, evEmpty ev = false)
    (hreset : Along step ResetHarmless (start link evs) acts)
    (hrun : run step (start link evs) acts = some s) : Inv link s :=
  run_invariant_along (fun _ _ _ h hP hstep => h.step hP hstep) (inv_start link hlen hevs) hreset
    hrun

/-- Between handler runs the link state is what the consumed events say. -/
theorem link_follows_consumed {evs : List Word} {acts : List Act} (hlen : evs.length ≤ numEvqEntry)
    (hevs : ∀ ev ∈ evs, evEmpty ev = false)
    (hreset : Along step ResetHarmless (start link evs) acts)
    (hrun : run step (start link evs) acts = some s) (hidle : s.isr = .idle) :
    s.link = s.consumed.foldl handleEv link := by
  have hlink := (inv_run hlen hevs hreset hrun).link
  simpa [hidle, Isr.inHand] using hlink

end

/-- In every run of attach, NIC and handler in which `INIT_EVQ(1)` stores its zero while the
control queue's read pointer is zero, the control queue never loses its place. -/
theorem control_evq_in_place {link : LinkState} {evs : List Word} {acts : List Act} {s : Sys}
    (hlen : evs.length ≤ numEvqEntry) (hevs : ∀ ev ∈ evs, evEmpty ev = false)
    (hreset : Along step ResetHarmless (start link evs) acts)
    (hrun : run step (start link evs) acts = some s) : InPlace s :=
  (inv_run hlen hevs hreset hrun).inPlace

/-- One handler run over one event. -/
def takeOne (ev : Word) : List Act :=
  [.nicEvent ev, .interrupt, .isrRead, .isrClear, .isrAdvance, .isrRead, .isrReturn]

def linkDown : LinkState := ⟨false, false, 0, 0⟩

/-- An event is consumed before `INIT_EVQ(1)`, which then moves the read pointer back. -/
theorem control_evq_displaced : ¬ ∀ (link : LinkState) (evs : List Word) (acts : List Act)
    (s : Sys), evs.length ≤ numEvqEntry → (∀ ev ∈ evs, evEmpty ev = false) →
      run step (start link evs) acts = some s → InPlace s := by
  intro hall
  have hend : (run step (start linkDown [])
      (takeOne 0xc000400001030000 ++ [.attachStep, .attachStep, .attachStep])).map
      (fun s => (s.evqReadPtr, s.consumed.length)) = some (0, 1) := by decide +kernel
  obtain ⟨s, hs, hd⟩ := Option.map_eq_some_iff.mp hend
  obtain ⟨hptr, hcount⟩ : s.evqReadPtr = 0 ∧ s.consumed.length = 1 := by simpa using hd
  have hplace := (hall _ [] _ s (Nat.zero_le _) (by simp) hs).readPtr
  rw [hptr, hcount] at hplace
  exact absurd hplace (by decide)

/-- The same event after `INIT_EVQ(1)`. -/
theorem control_evq_in_place_after_reset :
    ∃ s, run step (start linkDown [])
        ([.attachStep, .attachStep, .attachStep] ++ takeOne 0xc000400001030000) = some s ∧
      s.consumed = [0xc000400001030000] ∧ s.link.linkUp = true ∧ InPlace s := by
  have hend : (run step (start linkDown [])
      ([.attachStep, .attachStep, .attachStep] ++ takeOne 0xc000400001030000)).map
      (fun s => (s.consumed, s.link.linkUp)) = some ([0xc000400001030000], true) := by
    decide +kernel
  obtain ⟨s, hs, hd⟩ := Option.map_eq_some_iff.mp hend
  obtain ⟨hconsumed, hlink⟩ : s.consumed = _ ∧ s.link.linkUp = true := by simpa using hd
  exact ⟨s, hs, hconsumed, hlink,
    control_evq_in_place (Nat.zero_le _) (by simp) (by decide +kernel) hs⟩

end Sfc7120.ControlEvq

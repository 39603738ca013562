import Sfc7120.Lib.Machine
import Sfc7120.Mcdi.Exec

/-! Many `sfc7120_mcdi_exec` calls against an MC that may answer late. The driver's mailbox
stores, its doorbell and its polls are separate steps, and a whole answer frame can land between
any two of them. -/
namespace Sfc7120.Mcdi.Transport

open BitFields ByteMemory Machine

structure Call where
  cmd : BitVec 32
  inp : List Byte
  out : List Byte
  deriving DecidableEq

def Call.v2 (c : Call) : Bool := useV2 c.cmd c.inp.length

/-- Where the call that holds `mcdi_mtx` is. `writes` are the mailbox stores still to be made
before the doorbell. -/
inductive Pc where
  | idle
  | locked (c : Call)
  | sending (c : Call) (writes : List (ℕ × BitVec 32))
  | polling (c : Call) (b : Backoff)

structure Sys where
  sc : Softc
  pc : Pc
  /-- Every command whose header was put into the mailbox, with that header, in order. -/
  commands : List (Call × BitVec 32)
  /-- Commands whose doorbell was rung. -/
  rung : ℕ
  /-- Answers the MC has written: the number of the command and the response. -/
  answers : List (ℕ × Response)
  /-- Responses `exec` acted on: the command's number, the mailbox it read, its result. -/
  accepted : List (ℕ × Mailbox × ExecResult)

inductive Act where
  | call (c : Call)
  | storeHeader
  | store
  | doorbell
  | poll
  | mcAnswer (n : ℕ) (r : Response)
  deriving DecidableEq

/-- The MC may still write this answer to command `n`: its doorbell was rung, fewer than 16
commands were posted after it, and the frame echoes its sequence number in its framing. -/
def canAnswer (s : Sys) (n : ℕ) (r : Response) : Bool :=
  match s.commands[n]? with
  | none => false
  | some (c, hdr) =>
      decide (n < s.rung) && decide (s.commands.length ≤ n + 16) && r.answers c.v2 (hdrSeq hdr)

def step (s : Sys) : Act → Option Sys
  | .call c =>
      match s.pc with
      | .idle =>
          match execAccepts s.sc c.inp c.out with
          | some _ => some s
          | none => some { s with pc := .locked c }
      | _ => none
  | .storeHeader =>
      match s.pc with
      | .locked c =>
          match sendWrites c.cmd c.inp s.sc.seq s.sc.mcdiNewEpoch with
          | [] => none
          | w :: ws =>
              some { s with
                sc := { s.sc with mcdiBuf := storeDword s.sc.mcdiBuf w }
                pc := .sending c ws
                commands := s.commands ++ [(c, w.2)] }
      | _ => none
  | .store =>
      match s.pc with
      | .sending c (w :: ws) =>
          some { s with
            sc := { s.sc with mcdiBuf := storeDword s.sc.mcdiBuf w }, pc := .sending c ws }
      | _ => none
  | .doorbell =>
      match s.pc with
      | .sending c [] => some { s with pc := .polling c Backoff.first, rung := s.rung + 1 }
      | _ => none
  | .poll =>
      match s.pc with
      | .polling c b =>
          let m := s.sc.mcdiBuf
          if pollResponse m then
            let result := readResponse m (payloadOff c.cmd c.inp.length) s.sc.seq c.out
            some { s with
              sc := s.sc.advance m
              pc := .idle
              accepted := s.accepted ++
                if hdrSeq (readDword m 0) = s.sc.seq.setWidth 32 then
                  [(s.commands.length - 1, m, result)] else [] }
          else if b.expired then some { s with sc := s.sc.advance m, pc := .idle }
          else some { s with pc := .polling c b.next }
      | _ => none
  | .mcAnswer n r =>
      match s.commands[n]? with
      | none => none
      | some (c, _) =>
          if canAnswer s n r then
            some { s with
              sc := { s.sc with mcdiBuf := writeBytes s.sc.mcdiBuf 0 (r.frame c.v2) }
              answers := s.answers ++ [(n, r)] }
          else none

/-- What `sfc7120_mcdi_init` leaves: a zeroed mailbox, sequence number 0, a new epoch. -/
def start : Sys where
  sc := ⟨true, 0, true, fun _ => 0⟩
  pc := .idle
  commands := []
  rung := 0
  answers := []
  accepted := []

/-- Command `n` carries sequence number `n` modulo 16 and starts the epoch only when it is the
first; and what `exec` acts on is the MC's answer to the very command it sent. -/
structure Fresh (s : Sys) : Prop where
  header : ∀ n c hdr, s.commands[n]? = some (c, hdr) →
    (hdrSeq hdr).toNat = n % 16 ∧ (hdrNotEpoch hdr = 0 ↔ n = 0)
  answer : ∀ n m result, (n, m, result) ∈ s.accepted →
    ∃ c hdr r, s.commands[n]? = some (c, hdr) ∧ (n, r) ∈ s.answers ∧
      readBytes m 0 (r.frame c.v2).length = r.frame c.v2 ∧ result = r.result c.out

/-- One while the last command's exec has not returned. -/
def Pc.inFlight : Pc → ℕ
  | .sending .. => 1
  | .polling .. => 1
  | _ => 0

/-- One while the last command's doorbell was not rung. -/
def Pc.unrung : Pc → ℕ
  | .sending .. => 1
  | _ => 0

def Pc.call : Pc → Option Call
  | .sending c _ => some c
  | .polling c _ => some c
  | _ => none

def Pc.writes : Pc → List (ℕ × BitVec 32)
  | .sending _ ws => ws
  | _ => []

structure Inv (s : Sys) : Prop where
  fresh : Fresh s
  seqLt : s.sc.mcdiSeq.toNat < 16
  seq : (s.sc.mcdiSeq.toNat + s.pc.inFlight) % 16 = s.commands.length % 16
  epoch : s.sc.mcdiNewEpoch = true ↔ s.commands.length = s.pc.inFlight
  rung : s.rung + s.pc.unrung = s.commands.length
  last : ∀ c, s.pc.call = some c → ∃ hdr, s.commands[s.commands.length - 1]? = some (c, hdr) ∧
    0 < s.commands.length
  body : ∀ w ∈ s.pc.writes, 4 ≤ w.1
  /-- A response in the mailbox is some recent answer, and the newest one is there in full. -/
  mailbox : pollResponse s.sc.mcdiBuf = true → ∃ n c hdr r m, s.commands[n]? = some (c, hdr) ∧
    (n, r) ∈ s.answers ∧ n < s.rung ∧ s.commands.length ≤ n + 16 ∧
    r.answers c.v2 (hdrSeq hdr) = true ∧ readDword s.sc.mcdiBuf 0 = r.hdr ∧
    (n + 1 = s.commands.length → s.sc.mcdiBuf = writeBytes m 0 (r.frame c.v2))

theorem inv_start : Inv start where
  fresh := ⟨by simp [start], by simp [start]⟩
  seqLt := by decide
  seq := rfl
  epoch := by simp [start, Pc.inFlight]
  rung := rfl
  last c hc := by cases hc
  body w hw := by cases hw
  mailbox h := absurd h (by decide)

theorem seq_toNat {sc : Softc} (h : sc.mcdiSeq.toNat < 16) : sc.seq.toNat = sc.mcdiSeq.toNat := by
  have hmask := toNat_and_mask (x := sc.mcdiSeq) (n := 4) (by decide)
  exact hmask.trans (Nat.mod_eq_of_lt h)

theorem advance_seq_toNat (sc : Softc) (m : Mailbox) :
    (sc.advance m).mcdiSeq.toNat = (sc.mcdiSeq.toNat + 1) % 16 := by
  have hmask := toNat_and_mask (x := sc.mcdiSeq + 1) (n := 4) (by decide)
  rw [BitVec.toNat_add] at hmask
  refine hmask.trans ?_
  show (sc.mcdiSeq.toNat + 1) % 2 ^ 8 % 2 ^ 4 = _
  omega

theorem bufWritePayload_off (off : ℕ) (bs : List Byte) :
    ∀ w ∈ bufWritePayload off bs, off ≤ w.1 := by
  induction off, bs using bufWritePayload.induct with
  | case1 off => simp [bufWritePayload]
  | case2 off a b c d rest ih =>
    intro w hw
    rcases List.mem_cons.mp hw with rfl | hw
    · exact le_rfl
    · exact (Nat.le_add_right off 4).trans (ih w hw)
  | case3 off tail hne hshort =>
    intro w hw
    rw [bufWritePayload] at hw
    · rw [List.mem_singleton.mp hw]
    all_goals assumption

/-- After the header, a send stores only behind it. -/
theorem sendWrites_eq (cmd : BitVec 32) (inp : List Byte) (seq : BitVec 8) (newEpoch : Bool) :
    ∃ ws, sendWrites cmd inp seq newEpoch = (0, v1Hdr cmd inp.length seq newEpoch) :: ws ∧
      ∀ w ∈ ws, 4 ≤ w.1 := by
  refine ⟨_, rfl, fun w hw => ?_⟩
  rcases List.mem_append.mp hw with hw | hw
  · split_ifs at hw
    · rw [List.mem_singleton.mp hw]
      exact le_rfl
    · cases hw
  · refine le_trans ?_ (bufWritePayload_off _ _ w hw)
    unfold payloadOff
    split <;> decide

section
variable {s t : Sys}

theorem Inv.call (h : Inv s) {c : Call} (hstep : step s (.call c) = some t) : Inv t := by
  simp only [step] at hstep
  split at hstep
  next hidle =>
    split at hstep
    next => exact Option.some.inj hstep ▸ h
    next =>
      obtain rfl := Option.some.inj hstep
      have hseq := h.seq
      have hepoch := h.epoch
      have hrung := h.rung
      rw [hidle] at hseq hepoch hrung
      exact ⟨⟨h.fresh.header, h.fresh.answer⟩, h.seqLt, hseq, hepoch, hrung,
        fun c hc => (by cases hc), fun w hw => (by cases hw), h.mailbox⟩
  next => cases hstep

/-- The next command's header: its sequence number is the count of commands before it. -/
theorem Inv.nextHeader (h : Inv s) (hflight : s.pc.inFlight = 0) (cmd : BitVec 32) (inLen : ℕ) :
    (hdrSeq (v1Hdr cmd inLen s.sc.seq s.sc.mcdiNewEpoch)).toNat = s.commands.length % 16 ∧
      (hdrNotEpoch (v1Hdr cmd inLen s.sc.seq s.sc.mcdiNewEpoch) = 0 ↔
        s.commands.length = 0) := by
  have hlt := h.seqLt
  have hseq := h.seq
  have hepoch := h.epoch
  rw [hflight] at hseq hepoch
  constructor
  · rw [hdrSeq_v1Hdr, toNat_and_mask (by decide), BitVec.toNat_setWidth, seq_toNat hlt]
    omega
  · rw [hdrNotEpoch_v1Hdr, ← hepoch]
    cases s.sc.mcdiNewEpoch <;> decide

theorem Inv.storeHeader (h : Inv s) (hstep : step s .storeHeader = some t) : Inv t := by
  simp only [step] at hstep
  split at hstep
  next c hlocked =>
    obtain ⟨ws, hws, hbody⟩ := sendWrites_eq c.cmd c.inp s.sc.seq s.sc.mcdiNewEpoch
    rw [hws] at hstep
    obtain rfl := Option.some.inj hstep
    have hflight : s.pc.inFlight = 0 := by rw [hlocked]; rfl
    have hhdr := h.nextHeader hflight c.cmd c.inp.length
    have hseq := h.seq
    have hepoch := h.epoch
    have hrung := h.rung
    rw [hlocked] at hseq hepoch hrung
    have hkeep : ∀ {n : ℕ} {x : Call × BitVec 32} (y : Call × BitVec 32),
        s.commands[n]? = some x → (s.commands ++ [y])[n]? = some x := by
      intro n x y hn
      rw [List.getElem?_append_left (List.getElem?_eq_some_iff.mp hn).1]
      exact hn
    refine ⟨⟨?_, ?_⟩, h.seqLt, ?_, ?_, ?_, ?_, hbody, ?_⟩
    · intro n d hdr hn
      rcases Nat.lt_or_ge n s.commands.length with hlt | hge
      · rw [List.getElem?_append_left hlt] at hn
        exact h.fresh.header n d hdr hn
      · rw [List.getElem?_append_right hge] at hn
        obtain ⟨hzero, hlast⟩ := List.getElem?_eq_some_iff.mp hn
        simp only [List.length_singleton] at hzero
        obtain rfl : n = s.commands.length := by omega
        simp only [List.getElem_singleton, Prod.mk.injEq] at hlast
        rw [← hlast.2]
        exact hhdr
    · intro n m result hmem
      obtain ⟨d, hdr, r, hn, hrest⟩ := h.fresh.answer n m result hmem
      exact ⟨d, hdr, r, hkeep _ hn, hrest⟩
    · simp only [Pc.inFlight, List.length_append, List.length_singleton] at hseq ⊢
      omega
    · simpa [Pc.inFlight] using hepoch
    · simp only [Pc.unrung, List.length_append, List.length_singleton] at hrung ⊢
      omega
    · intro d hd
      obtain rfl : c = d := Option.some.inj hd
      refine ⟨v1Hdr c.cmd c.inp.length s.sc.seq s.sc.mcdiNewEpoch, by simp, by simp⟩
    · intro hresp
      simp [pollResponse, storeDword, readDword_writeDword_self, hdrResponse_v1Hdr] at hresp
  next => cases hstep

theorem Inv.store (h : Inv s) (hstep : step s .store = some t) : Inv t := by
  simp only [step] at hstep
  split at hstep
  next c w ws hsending =>
    obtain rfl := Option.some.inj hstep
    have hseq := h.seq
    have hepoch := h.epoch
    have hrung := h.rung
    have hlast := h.last
    have hbody := h.body
    rw [hsending] at hseq hepoch hrung hlast hbody
    have hhead : readDword (storeDword s.sc.mcdiBuf w) 0 = readDword s.sc.mcdiBuf 0 :=
      readDword_writeDword_of_le _ (hbody w (List.mem_cons_self ..)) _
    refine ⟨⟨h.fresh.header, h.fresh.answer⟩, h.seqLt, hseq, hepoch, hrung, hlast,
      fun v hv => hbody v (List.mem_cons_of_mem _ hv), ?_⟩
    intro hresp
    simp only [pollResponse, hhead] at hresp
    obtain ⟨n, d, hdr, r, m, hn, hans, hlt, hwin, hok, hword, -⟩ := h.mailbox hresp
    simp only [Pc.unrung] at hrung
    refine ⟨n, d, hdr, r, m, hn, hans, hlt, hwin, hok, hhead.trans hword, fun hnew => ?_⟩
    change n + 1 = s.commands.length at hnew
    omega
  next => cases hstep

theorem Inv.doorbell (h : Inv s) (hstep : step s .doorbell = some t) : Inv t := by
  simp only [step] at hstep
  split at hstep
  next c hsending =>
    obtain rfl := Option.some.inj hstep
    have hseq := h.seq
    have hepoch := h.epoch
    have hrung := h.rung
    have hlast := h.last
    rw [hsending] at hseq hepoch hrung hlast
    refine ⟨⟨h.fresh.header, h.fresh.answer⟩, h.seqLt, hseq, hepoch, hrung, hlast,
      fun w hw => (by cases hw), ?_⟩
    intro hresp
    obtain ⟨n, d, hdr, r, m, hn, hans, hlt, hrest⟩ := h.mailbox hresp
    exact ⟨n, d, hdr, r, m, hn, hans, Nat.lt_succ_of_lt hlt, hrest⟩
  next => cases hstep

theorem Inv.mcAnswer (h : Inv s) {n : ℕ} {r : Response} (hstep : step s (.mcAnswer n r) = some t) :
    Inv t := by
  simp only [step] at hstep
  split at hstep
  next => cases hstep
  next c hdr hn =>
    split_ifs at hstep with hcan
    obtain rfl := Option.some.inj hstep
    simp only [canAnswer, hn, Bool.and_eq_true, decide_eq_true_eq] at hcan
    obtain ⟨⟨hrung, hwin⟩, hok⟩ := hcan
    refine ⟨⟨h.fresh.header, ?_⟩, h.seqLt, h.seq, h.epoch, h.rung, h.last, h.body, ?_⟩
    · intro k m result hmem
      obtain ⟨d, hdr', r', hk, hans, hrest⟩ := h.fresh.answer k m result hmem
      exact ⟨d, hdr', r', hk, List.mem_append_left _ hans, hrest⟩
    · intro _
      exact ⟨n, c, hdr, r, s.sc.mcdiBuf, hn, List.mem_append_right _ (List.mem_singleton_self _),
        hrung, hwin, hok, readDword_frame _ _ _, fun _ => rfl⟩

/-- A response with the current sequence number can only be the answer to the current command:
any other answer still allowed to land is less than 16 commands older. -/
theorem Inv.accept (h : Inv s) {c : Call} {b : Backoff} (hpc : s.pc = .polling c b)
    (hresp : pollResponse s.sc.mcdiBuf = true)
    (hseq : hdrSeq (readDword s.sc.mcdiBuf 0) = s.sc.seq.setWidth 32) :
    ∃ hdr r m, s.commands[s.commands.length - 1]? = some (c, hdr) ∧
      (s.commands.length - 1, r) ∈ s.answers ∧ r.answers c.v2 (s.sc.seq.setWidth 32) = true ∧
      s.sc.mcdiBuf = writeBytes m 0 (r.frame c.v2) := by
  obtain ⟨n, d, hdr, r, m, hn, hans, hlt, hwin, hok, hword, hfull⟩ := h.mailbox hresp
  obtain ⟨hdr', hlast, hpos⟩ := h.last c (by rw [hpc]; rfl)
  have hcount := h.seq
  have hrung := h.rung
  have hseqLt := h.seqLt
  simp only [hpc, Pc.inFlight, Pc.unrung] at hcount hrung
  have hrseq : hdrSeq r.hdr = hdrSeq hdr := by
    simp only [Response.answers, Bool.and_eq_true, beq_iff_eq] at hok
    exact hok.1.2
  have hmod : n % 16 = s.sc.mcdiSeq.toNat := by
    rw [← (h.fresh.header n d hdr hn).1, ← hrseq, ← hword, hseq, BitVec.toNat_setWidth,
      seq_toNat hseqLt]
    omega
  obtain rfl : n = s.commands.length - 1 := by omega
  obtain ⟨rfl, rfl⟩ : d = c ∧ hdr = hdr' := by simpa [hlast] using hn.symm
  rw [hword, hrseq] at hseq
  rw [hseq] at hok
  exact ⟨hdr, r, m, hlast, hans, hok, hfull (by omega)⟩

/-- Every way out of `exec` leaves the sequence number of the next command. -/
theorem Inv.leave (h : Inv s) {c : Call} {b : Backoff} (hpc : s.pc = .polling c b)
    {accepted : List (ℕ × Mailbox × ExecResult)}
    (hacc : Fresh { s with accepted := accepted }) :
    Inv { s with sc := s.sc.advance s.sc.mcdiBuf, pc := .idle, accepted := accepted } := by
  have hseq := h.seq
  have hrung := h.rung
  have hadv := advance_seq_toNat s.sc s.sc.mcdiBuf
  obtain ⟨hdr, -, hpos⟩ := h.last c (by rw [hpc]; rfl)
  simp only [hpc, Pc.inFlight, Pc.unrung] at hseq hrung
  refine ⟨⟨hacc.header, hacc.answer⟩, ?_, ?_, ?_, hrung, fun c hc => (by cases hc),
    fun w hw => (by cases hw), h.mailbox⟩
  · rw [hadv]
    exact Nat.mod_lt _ (by decide)
  · simp only [hadv, Pc.inFlight]
    omega
  · simp only [Softc.advance, Pc.inFlight, Bool.false_eq_true, false_iff]
    omega

theorem Inv.poll (h : Inv s) (hstep : step s .poll = some t) : Inv t := by
  simp only [step] at hstep
  split at hstep
  next c b hpc =>
    by_cases hresp : pollResponse s.sc.mcdiBuf = true
    · rw [if_pos hresp] at hstep
      obtain rfl := Option.some.inj hstep
      refine h.leave hpc ⟨h.fresh.header, fun n m result hmem => ?_⟩
      rcases List.mem_append.mp hmem with hmem | hmem
      · exact h.fresh.answer n m result hmem
      · by_cases hseq : hdrSeq (readDword s.sc.mcdiBuf 0) = s.sc.seq.setWidth 32
        · rw [if_pos hseq] at hmem
          obtain ⟨rfl, rfl, rfl⟩ : n = _ ∧ m = _ ∧ result = _ := by simpa using hmem
          obtain ⟨hdr, r, m, hlast, hans, hok, hbuf⟩ := h.accept hpc hresp hseq
          refine ⟨c, hdr, r, hlast, hans, ?_, ?_⟩
          · rw [hbuf]
            exact readBytes_writeBytes_self m 0 (r.frame c.v2)
          · rw [hbuf]
            exact readResponse_frame m c.v2 r c.out hok
        · rw [if_neg hseq] at hmem
          cases hmem
    · rw [if_neg hresp] at hstep
      split_ifs at hstep
      · obtain rfl := Option.some.inj hstep
        exact h.leave hpc h.fresh
      · obtain rfl := Option.some.inj hstep
        have hseq := h.seq
        have hepoch := h.epoch
        have hrung := h.rung
        have hlast := h.last
        rw [hpc] at hseq hepoch hrung hlast
        exact ⟨⟨h.fresh.header, h.fresh.answer⟩, h.seqLt, hseq, hepoch, hrung, hlast,
          fun w hw => (by cases hw), h.mailbox⟩
  next => cases hstep

theorem Inv.step {a : Act} (h : Inv s) (hstep : step s a = some t) : Inv t := by
  cases a with
  | call c => exact h.call hstep
  | storeHeader => exact h.storeHeader hstep
  | store => exact h.store hstep
  | doorbell => exact h.doorbell hstep
  | poll => exact h.poll hstep
  | mcAnswer n r => exact h.mcAnswer hstep

end

section
variable {s : Sys} {c : Call}

theorem stores_reach {ws : List (ℕ × BitVec 32)} (hpc : s.pc = .sending c ws) :
    Reaches step s { s with
      sc := { s.sc with mcdiBuf := ws.foldl storeDword s.sc.mcdiBuf }, pc := .sending c [] } := by
  induction ws generalizing s with
  | nil =>
    have hself : { s with pc := .sending c [] } = s := by rw [← hpc]
    rw [List.foldl_nil, hself]
    exact .refl _ _
  | cons w ws ih =>
    have hrest := ih (s := { s with
      sc := { s.sc with mcdiBuf := storeDword s.sc.mcdiBuf w }, pc := .sending c ws }) rfl
    apply Reaches.step (a := .store) _ hrest
    simp only [step, hpc]

/-- While the MC is silent the driver polls on until its time is up. -/
theorem polls_reach {i k : ℕ} (hsilent : pollResponse s.sc.mcdiBuf = false)
    (hpc : s.pc = .polling c (Backoff.next^[i] Backoff.first)) (hik : i + k < pollLimit) :
    Reaches step s { s with pc := .polling c (Backoff.next^[i + k] Backoff.first) } := by
  induction k with
  | zero =>
    have hself : { s with pc := .polling c (Backoff.next^[i + 0] Backoff.first) } = s := by
      rw [Nat.add_zero, ← hpc]
    rw [hself]
    exact .refl _ _
  | succ k ih =>
    have hexp : (Backoff.next^[i + k] Backoff.first).expired = false := by
      rw [Bool.eq_false_iff]
      intro h
      have hlast := (backoff_expired_iff (i + k) (by omega)).mp h
      omega
    refine (ih (by omega)).trans (.step (a := .poll) ?_ (.refl _ _))
    simp only [step, hsilent, hexp, Bool.false_eq_true, if_false]
    rw [← Nat.add_assoc, Function.iterate_succ_apply']

/-- The state after a send of `c` that nothing interrupts. -/
def Sys.sent (s : Sys) (c : Call) : Sys :=
  { s with
    sc := { s.sc with mcdiBuf := sendLocked s.sc.mcdiBuf c.cmd c.inp s.sc.seq s.sc.mcdiNewEpoch }
    pc := .polling c Backoff.first
    commands := s.commands ++ [(c, v1Hdr c.cmd c.inp.length s.sc.seq s.sc.mcdiNewEpoch)]
    rung := s.rung + 1 }

theorem send_reaches (hpc : s.pc = .idle) (haccepts : execAccepts s.sc c.inp c.out = none) :
    Reaches step s (s.sent c) := by
  obtain ⟨ws, hws, -⟩ := sendWrites_eq c.cmd c.inp s.sc.seq s.sc.mcdiNewEpoch
  have hcall : step s (.call c) = some { s with pc := .locked c } := by
    simp only [step, hpc, haccepts]
  have hheader : step { s with pc := .locked c } .storeHeader = some { s with
      sc := { s.sc with
        mcdiBuf := storeDword s.sc.mcdiBuf
          (0, v1Hdr c.cmd c.inp.length s.sc.seq s.sc.mcdiNewEpoch) }
      pc := .sending c ws
      commands := s.commands ++ [(c, v1Hdr c.cmd c.inp.length s.sc.seq s.sc.mcdiNewEpoch)] } := by
    simp only [step, hws]
  refine .step hcall (.step hheader ((stores_reach rfl).trans (.step (a := .doorbell) ?_
    (.refl _ _))))
  simp only [step, Sys.sent, sendLocked, hws, List.foldl_cons]

/-- The answer to the command just sent lands, and the next poll takes it. -/
theorem answer_reaches {r : Response} (h : Inv s) (hpc : s.pc = .idle) (b : Backoff)
    (hr : r.answers c.v2 (s.sc.seq.setWidth 32) = true) :
    ∃ t, Reaches step { s.sent c with pc := .polling c b } t ∧ t.pc = .idle ∧
      t.sc = s.sc.advance (writeBytes (s.sent c).sc.mcdiBuf 0 (r.frame c.v2)) ∧
      t.accepted = s.accepted ++ [(s.commands.length, t.sc.mcdiBuf, r.result c.out)] := by
  have hseq : hdrSeq (v1Hdr c.cmd c.inp.length s.sc.seq s.sc.mcdiNewEpoch) =
      s.sc.seq.setWidth 32 := by
    rw [hdrSeq_v1Hdr]
    refine and_mask_of_lt ?_
    rw [BitVec.toNat_setWidth, seq_toNat h.seqLt]
    have hlt := h.seqLt
    omega
  have hrung : s.rung = s.commands.length := by
    have hrung := h.rung
    rw [hpc] at hrung
    exact hrung
  have hlanded : step { s.sent c with pc := .polling c b } (.mcAnswer s.commands.length r) =
      some { s.sent c with
        sc := { (s.sent c).sc with
          mcdiBuf := writeBytes (s.sent c).sc.mcdiBuf 0 (r.frame c.v2) }
        pc := .polling c b
        answers := s.answers ++ [(s.commands.length, r)] } := by
    simp [step, canAnswer, Sys.sent, hrung, hseq, hr]
  have hhdr : hdrSeq (readDword (writeBytes (s.sent c).sc.mcdiBuf 0 (r.frame c.v2)) 0) =
      s.sc.seq.setWidth 32 := by
    rw [readDword_frame]
    simp only [Response.answers, Bool.and_eq_true, beq_iff_eq] at hr
    exact hr.1.2
  have hresult : readResponse (writeBytes (s.sent c).sc.mcdiBuf 0 (r.frame c.v2))
      (payloadOff c.cmd c.inp.length) s.sc.seq c.out = r.result c.out :=
    readResponse_frame _ _ r c.out hr
  refine ⟨{ s.sent c with
    sc := s.sc.advance (writeBytes (s.sent c).sc.mcdiBuf 0 (r.frame c.v2))
    pc := .idle
    answers := s.answers ++ [(s.commands.length, r)]
    accepted := s.accepted ++ [(s.commands.length,
      writeBytes (s.sent c).sc.mcdiBuf 0 (r.frame c.v2), r.result c.out)] },
    .step hlanded (.step (a := .poll) ?_ (.refl _ _)), rfl, rfl, rfl⟩
  have hlast : (s.sent c).commands.length - 1 = s.commands.length := by simp [Sys.sent]
  have hsame : Softc.seq { (s.sent c).sc with
      mcdiBuf := writeBytes (s.sent c).sc.mcdiBuf 0 (r.frame c.v2) } = s.sc.seq := rfl
  simp only [step, pollResponse_frame _ hr, if_true, hsame, hhdr, hresult, hlast]
  rfl

/-- A call of `sfc7120_mcdi_exec` that the MC answers in time is a run of the system, which takes
the same result from it and leaves the same softc. -/
theorem exec_reaches {r : Response} {j : ℕ} (h : Inv s) (hpc : s.pc = .idle)
    (haccepts : execAccepts s.sc c.inp c.out = none) (hj : j < pollLimit)
    (hr : r.answers c.v2 (s.sc.seq.setWidth 32) = true) :
    ∃ t, Reaches step s t ∧ t.pc = .idle ∧
      t.sc = (exec (answerAt j (r.frame c.v2)) s.sc c.cmd c.inp c.out).1 ∧
      t.accepted = s.accepted ++ [(s.commands.length, t.sc.mcdiBuf,
        (exec (answerAt j (r.frame c.v2)) s.sc c.cmd c.inp c.out).2)] := by
  have hsilent : pollResponse (s.sent c).sc.mcdiBuf = false := pollResponse_sendLocked _ _ _ _ _
  have hpolls := polls_reach (s := s.sent c) (i := 0) (k := j) hsilent rfl (by omega)
  obtain ⟨t, hanswered, hidle, hsc, hacc⟩ :=
    answer_reaches (c := c) h hpc (Backoff.next^[0 + j] Backoff.first) hr
  have hexec : exec (answerAt j (r.frame c.v2)) s.sc c.cmd c.inp c.out =
      (s.sc.advance (writeBytes (s.sent c).sc.mcdiBuf 0 (r.frame c.v2)), r.result c.out) :=
    exec_answered haccepts hj hr
  refine ⟨t, (send_reaches hpc haccepts).trans (hpolls.trans hanswered), hidle, ?_, ?_⟩
  · rw [hexec, hsc]
  · rw [hexec, hacc]

end

/-- Whatever the commands, their outcomes and the moments at which answers land, sequence numbers
count the commands and `exec` never takes a stale answer for a fresh one. -/
theorem mcdi_never_stale {acts : List Act} {s : Sys} (hrun : run step start acts = some s) :
    Fresh s :=
  (run_invariant (fun _ _ _ h hstep => h.step hstep) inv_start hrun).fresh

def getVersion : Call := ⟨0x08, [], List.replicate 4 0⟩

/-- Command 0 times out and its answer lands inside the next send, where it makes command 1 fail
its sequence check; command 2 is answered. -/
def lateAnswer : List Act :=
  [.call getVersion, .storeHeader, .doorbell] ++ List.replicate pollLimit .poll ++
  [.call getVersion, .storeHeader, .mcAnswer 0 ⟨0x00800408, 0, [9, 9, 9, 9]⟩, .doorbell, .poll,
   .call getVersion, .storeHeader, .doorbell, .poll,
   .mcAnswer 2 ⟨0x00820408, 0, [1, 2, 3, 4]⟩, .poll]

theorem mcdi_never_stale_late_answer :
    ∃ s, run step start lateAnswer = some s ∧
      s.accepted.map (fun a => (a.1, a.2.2)) = [(2, ⟨none, [1, 2, 3, 4], some 4⟩)] ∧ Fresh s := by
  have hend : (run step start lateAnswer).map
      (fun s => s.accepted.map fun a => (a.1, a.2.2)) =
      some [(2, ⟨none, [1, 2, 3, 4], some 4⟩)] := by decide +kernel
  obtain ⟨s, hs, hacc⟩ := Option.map_eq_some_iff.mp hend
  exact ⟨s, hs, hacc, mcdi_never_stale hs⟩

end Sfc7120.Mcdi.Transport

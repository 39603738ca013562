import Sfc7120.DataPath.KernelDuplex
import Sfc7120.Bench.Cable

/-! The kernel session of the benchmark over two cabled ports: `run_latency` and
`run_throughput_kernel` bounce one frame at a time through the ioctls. A transmit poll consumes
every event it walks past, RX events included; with a window of one there is never one to walk
past. The program, both NICs and the cable take their steps in any order. -/
namespace Sfc7120.Bench.PingPong

open ByteMemory Machine

/-- Which of the two loops is running. -/
inductive Phase where
  | lat | tput
  deriving DecidableEq

def latWarmup : ℕ := 1000
def latSamples : ℕ := 20000

/-- Where the program is; inside a call, the port says how far the call has got. -/
inductive Pc where
  | send (p : Pf)
  | sending (p : Pf)
  | recv (p : Pf)
  | receiving (p : Pf)
  | landed
  | done
  | failed (e : Errno)
  deriving DecidableEq

structure App where
  pc : Pc
  /-- The loop in progress and those after it. -/
  phases : List Phase
  /-- Index of the frame size under test. -/
  s : ℕ
  seq : BitVec 32
  /-- Round trips at this size: `i` of one loop, `round_trips` of the other. -/
  trips : ℕ
  iter : ℕ
  frame : Buf
  rxbuf : Buf
  len : ℕ
  /-- Round trips of the sizes done. -/
  rows : List ℕ

/-- What the program sees of a port. -/
structure Host where
  pc : KernelRx.Pc
  delivered : List Frame
  posted : List (List Byte)
  completed : ℕ

def host (d : KernelDuplex.Sys) : Host :=
  ⟨d.kern.pc, d.kern.delivered.map (·.2), d.posted, d.completed⟩

/-- What a port's NIC does on its own. -/
def nicStep : KernelDuplex.Act → Bool
  | .kern (.nicRxEvent _) => true
  | .kern (.nicTxEvent _) => true
  | .nicFetch => true
  | .nicSend => true
  | _ => false

abbrev kernel : Port KernelDuplex.Sys Host KernelDuplex.Act where
  step := KernelDuplex.step
  sent := KernelDuplex.Sys.sent
  taken d := d.kern.w.accepted
  host := host
  delivered := Host.delivered
  posted := Host.posted
  isNic := nicStep
  fill pre f := .kern (.nicFill pre f)

abbrev Sys := Bench.Sys KernelDuplex.Sys App

/-- A step of the program sees whether the clock has reached the measuring time. -/
abbrev Act := Bench.Act KernelDuplex.Act Bool

section
variable (cfg : Config)

def size (app : App) : ℕ := sizes.getD app.s 0

def nextFrame (app : App) : App :=
  { app with frame := cfg.nextFrame app.frame (size app) app.seq, seq := app.seq + 1 }

/-- Call `sfc7120_tx` on one of the program's own buffers, from which the copy succeeds. -/
def callTx (s : Sys) (p : Pf) (buf : Buf) (len : ℕ) (app : App) : Option Sys :=
  let req : TxReq := ⟨true, true, bufLen, len, readBytes buf 0 bufLen⟩
  match txValidate req with
  | some e => some { s with app := { app with pc := .failed e } }
  | none => kernel.onPort s p (.kern (.tx req none)) { app with pc := .sending p }

/-- The next size or the next loop, with fresh counters, or the end of the session. -/
def nextSize (app : App) : App :=
  let app := { app with rows := app.rows ++ [app.trips], seq := 0, trips := 0, iter := 0 }
  if app.s + 1 < sizes.length then { app with pc := .send .pf0, s := app.s + 1 }
  else
    { app with
      pc := if app.phases.tail = [] then .done else .send .pf0
      phases := app.phases.tail, s := 0 }

/-- An echo has come back. `expired` is whether the clock has reached the measuring time. -/
def land (app : App) (expired : Bool) : App :=
  let app := { app with trips := app.trips + 1 }
  match app.phases.head? with
  | some .lat =>
      if app.trips < latWarmup + latSamples then { app with pc := .send .pf0 } else nextSize app
  | _ =>
      if app.iter &&& 0xff = 0 ∧ expired then nextSize app
      else { app with pc := .send .pf0, iter := app.iter + 1 }

/-- One step of the program. -/
def appStep (s : Sys) (expired : Bool) : Option Sys :=
  match s.app.pc with
  | .send .pf0 =>
      let app := nextFrame cfg s.app
      callTx s .pf0 app.frame (size app) app
  | .send .pf1 =>
      let app := { s.app with rxbuf := swapMac s.app.rxbuf }
      callTx s .pf1 app.rxbuf app.len app
  | .sending p =>
      match (s.net.port p).kern.pc with
      | .txWait t =>
          if t.again then kernel.onPort s p (.kern .txPoll) s.app
          else kernel.onPort s p (.kern .txReturn) { s.app with
            pc := if t.done then .recv p.peer else .failed .ETIMEDOUT }
      | _ => none
  | .recv p => kernel.onPort s p (.kern .rx) { s.app with pc := .receiving p }
  | .receiving p =>
      match (s.net.port p).kern.pc with
      | .rxWait r =>
          if r.again then kernel.onPort s p (.kern .rxPoll) s.app
          else kernel.onPort s p (.kern .rxAck) { s.app with
            pc := if r.found = none then .failed .ETIMEDOUT else .receiving p }
      | .rxCopy _ => kernel.onPort s p (.kern (.rxCopyout none)) s.app
      | .rxRepost f => kernel.onPort s p (.kern .rxReturn) { s.app with
          rxbuf := writeBytes s.app.rxbuf 0 f, len := f.length
          pc := if p = .pf1 then .send .pf1 else .landed }
      | _ => none
  | .landed => some { s with app := land s.app expired }
  | .done => none
  | .failed _ => none

def step : Sys → Act → Option Sys := kernel.sysStep cfg.mac (appStep cfg)

/-- Both ports just attached, the cable empty; `phases` are the loops asked for. -/
def start (phases : List Phase) (frame rxbuf : Buf) : Sys where
  net := .start fun p => KernelDuplex.start (cfg.tx p) (cfg.rx p) (cfg.mem p)
  app := ⟨if phases = [] then .done else .send .pf0, phases, 0, 0, 0, 0, frame, rxbuf, 0, []⟩

end

/-- The call that is in progress at a port while the program is at a given point. -/
def Pc.At (pc : Pc) (p : Pf) (k : KernelRx.Pc) : Prop :=
  match pc with
  | .sending q => if p = q then ∃ t, k = .txWait t else k = .idle
  | .receiving q =>
      if p = q then (∃ r, k = .rxWait r) ∨ (∃ b, k = .rxCopy b) ∨ ∃ f, k = .rxRepost f
      else k = .idle
  | _ => k = .idle

/-- How far the frame in flight has got: PF0 posted it, PF1 took it, PF1 posted its echo. -/
def Pc.stage : Pc → Option ℕ
  | .send .pf0 => some 0
  | .sending .pf0 => some 1
  | .recv .pf1 => some 1
  | .receiving .pf1 => some 1
  | .send .pf1 => some 2
  | .sending .pf1 => some 3
  | .recv .pf0 => some 3
  | .receiving .pf0 => some 3
  | .landed => some 0
  | .done => some 0
  | .failed _ => none

/-- The program's books. -/
structure Ledger (cfg : Config) (app : App) (h : Pf → Host) : Prop where
  timeout : ∀ e, app.pc = .failed e → e = .ETIMEDOUT
  size : app.s < sizes.length
  control : ∀ p, app.pc.At p (h p).pc
  flow : ∃ k, Flow k (fun p => (h p).posted) (fun p => (h p).delivered) ∧
    ∀ j, app.pc.stage = some j → k = j
  settled : ∀ p, app.pc ≠ .sending p → app.pc.stage ≠ none → (h p).posted.length ≤ (h p).completed
  built : ∀ f ∈ (h .pf0).posted, Built cfg f
  echoed : (h .pf1).posted = ((h .pf1).delivered.take (h .pf1).posted.length).map swapped
  holding : app.pc = .send .pf1 → Unanswered (h .pf1).posted (h .pf1).delivered app.rxbuf app.len
  counted : app.rows.sum + app.trips + (if app.pc = .landed then 1 else 0) =
    (h .pf0).delivered.length

/-- What holds in every state of the session. -/
abbrev Inv (cfg : Config) (s : Sys) : Prop :=
  kernel.Inv (fun p => KernelDuplex.Inv (cfg.tx p) (cfg.rx p)) (Ledger cfg) s

section
variable {cfg : Config} {s t : Sys} {app : App} {h : Pf → Host} {d e : KernelDuplex.Sys}
  {tx rx : Word} {p : Pf}

/-- The NIC's own steps are always in turn and move none of what the program sees. -/
theorem host_nicStep (hlay : Duplex.Layout tx rx) (hinv : KernelDuplex.Inv tx rx d)
    {a : KernelDuplex.Act} (ha : nicStep a = true) (hstep : KernelDuplex.step d a = some e) :
    KernelDuplex.InTurn d a ∧ (∀ pre f, a ≠ .kern (.nicFill pre f)) ∧ host e = host d := by
  cases a with
  | kern a =>
    simp only [KernelDuplex.step] at hstep
    split_ifs at hstep
    obtain ⟨k, hk, rfl⟩ := Option.map_eq_some_iff.mp hstep
    have he := KernelDuplex.step_effect hlay hinv.receive hk
    have hsame := fun posted => hinv.completed_eq posted he
    cases a with
    | nicRxEvent ev =>
      obtain ⟨u, hu, rfl⟩ := Option.map_eq_some_iff.mp hk
      obtain ⟨_, v, -, -, -, hpost, rfl⟩ := World.nicRxEvent_eq hu
      obtain ⟨-, rfl⟩ := World.postEvent_eq hpost
      refine ⟨⟨rfl, (absurd · (by simp)), absurd rfl⟩, fun _ _ h => (by cases h), ?_⟩
      simp only [host, hsame _ rfl, KernelDuplex.launched, List.append_nil]
    | nicTxEvent ev =>
      obtain ⟨u, hu, rfl⟩ := Option.map_eq_some_iff.mp hk
      obtain ⟨-, -, rfl⟩ := KernelDuplex.World.nicTxEvent_eq hu
      refine ⟨⟨rfl, (absurd · (by simp)), absurd rfl⟩, fun _ _ h => (by cases h), ?_⟩
      simp only [host, hsame _ rfl, KernelDuplex.launched, List.append_nil]
    | _ => cases ha
  | nicFetch =>
    simp only [KernelDuplex.step] at hstep
    split at hstep
    · split_ifs at hstep
      obtain rfl := Option.some.inj hstep
      exact ⟨trivial, fun _ _ h => (by cases h), rfl⟩
    · cases hstep
  | nicSend =>
    simp only [KernelDuplex.step] at hstep
    split at hstep
    · cases hstep
    · obtain rfl := Option.some.inj hstep
      exact ⟨trivial, fun _ _ h => (by cases h), rfl⟩

theorem delivered_isPrefix (hinv : KernelDuplex.Inv tx rx d) :
    (host d).delivered <+: d.kern.w.accepted := by
  refine List.prefix_iff_getElem?.mpr fun i hi => ?_
  simp only [host, List.length_map] at hi
  obtain ⟨-, hf⟩ := hinv.receive.delivered i _ _ (List.getElem?_eq_getElem hi)
  simpa [host] using hf

/-- The next frame on the cable has a slot to go to. -/
theorem fill_isSome (hlay : Duplex.Layout tx rx) (hinv : KernelDuplex.Inv tx rx d)
    {pre : List Byte} {f : Frame} (hpre : prefixOk pre f = true)
    (hfit : ef10RxPrefixLen + f.length ≤ rxBufferSize)
    (hroom : d.kern.w.accepted.length < (host d).delivered.length + 511) :
    ∃ e, KernelDuplex.step d (.kern (.nicFill pre f)) = some e ∧ KernelDuplex.Inv tx rx e ∧
      e.kern.w.accepted = d.kern.w.accepted ++ [f] ∧ e.sent = d.sent ∧ host e = host d := by
  have hcount := hinv.receive.count
  have hle := (delivered_isPrefix hinv).length_le
  simp only [host, List.length_map] at hle hroom
  obtain ⟨mem, hfill⟩ := nicRxFill_isSome hinv.receive.rx hlay.rx_le hpre hfit (by omega) (by omega)
  have htaken : ∃ e, KernelDuplex.step d (.kern (.nicFill pre f)) = some e ∧
      e.kern.w.accepted = d.kern.w.accepted ++ [f] ∧ e.sent = d.sent ∧ host e = host d := by
    refine ⟨{ d with kern := { d.kern with w := { d.kern.w with
      mem := mem, accepted := d.kern.w.accepted ++ [f] } } }, ?_, rfl, rfl, rfl⟩
    simp only [KernelDuplex.step, KernelDuplex.Sys.enabled, if_true, KernelRx.step, hfill,
      KernelDuplex.launched, Option.map_some, List.append_nil]
  obtain ⟨e, he, hrest⟩ := htaken
  have hturn : KernelDuplex.InTurn d (.kern (.nicFill pre f)) :=
    ⟨rfl, (absurd · (by simp)), absurd rfl⟩
  exact ⟨e, he, hinv.step hlay hturn he, hrest⟩

theorem kernel_sound (hcab : cfg.Cabled) :
    kernel.Sound (fun p => KernelDuplex.Inv (cfg.tx p) (cfg.rx p)) KernelDuplex.InTurn where
  step hinv hturn hstep := hinv.step (hcab.layout _) hturn hstep
  histories hinv hfill hstep := by
    obtain ⟨htaken, hsent, -⟩ := hinv.histories (hcab.layout _) hfill hstep
    exact ⟨htaken, hsent⟩
  received hinv := delivered_isPrefix hinv
  launched hinv := hinv.transmit.order
  nic hinv ha hstep := host_nicStep (hcab.layout _) hinv ha hstep
  fill hinv hpre hfit hroom := fill_isSome (hcab.layout _) hinv hpre hfit hroom

theorem Ledger.circulates (hl : Ledger cfg app h) :
    Circulates cfg 1 (fun p => (h p).posted) fun p => (h p).delivered := by
  obtain ⟨k, hflow, -⟩ := hl.flow
  exact hflow.circulates hl.built hl.echoed

/-- Everything on the way round lies between the echoes received and the frames launched. -/
theorem Inv.circle (hcab : cfg.Cabled) (hinv : Inv cfg s) :
    Circle (fun p => (s.net.port p).posted) (fun p => (s.net.port p).sent)
      (fun p => (s.net.port p).kern.w.accepted) fun p => (host (s.net.port p)).delivered :=
  hinv.toJoined.circle (kernel_sound hcab)

/-- While a port transmits, it has taken no frame it has not delivered. -/
theorem Inv.quiet (hcab : cfg.Cabled) (hinv : Inv cfg s) (hpc : s.app.pc = .sending p) :
    (s.net.port p).kern.w.accepted.length ≤ (s.net.port p).kern.delivered.length := by
  obtain ⟨k, hflow, hk⟩ := hinv.account.flow
  have hle := (hinv.circle hcab).taken_le p
  have hlen : (s.net.port p).kern.delivered.length = (host (s.net.port p)).delivered.length := by
    simp [host]
  rw [hlen]
  cases p with
  | pf0 =>
    obtain rfl := hk 1 (by rw [hpc]; rfl)
    exact hle.trans hflow.posted1.le
  | pf1 =>
    obtain rfl := hk 3 (by rw [hpc]; rfl)
    exact hle.trans (hflow.posted0.trans hflow.delivered1.symm).le

/-- A step at a port in turn, with the books it leaves. -/
theorem Inv.at_port (hcab : cfg.Cabled) (hinv : Inv cfg s) {a : KernelDuplex.Act}
    (hturn : KernelDuplex.InTurn (s.net.port p) a) (hfill : ∀ pre f, a ≠ .kern (.nicFill pre f))
    (hstep : kernel.onPort s p a app = some t)
    (hkeep : ∀ d, KernelDuplex.step (s.net.port p) a = some d →
      Ledger cfg app (Function.update (kernel.views s.net) p (host d))) : Inv cfg t :=
  Port.Inv.at_port (kernel_sound hcab) hinv hturn hfill hstep hkeep

/-- The port at which a call is in progress. -/
def Pc.busy : Pc → Option Pf
  | .sending p => some p
  | .receiving p => some p
  | _ => none

theorem Pc.at_of_not_busy {pc : Pc} {p : Pf} {k : KernelRx.Pc} (hp : pc.busy ≠ some p) :
    pc.At p k ↔ k = .idle := by
  cases pc with
  | sending q => simp [Pc.At, show p ≠ q from fun h => hp (by rw [h]; rfl)]
  | receiving q => simp [Pc.At, show p ≠ q from fun h => hp (by rw [h]; rfl)]
  | _ => exact Iff.rfl

/-- A port's view after a step that moved no frame. -/
structure Quiet (v w : Host) : Prop where
  delivered : w.delivered = v.delivered
  posted : w.posted = v.posted
  completed : v.completed ≤ w.completed

theorem Quiet.update {p : Pf} {v : Host} (hq : Quiet (h p) v) (q : Pf) :
    Quiet (h q) (Function.update h p v q) := by
  rcases eq_or_ne q p with rfl | hne
  · simpa using hq
  · rw [Function.update_of_ne hne]
    exact ⟨rfl, rfl, le_rfl⟩

/-- A step inside a call that moves no frame keeps the books. -/
theorem Ledger.quiet (hl : Ledger cfg app h) {p : Pf} {v : Host} (hq : Quiet (h p) v) {pc' : Pc}
    (hbusy : ∀ q, q ≠ p → app.pc.busy ≠ some q ∧ pc'.busy ≠ some q) (hat : pc'.At p v.pc)
    (htime : ∀ e, pc' = .failed e → e = .ETIMEDOUT)
    (hset : pc' ≠ .sending p → pc'.stage ≠ none → v.posted.length ≤ v.completed)
    (hstage : pc'.stage = none ∨ pc'.stage = app.pc.stage)
    (hland : pc' ≠ .landed ∧ app.pc ≠ .landed) (hsend : pc' ≠ .send .pf1) :
    Ledger cfg { app with pc := pc' } (Function.update h p v) := by
  have hsame := hq.update
  have hcounted := hl.counted
  rw [if_neg hland.2] at hcounted
  refine ⟨htime, hl.size, fun q => ?_, ?_, fun q hne hstage' => ?_, ?_, ?_, (absurd · hsend), ?_⟩
  · rcases eq_or_ne q p with rfl | hne
    · simpa using hat
    · obtain ⟨hold, hnew⟩ := hbusy q hne
      rw [Function.update_of_ne hne]
      exact (Pc.at_of_not_busy hnew).mpr ((Pc.at_of_not_busy hold).mp (hl.control q))
  · obtain ⟨k, hflow, hk⟩ := hl.flow
    refine ⟨k, ?_, fun j hj => ?_⟩
    · constructor
      · rw [(hsame .pf0).posted, (hsame .pf0).delivered]
        exact hflow.posted0
      · rw [(hsame .pf1).delivered, (hsame .pf0).delivered]
        exact hflow.delivered1
      · rw [(hsame .pf1).posted, (hsame .pf0).delivered]
        exact hflow.posted1
    · rcases hstage with hnone | heq
      · simp [hnone] at hj
      · exact hk j (heq ▸ hj)
  · rcases eq_or_ne q p with rfl | hqp
    · simpa using hset hne hstage'
    · have hold := (hbusy q hqp).1
      rw [Function.update_of_ne hqp]
      refine hl.settled q (fun heq => hold (by rw [heq]; rfl)) ?_
      rcases hstage with hnone | heq
      · exact absurd hnone hstage'
      · rwa [← heq]
  · rw [(hsame .pf0).posted]
    exact hl.built
  · rw [(hsame .pf1).posted, (hsame .pf1).delivered]
    exact hl.echoed
  · rw [(hsame .pf0).delivered, if_neg hland.1]
    exact hcounted

/-- The steps inside the handlers that move no frame. -/
def inside : KernelRx.Act → Bool
  | .txPoll => true
  | .txReturn => true
  | .rx => true
  | .rxPoll => true
  | .rxAck => true
  | .rxCopyout none => true
  | _ => false

theorem step_kern {a : KernelRx.Act} (hstep : KernelDuplex.step d (.kern a) = some e) :
    ∃ k, KernelRx.step d.kern a = some k ∧
      e = { d with kern := k, posted := d.posted ++ KernelDuplex.launched d.kern a } := by
  simp only [KernelDuplex.step] at hstep
  split_ifs at hstep
  obtain ⟨k, hk, rfl⟩ := Option.map_eq_some_iff.mp hstep
  exact ⟨k, hk, rfl⟩

theorem launched_of_inside {a : KernelRx.Act} (ha : inside a = true) (k : KernelRx.Sys) :
    KernelDuplex.launched k a = [] := by
  cases a with
  | tx req copyErr => cases ha
  | _ => rfl

theorem quiet_of_inside (hlay : Duplex.Layout tx rx) (hinv : KernelDuplex.Inv tx rx d)
    {a : KernelRx.Act} (ha : inside a = true) (hstep : KernelDuplex.step d (.kern a) = some e) :
    Quiet (host d) (host e) := by
  obtain ⟨k, hk, rfl⟩ := step_kern hstep
  have he := KernelDuplex.step_effect hlay hinv.receive hk
  have hret : a ≠ .rxReturn := by
    rintro rfl
    cases ha
  refine ⟨congrArg (List.map _) (he.delivered hret), ?_, hinv.completed_mono _ he⟩
  show d.posted ++ _ = d.posted
  rw [launched_of_inside ha, List.append_nil]

/-- A step of the program inside a call. -/
theorem Inv.inCall (hcab : cfg.Cabled) (hinv : Inv cfg s) {a : KernelRx.Act} {pc' : Pc}
    (hstep : kernel.onPort s p (.kern a) { s.app with pc := pc' } = some t)
    (ha : inside a = true) (hmeets : KernelRx.TxMeetsNoRx (s.net.port p).kern a)
    (hafter : ∀ e, KernelDuplex.step (s.net.port p) (.kern a) = some e →
      Quiet (host (s.net.port p)) (host e) →
      pc'.At p e.kern.pc ∧ (pc' ≠ .sending p → pc'.stage ≠ none → e.posted.length ≤ e.completed))
    (hbusy : ∀ q, q ≠ p → s.app.pc.busy ≠ some q ∧ pc'.busy ≠ some q)
    (htime : ∀ e, pc' = .failed e → e = .ETIMEDOUT)
    (hstage : pc'.stage = none ∨ pc'.stage = s.app.pc.stage)
    (hland : pc' ≠ .landed ∧ s.app.pc ≠ .landed) (hsend : pc' ≠ .send .pf1) : Inv cfg t := by
  have hturn : KernelDuplex.InTurn (s.net.port p) (.kern a) := by
    refine ⟨?_, hmeets, absurd (launched_of_inside ha _)⟩
    cases a with
    | rxCopyout copyErr => cases copyErr <;> first | rfl | cases ha
    | tx req copyErr => cases ha
    | _ => rfl
  have hfill : ∀ pre f, KernelDuplex.Act.kern a ≠ .kern (.nicFill pre f) := by
    rintro pre f heq
    cases heq
    cases ha
  apply hinv.at_port hcab hturn hfill hstep
  intro e he
  have hq := quiet_of_inside (hcab.layout p) (hinv.good p) ha he
  obtain ⟨hat, hset⟩ := hafter e he hq
  exact hinv.account.quiet hq hbusy hat htime hset hstage hland hsend

/-- A step inside a call that does not end it. -/
theorem Inv.stay (hcab : cfg.Cabled) (hinv : Inv cfg s) {a : KernelRx.Act}
    (hstep : kernel.onPort s p (.kern a) s.app = some t) (hcall : s.app.pc.busy = some p)
    (ha : inside a = true) (hmeets : KernelRx.TxMeetsNoRx (s.net.port p).kern a)
    (hat : ∀ k, KernelRx.step (s.net.port p).kern a = some k → s.app.pc.At p k.pc) :
    Inv cfg t := by
  have hstay : kernel.onPort s p (.kern a) { s.app with pc := s.app.pc } = some t := hstep
  refine hinv.inCall hcab hstay ha hmeets (fun e he hq => ⟨?_, fun hne hstage => ?_⟩)
    (fun q hq => ?_) hinv.account.timeout (.inr rfl) ⟨?_, ?_⟩ ?_
  · obtain ⟨k, hk, rfl⟩ := step_kern he
    exact hat k hk
  · have hset : (s.net.port p).posted.length ≤ (s.net.port p).completed :=
      hinv.account.settled p hne hstage
    rw [show e.posted = (s.net.port p).posted from hq.posted]
    exact hset.trans hq.completed
  · simp [hcall, hq.symm]
  · exact fun heq => by simp [heq, Pc.busy] at hcall
  · exact fun heq => by simp [heq, Pc.busy] at hcall
  · exact fun heq => by simp [heq, Pc.busy] at hcall

/-- Inside `sfc7120_tx`. Its poll meets no RX event, and it returns success only with its own
completion consumed. -/
theorem Inv.sending (hcab : cfg.Cabled) (hinv : Inv cfg s) {expired : Bool}
    (hpc : s.app.pc = .sending p) (hstep : appStep cfg s expired = some t) : Inv cfg t := by
  simp only [appStep, hpc] at hstep
  split at hstep
  next w hport =>
    have hmeets : (s.net.port p).kern.rxAtHead = false :=
      (hinv.good p).rxAtHead_eq_false (by rw [hport]; rfl) (by rw [hport]; rfl)
        (hinv.quiet hcab hpc)
    split_ifs at hstep with hagain hdone
    · refine hinv.stay hcab hstep (by rw [hpc]; rfl) rfl (fun _ => hmeets) fun k hk => ?_
      obtain ⟨w', -, -, rfl⟩ := KernelRx.step_txPoll hk
      simp [hpc, Pc.At]
    · have hwait := (hinv.good p).waiting
      simp only [KernelDuplex.Waiting, hport] at hwait
      have hset : (s.net.port p).Settled := hwait.2.2.mp hdone
      refine hinv.inCall hcab hstep rfl (absurd · (by simp)) (fun e he hq => ?_) (fun q hq => ?_)
        (by simp) (.inr ?_) ⟨by simp, by simp [hpc]⟩ (by simp)
      · refine ⟨?_, fun _ _ => ?_⟩
        · obtain ⟨k, hk, rfl⟩ := step_kern he
          simp only [KernelRx.step, hport, hagain, Bool.false_eq_true, if_false,
            Option.some.injEq] at hk
          subst hk
          rfl
        · have hposted : e.posted = (s.net.port p).posted := hq.posted
          rw [hposted]
          exact hset.trans hq.completed
      · exact ⟨by simp [hpc, Pc.busy, hq.symm], by simp [Pc.busy]⟩
      · rw [hpc]
        cases p <;> rfl
    · refine hinv.inCall hcab hstep rfl (absurd · (by simp)) (fun e he hq => ?_) (fun q hq => ?_)
        (fun e he => ?_) (.inl rfl) ⟨by simp, by simp [hpc]⟩ (by simp)
      · refine ⟨?_, fun _ => absurd rfl⟩
        obtain ⟨k, hk, rfl⟩ := step_kern he
        simp only [KernelRx.step, hport, hagain, Bool.false_eq_true, if_false,
          Option.some.injEq] at hk
        subst hk
        rfl
      · exact ⟨by simp [hpc, Pc.busy, hq.symm], by simp [Pc.busy]⟩
      · exact (Pc.failed.inj he).symm
  next => cases hstep

theorem Inv.recv (hcab : cfg.Cabled) (hinv : Inv cfg s) {expired : Bool}
    (hpc : s.app.pc = .recv p) (hstep : appStep cfg s expired = some t) : Inv cfg t := by
  simp only [appStep, hpc] at hstep
  have hidle : (s.net.port p).kern.pc = .idle := by
    have hat := hinv.account.control p
    rw [hpc] at hat
    exact hat
  have hset : (s.net.port p).posted.length ≤ (s.net.port p).completed :=
    hinv.account.settled p (by simp [hpc]) (by cases p <;> simp [hpc, Pc.stage])
  refine hinv.inCall hcab hstep rfl (absurd · (by simp)) (fun e he hq => ⟨?_, fun _ _ => ?_⟩)
    (fun q hq => ?_) (by simp) (.inr ?_) ⟨by simp, by simp [hpc]⟩ (by simp)
  · obtain ⟨k, hk, rfl⟩ := step_kern he
    simp only [KernelRx.step, hidle, Option.some.injEq] at hk
    subst hk
    simp [Pc.At]
  · have hposted : e.posted = (s.net.port p).posted := hq.posted
    rw [hposted]
    exact hset.trans hq.completed
  · simp [hpc, Pc.busy, hq.symm]
  · rw [hpc]
    cases p <;> rfl

/-- `SFC7120_RX` returns the frame PF1 is to send back. -/
theorem Ledger.taken (hl : Ledger cfg app h) (hpc : app.pc = .receiving .pf1) {f : Frame}
    {c : ℕ} (hc : (h .pf1).completed ≤ c) :
    Ledger cfg { app with
      rxbuf := writeBytes app.rxbuf 0 f, len := f.length, pc := .send .pf1 }
      (Function.update h .pf1 { h .pf1 with
        pc := .idle, delivered := (h .pf1).delivered ++ [f], completed := c }) := by
  obtain ⟨k, hflow, hk⟩ := hl.flow
  obtain rfl := hk 1 (by rw [hpc]; rfl)
  have hposted := hflow.posted1
  have hdelivered := hflow.delivered1
  simp only [Nat.reduceLeDiff, if_false, Nat.add_zero] at hposted hdelivered
  have hcounted := hl.counted
  rw [hpc, if_neg (by simp)] at hcounted
  have hset : ∀ p, (h p).posted.length ≤ (h p).completed := fun p =>
    hl.settled p (by simp [hpc]) (by simp [hpc, Pc.stage])
  refine ⟨by simp, hl.size, fun p => ?_, ⟨2, ?_, fun j hj => Option.some.inj hj⟩,
    fun p _ _ => ?_, hl.built, ?_, fun _ => ?_, ?_⟩
  · cases p with
    | pf0 =>
      have hat := hl.control .pf0
      rw [hpc] at hat
      exact hat
    | pf1 => rfl
  · constructor
    · exact hflow.posted0
    · simp [hdelivered]
    · simp [hposted]
  · cases p with
    | pf0 => exact hset .pf0
    | pf1 => exact (hset .pf1).trans hc
  · exact echoed_receive hl.echoed (hposted.trans hdelivered.symm).le f
  · simpa using unanswered_of_received (hposted.trans hdelivered.symm) app.rxbuf f
  · simpa using hcounted

/-- `SFC7120_RX` returns the echo. -/
theorem Ledger.echo (hl : Ledger cfg app h) (hpc : app.pc = .receiving .pf0) {f : Frame}
    {c : ℕ} (hc : (h .pf0).completed ≤ c) :
    Ledger cfg { app with
      rxbuf := writeBytes app.rxbuf 0 f, len := f.length, pc := .landed }
      (Function.update h .pf0 { h .pf0 with
        pc := .idle, delivered := (h .pf0).delivered ++ [f], completed := c }) := by
  obtain ⟨k, hflow, hk⟩ := hl.flow
  obtain rfl := hk 3 (by rw [hpc]; rfl)
  have hcounted := hl.counted
  rw [hpc, if_neg (by simp)] at hcounted
  have hset : ∀ p, (h p).posted.length ≤ (h p).completed := fun p =>
    hl.settled p (by simp [hpc]) (by simp [hpc, Pc.stage])
  refine ⟨by simp, hl.size, fun p => ?_, ⟨0, ?_, fun j hj => Option.some.inj hj⟩,
    fun p _ _ => ?_, hl.built, hl.echoed, by simp, ?_⟩
  · cases p with
    | pf0 => rfl
    | pf1 =>
      have hat := hl.control .pf1
      rw [hpc] at hat
      exact hat
  · constructor
    · simpa using hflow.posted0
    · simpa using hflow.delivered1
    · simpa using hflow.posted1
  · cases p with
    | pf0 => exact (hset .pf0).trans hc
    | pf1 => exact hset .pf1
  · simpa using hcounted

/-- `SFC7120_TX` has posted a frame PF0 built. -/
theorem Ledger.launch (hl : Ledger cfg app h) (hpc : app.pc = .send .pf0) {f : Frame}
    (hf : Built cfg f) (frame : Buf) (seq : BitVec 32) {t : TxWait} {c : ℕ} :
    Ledger cfg { app with frame := frame, seq := seq, pc := .sending .pf0 }
      (Function.update h .pf0 { h .pf0 with
        pc := .txWait t, posted := (h .pf0).posted ++ [f], completed := c }) := by
  obtain ⟨k, hflow, hk⟩ := hl.flow
  obtain rfl := hk 0 (by rw [hpc]; rfl)
  have hcounted := hl.counted
  rw [hpc, if_neg (by simp)] at hcounted
  refine ⟨by simp, hl.size, fun p => ?_, ⟨1, ?_, fun j hj => Option.some.inj hj⟩,
    fun p hp _ => ?_, ?_, hl.echoed, by simp, by simpa using hcounted⟩
  · cases p with
    | pf0 => exact ⟨t, rfl⟩
    | pf1 =>
      have hat := hl.control .pf1
      rw [hpc] at hat
      exact hat
  · constructor
    · simpa using hflow.posted0
    · exact hflow.delivered1
    · exact hflow.posted1
  · cases p with
    | pf0 => exact absurd rfl hp
    | pf1 => exact hl.settled .pf1 (by simp [hpc]) (by simp [hpc, Pc.stage])
  · intro g hg
    rw [Function.update_self] at hg
    rcases List.mem_append.mp hg with hg | hg
    · exact hl.built g hg
    · rwa [List.mem_singleton.mp hg]

/-- `SFC7120_TX` has posted the swap of the frame PF1 took. -/
theorem Ledger.reflect (hl : Ledger cfg app h) (hpc : app.pc = .send .pf1) {f : Frame}
    (hf : (h .pf1).delivered[(h .pf1).posted.length]? = some f) (rxbuf : Buf) {t : TxWait}
    {c : ℕ} :
    Ledger cfg { app with rxbuf := rxbuf, pc := .sending .pf1 }
      (Function.update h .pf1 { h .pf1 with
        pc := .txWait t, posted := (h .pf1).posted ++ [swapped f], completed := c }) := by
  obtain ⟨k, hflow, hk⟩ := hl.flow
  obtain rfl := hk 2 (by rw [hpc]; rfl)
  have hcounted := hl.counted
  rw [hpc, if_neg (by simp)] at hcounted
  refine ⟨by simp, hl.size, fun p => ?_, ⟨3, ?_, fun j hj => Option.some.inj hj⟩,
    fun p hp _ => ?_, hl.built, ?_, by simp, by simpa using hcounted⟩
  · cases p with
    | pf0 =>
      have hat := hl.control .pf0
      rw [hpc] at hat
      exact hat
    | pf1 => exact ⟨t, rfl⟩
  · constructor
    · exact hflow.posted0
    · exact hflow.delivered1
    · simpa using hflow.posted1
  · cases p with
    | pf0 => exact hl.settled .pf0 (by simp [hpc]) (by simp [hpc, Pc.stage])
    | pf1 => exact absurd rfl hp
  · simpa using echoed_post hl.echoed hf

/-- With a round trip counted, another frame may go out. -/
theorem Ledger.again (hl : Ledger cfg app h) (hpc : app.pc = .landed) {app' : App}
    (hnext : app'.pc = .send .pf0 ∨ app'.pc = .done) (hsize : app'.s < sizes.length)
    (hcount : app'.rows.sum + app'.trips = app.rows.sum + (app.trips + 1)) :
    Ledger cfg app' h := by
  obtain ⟨k, hflow, hk⟩ := hl.flow
  obtain rfl := hk 0 (by rw [hpc]; rfl)
  have hcounted := hl.counted
  rw [if_pos hpc] at hcounted
  have hidle : ∀ p, (h p).pc = .idle := fun p => by
    have hat := hl.control p
    rw [hpc] at hat
    exact hat
  have hset : ∀ p, (h p).posted.length ≤ (h p).completed := fun p =>
    hl.settled p (by simp [hpc]) (by simp [hpc, Pc.stage])
  rcases hnext with hpc' | hpc' <;>
    refine ⟨by simp [hpc'], hsize, fun p => by rw [hpc']; exact hidle p,
      ⟨0, hflow, fun j hj => by rw [hpc'] at hj; exact Option.some.inj hj⟩, fun p _ _ => hset p,
      hl.built, hl.echoed, by simp [hpc'], ?_⟩ <;>
    rw [hpc', if_neg (by simp)] <;> omega

/-- A round trip is counted; the loop goes on, or the next size or loop begins. -/
theorem Ledger.land (hl : Ledger cfg app h) (hpc : app.pc = .landed) (expired : Bool) :
    Ledger cfg (land app expired) h := by
  have hzero : 0 < sizes.length := by decide
  have hnext : Ledger cfg (nextSize { app with trips := app.trips + 1 }) h := by
    unfold nextSize
    dsimp only
    split_ifs with hs htail
    · exact hl.again hpc (.inl rfl) hs (by simp)
    · exact hl.again hpc (.inr rfl) hzero (by simp)
    · exact hl.again hpc (.inl rfl) hzero (by simp)
  unfold PingPong.land
  dsimp only
  split
  · split_ifs
    · exact hl.again hpc (.inl rfl) hl.size rfl
    · exact hnext
  · split_ifs
    · exact hnext
    · exact hl.again hpc (.inl rfl) hl.size rfl

theorem host_rxReturn (hlay : Duplex.Layout tx rx) (hinv : KernelDuplex.Inv tx rx d) {f : Frame}
    (hpc : d.kern.pc = .rxRepost f) (hstep : KernelDuplex.step d (.kern .rxReturn) = some e) :
    ∃ c, (host d).completed ≤ c ∧ host e = { host d with
      pc := .idle, delivered := (host d).delivered ++ [f], completed := c } := by
  obtain ⟨k, hk, rfl⟩ := step_kern hstep
  have hmono := hinv.completed_mono (d.posted ++ KernelDuplex.launched d.kern .rxReturn)
    (KernelDuplex.step_effect hlay hinv.receive hk)
  simp only [KernelRx.step, hpc, Option.some.injEq] at hk
  subst hk
  refine ⟨_, hmono, ?_⟩
  simp [host, KernelDuplex.launched]

theorem Inv.returned (hcab : cfg.Cabled) (hinv : Inv cfg s) {f : Frame}
    (hpc : s.app.pc = .receiving p) (hport : (s.net.port p).kern.pc = .rxRepost f)
    (hstep : kernel.onPort s p (.kern .rxReturn) { s.app with
      rxbuf := writeBytes s.app.rxbuf 0 f, len := f.length
      pc := if p = .pf1 then .send .pf1 else .landed } = some t) : Inv cfg t := by
  have hturn : KernelDuplex.InTurn (s.net.port p) (.kern .rxReturn) :=
    ⟨rfl, (absurd · (by simp)), absurd rfl⟩
  apply hinv.at_port hcab hturn (by simp) hstep
  intro e he
  obtain ⟨c, hc, hnew⟩ := host_rxReturn (hcab.layout p) (hinv.good p) hport he
  rw [hnew]
  cases p with
  | pf0 => exact hinv.account.echo hpc hc
  | pf1 => exact hinv.account.taken hpc hc

theorem host_tx {req : TxReq} (hpc : d.kern.pc = .idle) (hval : txValidate req = none)
    (hstep : KernelDuplex.step d (.kern (.tx req none)) = some e) :
    ∃ t, host e = { host d with
      pc := .txWait t
      posted := (host d).posted ++ [req.bytes.take req.length]
      completed := e.completed } := by
  obtain ⟨k, hk, rfl⟩ := step_kern hstep
  simp only [KernelRx.step, hpc, hval, Option.some.injEq] at hk
  subst hk
  refine ⟨⟨d.kern.sc.txHead, 0, false, 0⟩, ?_⟩
  simp [host, KernelDuplex.launched, hpc, hval]

/-- The handler takes what the program asks for. -/
theorem txValidate_own {len : ℕ} (bytes : List Byte) (hlen : 0 < len ∧ len ≤ txBufferSize) :
    txValidate ⟨true, true, bufLen, len, bytes⟩ = none := by
  have hsize : ¬(len = 0 ∨ txBufferSize < len) := by omega
  have hcap : ¬bufLen < len := by
    simp only [bufLen, txBufferSize] at *
    omega
  unfold txValidate
  rw [if_neg (by simp), if_neg (by simp), if_neg hsize, if_neg hcap]

/-- A call of `sfc7120_tx` for a frame of the program's buffer. -/
theorem Inv.callTx (hcab : cfg.Cabled) (hinv : Inv cfg s) {buf : Buf} {len : ℕ}
    (hpc : s.app.pc = .send p) (hlen : 0 < len ∧ len ≤ txBufferSize)
    (hkeep : ∀ w c, Ledger cfg { app with pc := .sending p }
      (Function.update (kernel.views s.net) p { host (s.net.port p) with
        pc := .txWait w
        posted := (host (s.net.port p)).posted ++ [readBytes buf 0 len]
        completed := c }))
    (hstep : callTx s p buf len app = some t) : Inv cfg t := by
  have hidle : (s.net.port p).kern.pc = .idle := by
    have hat := hinv.account.control p
    rw [hpc] at hat
    exact hat
  have hset : (s.net.port p).Settled :=
    hinv.account.settled p (by simp [hpc]) (by cases p <;> simp [hpc, Pc.stage])
  have hval := txValidate_own (readBytes buf 0 bufLen) hlen
  have hturn : KernelDuplex.InTurn (s.net.port p)
      (.kern (.tx ⟨true, true, bufLen, len, readBytes buf 0 bufLen⟩ none)) :=
    ⟨rfl, (absurd · (by simp)), fun _ => hset⟩
  have hle : len ≤ bufLen := by
    simp only [bufLen, txBufferSize] at *
    omega
  simp only [PingPong.callTx, hval] at hstep
  apply hinv.at_port hcab hturn (by simp) hstep
  intro e he
  obtain ⟨w, hnew⟩ := host_tx hidle hval he
  simp only [take_readBytes _ _ _ _ hle] at hnew
  rw [hnew]
  exact hkeep w e.completed

theorem Inv.send (hcab : cfg.Cabled) (hinv : Inv cfg s) {expired : Bool}
    (hpc : s.app.pc = .send p) (hstep : appStep cfg s expired = some t) : Inv cfg t := by
  cases p with
  | pf0 =>
    simp only [appStep, hpc] at hstep
    have hmem : size (nextFrame cfg s.app) ∈ sizes := getD_sizes_mem hinv.account.size
    have hbounds := sizes_bounds hmem
    have hframe := hcab.nextFrame_built s.app.frame s.app.seq hmem
    refine hinv.callTx hcab hpc ⟨by omega, by simp only [txBufferSize]; omega⟩ (fun w c => ?_) hstep
    exact hinv.account.launch hpc hframe _ _
  | pf1 =>
    simp only [appStep, hpc] at hstep
    have hbuilt : ∀ f ∈ (host (s.net.port .pf1)).delivered, Built cfg f := fun f =>
      (hinv.circle hcab).received_built hinv.account.circulates
    obtain ⟨f, hf, hmem, hread⟩ := (hinv.account.holding hpc).swap hcab hbuilt
    have hbounds := sizes_bounds hmem
    refine hinv.callTx hcab hpc ⟨by omega, by simp only [txBufferSize]; omega⟩ (fun w c => ?_) hstep
    rw [hread]
    exact hinv.account.reflect hpc hf _

/-- Inside `sfc7120_rx`. -/
theorem Inv.receiving (hcab : cfg.Cabled) (hinv : Inv cfg s) {expired : Bool}
    (hpc : s.app.pc = .receiving p) (hstep : appStep cfg s expired = some t) : Inv cfg t := by
  have hcall : s.app.pc.busy = some p := by rw [hpc]; rfl
  simp only [appStep, hpc] at hstep
  split at hstep
  next r hport =>
    split_ifs at hstep with hagain hfound
    · refine hinv.stay hcab hstep hcall rfl (absurd · (by simp)) fun k hk => ?_
      obtain ⟨r', -, -, rfl⟩ := KernelRx.step_rxPoll hk
      simp [hpc, Pc.At]
    · refine hinv.inCall hcab hstep rfl (absurd · (by simp))
        (fun e he hq => ⟨?_, fun _ => absurd rfl⟩) (fun q hq => ?_) (fun e he => ?_) (.inl rfl)
        ⟨by simp, by simp [hpc]⟩ (by simp)
      · obtain ⟨k, hk, rfl⟩ := step_kern he
        simp only [KernelRx.step, hport, hagain, Bool.false_eq_true, if_false, hfound,
          Option.some.injEq] at hk
        subst hk
        rfl
      · exact ⟨by simp [hpc, Pc.busy, hq.symm], by simp [Pc.busy]⟩
      · exact (Pc.failed.inj he).symm
    · rw [← hpc] at hstep
      refine hinv.stay hcab hstep hcall rfl (absurd · (by simp)) fun k hk => ?_
      obtain ⟨b, hb⟩ := Option.ne_none_iff_exists'.mp hfound
      simp only [KernelRx.step, hport, hagain, Bool.false_eq_true, if_false, hb,
        Option.some.injEq] at hk
      subst hk
      simp [hpc, Pc.At]
  next b hport =>
    refine hinv.stay hcab hstep hcall rfl (absurd · (by simp)) fun k hk => ?_
    simp only [KernelRx.step, hport, Option.some.injEq] at hk
    subst hk
    simp [hpc, Pc.At]
  next f hport => exact hinv.returned hcab hpc hport hstep
  next => cases hstep

theorem Inv.app_step (hcab : cfg.Cabled) (hinv : Inv cfg s) {expired : Bool}
    (hstep : appStep cfg s expired = some t) : Inv cfg t := by
  cases hpc : s.app.pc with
  | send p => exact hinv.send hcab hpc hstep
  | sending p => exact hinv.sending hcab hpc hstep
  | recv p => exact hinv.recv hcab hpc hstep
  | receiving p => exact hinv.receiving hcab hpc hstep
  | landed =>
    simp only [appStep, hpc] at hstep
    obtain rfl := Option.some.inj hstep
    exact Port.Inv.go hinv (hinv.account.land hpc expired)
  | done => simp [appStep, hpc] at hstep
  | failed e => simp [appStep, hpc] at hstep

theorem inv_start (cfg : Config) (phases : List Phase) (frame rxbuf : Buf) :
    Inv cfg (start cfg phases frame rxbuf) := by
  apply Port.inv_start
  · exact fun p => KernelDuplex.inv_start _ _ _
  · exact fun _ => rfl
  · exact fun _ => rfl
  · have hzero : 0 < sizes.length := by decide
    have hbuilt : ∀ f ∈ ([] : List (List Byte)), Built cfg f := by simp
    by_cases hp : phases = []
    · simp only [hp, if_true]
      exact ⟨by simp, hzero, fun _ => rfl, ⟨0, ⟨rfl, rfl, rfl⟩, fun j hj => Option.some.inj hj⟩,
        fun _ _ _ => le_rfl, hbuilt, rfl, by simp, rfl⟩
    · simp only [hp, if_false]
      exact ⟨by simp, hzero, fun _ => rfl, ⟨0, ⟨rfl, rfl, rfl⟩, fun j hj => Option.some.inj hj⟩,
        fun _ _ _ => le_rfl, hbuilt, rfl, by simp, rfl⟩

theorem inv_step (hcab : cfg.Cabled) (s : Sys) (a : Act) (t : Sys) (hinv : Inv cfg s)
    (hstep : step cfg s a = some t) : Inv cfg t :=
  Port.inv_step (kernel_sound hcab) hcab (by decide) Ledger.circulates
    (fun hinv hstep => Inv.app_step hcab hinv hstep) s a t hinv hstep

/-- Frames the receive ioctl has returned at a port. -/
def received (net : Net KernelDuplex.Sys) (p : Pf) : List Frame :=
  (net.port p).kern.delivered.map (·.2)

/-- Whatever the order in which the program, the two NICs and the cable take their steps: a
transmit poll never meets an RX event, packets and events stay in step at both ports and no frame
is lost; PF1 receives what PF0 posted, PF0 its swaps, in order, with at most one frame out; a
transmit that has returned success is on the wire; the session fails by a timeout only; and its
counts are the echoes received. -/
theorem ping_pong_in_step (hcab : cfg.Cabled) {phases : List Phase} {frame rxbuf : Buf}
    {acts : List Act} (hrun : run (step cfg) (start cfg phases frame rxbuf) acts = some s) :
    (∀ e, s.app.pc = .failed e → e = .ETIMEDOUT) ∧
      (∀ p, s.app.pc = .sending p → (s.net.port p).kern.rxAtHead = false) ∧
      (∀ p, KernelRx.InStep (s.net.port p).kern) ∧ (∀ p, s.net.dropped p = []) ∧
      (∀ p, s.app.pc = .recv p.peer → (s.net.port p).sent = (s.net.port p).posted) ∧
      (∀ f ∈ (s.net.port .pf0).posted, Built cfg f) ∧
      received s.net .pf1 <+: (s.net.port .pf0).posted ∧
      received s.net .pf0 <+: (s.net.port .pf0).posted.map swapped ∧
      (s.net.port .pf0).posted.length ≤ (received s.net .pf0).length + 1 ∧
      s.app.rows.sum + s.app.trips + (if s.app.pc = .landed then 1 else 0) =
        (received s.net .pf0).length := by
  have hinv : Inv cfg s := run_invariant (inv_step hcab) (inv_start cfg phases frame rxbuf) hrun
  have hl : Ledger cfg s.app (kernel.views s.net) := hinv.account
  have hc := hinv.circle hcab
  refine ⟨hl.timeout, fun p hpc => ?_, fun p => (hinv.good p).receive.inStep,
    hinv.linked.dropped, fun p hpc => ?_, hl.built, hc.out, hc.home hl.circulates,
    hl.circulates.launched, hl.counted⟩
  · have hat : s.app.pc.At p (host (s.net.port p)).pc := hl.control p
    rw [hpc] at hat
    obtain ⟨w, hport⟩ : ∃ w, (s.net.port p).kern.pc = .txWait w := by simpa [Pc.At, host] using hat
    exact (hinv.good p).rxAtHead_eq_false (by rw [hport]; rfl) (by rw [hport]; rfl)
      (hinv.quiet hcab hpc)
  · have hset : (s.net.port p).posted.length ≤ (s.net.port p).completed :=
      hl.settled p (by simp [hpc]) (by cases p <;> simp [hpc, Pc.stage, Pf.peer])
    have hdone := (hinv.good p).completed_le.1
    have hfetched := (hinv.good p).fetched
    exact (hc.forth p).eq_of_length_le (by omega)

end

/-- One frame bounced, with the echo received. -/
def roundTrip : List Act :=
  [.app false, .nic .pf0 .nicFetch, .nic .pf0 .nicSend,
    .arrive .pf1 [0, 0, 0, 0, 0, 0, 0, 0, 64, 0, 0, 0, 0, 0],
    .nic .pf0 (.kern (.nicTxEvent 0x2000000000000000)), .app false,
    .nic .pf1 (.kern (.nicRxEvent 78)), .app false, .app false, .app false, .app false, .app false,
    .app false, .app false, .nic .pf1 .nicFetch, .nic .pf1 .nicSend,
    .arrive .pf0 [0, 0, 0, 0, 0, 0, 0, 0, 64, 0, 0, 0, 0, 0],
    .nic .pf1 (.kern (.nicTxEvent 0x2000000000000000)), .app false, .app false,
    .nic .pf0 (.kern (.nicRxEvent 78)), .app false, .app false, .app false, .app false, .app false,
    .app false]

theorem ping_pong_in_step_round_trip :
    ∃ s, run (step sampleConfig) (start sampleConfig [.lat, .tput] (fun _ => 0) fun _ => 0)
        roundTrip = some s ∧
      received s.net .pf0 = [benchFrame (sampleConfig.mac .pf0) (sampleConfig.mac .pf1) 64 0] ∧
      s.app.trips = 1 ∧ KernelRx.InStep (s.net.port .pf1).kern := by
  have hend : (run (step sampleConfig) (start sampleConfig [.lat, .tput] (fun _ => 0) fun _ => 0)
      roundTrip).map (fun s => (received s.net .pf0, s.app.trips)) =
        some ([benchFrame (sampleConfig.mac .pf0) (sampleConfig.mac .pf1) 64 0], 1) := by
    decide +kernel
  obtain ⟨s, hs, hd⟩ := Option.map_eq_some_iff.mp hend
  obtain ⟨hecho, htrips⟩ := Prod.mk.inj hd
  exact ⟨s, hs, hecho, htrips, (ping_pong_in_step sampleConfig_cabled hs).2.2.1 .pf1⟩

end Sfc7120.Bench.PingPong

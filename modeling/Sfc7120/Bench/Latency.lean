import Sfc7120.Bench.Meter
import Sfc7120.Bench.Direct

/-! `run_latency` over the direct path. One frame at a time goes round two cabled ports, posted
with `sfc7120_tx_post` and awaited with `wait_rx`, which polls eight events at a time, receives the
frame of the first RX event it sees and forgets the rest of that batch. The program, both NICs and
the cable take their steps in any order, and the clock reads anything. -/
namespace Sfc7120.Bench.Latency

open ByteMemory Machine
open PingPong (latSamples)

/-- `RX_TIMEOUT_NS`. -/
def rxTimeoutNs : Word := 1000000000

/-- Where the program is; inside a call, the port says how far the call has got. -/
inductive Pc where
  | send
  | posting (p : Pf)
  | wait (p : Pf)
  | polling (p : Pf)
  | scan (p : Pf) (evs : List Ev)
  | recv (p : Pf) (evs : List Ev)
  | echo
  | landed
  | report
  | done
  | failed
  | timedOut (p : Pf)

structure App where
  pc : Pc
  meter : Meter
  t0 : Word
  tries : ℕ
  deadline : Word
  frame : Buf
  rxbuf : Buf
  len : ℕ
  /-- RX events polled and never answered with a receive. -/
  lost : List (BitVec 16)

abbrev Sys := Bench.Sys Duplex.Sys App

/-- A step of the program sees what the clock reads. -/
abbrev Act := Bench.Act Duplex.Act Word

section
variable (cfg : Config)

def nextFrame (app : App) : App :=
  { app with
    frame := cfg.nextFrame app.frame app.meter.size app.meter.seq
    meter := { app.meter with seq := app.meter.seq + 1 } }

/-- A poll brought no RX event: every 65536th time the clock is read, the first time to set the
deadline. -/
def spin (app : App) (p : Pf) (now : Word) : App :=
  let app := { app with pc := .wait p, tries := app.tries + 1 }
  if app.tries &&& 0xffff = 0 then
    if app.deadline = 0 then { app with deadline := now + rxTimeoutNs }
    else if app.deadline ≤ now then { app with pc := .timedOut p }
    else app
  else app

/-- `wait_rx` has received its frame. -/
def received (app : App) (p : Pf) (f : Frame) : App :=
  { app with
    rxbuf := writeBytes app.rxbuf 0 f
    len := f.length
    pc := if p = .pf1 then .echo else .landed }

/-- `wait_rx` returns; the events of its batch are gone with `evs`. -/
def forget (s : Sys) (p : Pf) : Sys where
  net := { s.net with
    port := Function.update s.net.port p { s.net.port p with pending := [] } }
  app := { s.app with lost := s.app.lost ++ (s.net.port p).pending }

/-- An echo has come back at time `now`. -/
def land (app : App) (now : Word) : App :=
  let meter := app.meter.lap (now - app.t0)
  { app with meter := meter, pc := if meter.i < perSize then .send else .report }

/-- The row is printed, and the next size or the end comes. -/
def report (app : App) : App :=
  let meter := app.meter.report
  { app with meter := meter, pc := if meter.s < sizes.length then .send else .done }

/-- One step of the program. -/
def appStep (s : Sys) (now : Word) : Option Sys :=
  match s.app.pc with
  | .send =>
      let app := { nextFrame cfg s.app with t0 := now, len := 0 }
      callPost s .pf0 app.frame s.app.meter.size { app with pc := .posting .pf0 }
        { app with pc := .failed }
  | .posting p => inPost s p { s.app with pc := .wait p.peer, tries := 0, deadline := 0 }
  | .wait p => callPoll s p { s.app with pc := .polling p } { s.app with pc := .failed }
  | .polling p => inPoll s p fun evs => { s.app with pc := .scan p evs }
  | .scan p (ev :: evs) =>
      if ev.type ≠ .rx then some { s with app := { s.app with pc := .scan p evs } }
      else callRecv s p { s.app with pc := .recv p evs } { s.app with pc := .failed }
  | .scan p [] => some { s with app := spin s.app p now }
  | .recv p _ =>
      match (s.net.port p).rxPc with
      | .posted f => (direct.onPort s p (.rx .recvReturn) (received s.app p f)).map fun t =>
          forget t p
      | _ => direct.onPort s p (.rx .recvPost) s.app
  | .echo =>
      let app := { s.app with rxbuf := swapMac s.app.rxbuf }
      callPost s .pf1 app.rxbuf app.len { app with pc := .posting .pf1 } { app with pc := .failed }
  | .landed => some { s with app := land s.app now }
  | .report => some { s with app := report s.app }
  | .done => none
  | .failed => none
  | .timedOut _ => none

def step : Sys → Act → Option Sys := direct.sysStep cfg.mac (appStep cfg)

/-- Both ports just initialised, the cable empty, nothing written yet to the sample array. -/
def start (frame rxbuf : Buf) (samples : ℕ → Word) : Sys where
  net := .start cfg.direct
  app := ⟨.send, ⟨0, 0, 0, samples, [], []⟩, 0, 0, 0, frame, rxbuf, 0, []⟩

/-- The frame PF0 sends on round trip number `n`. -/
def scripted (n : ℕ) : Frame :=
  benchFrame (cfg.mac .pf1) (cfg.mac .pf0) (sizes.getD (n / perSize) 0)
    (BitVec.ofNat 32 (n % perSize))

end

/-- The frame that is awaited at a port has been posted by its peer: at PF1 the frame itself, at
PF0 its echo. -/
def awaited : Pf → ℕ
  | .pf1 => 1
  | .pf0 => 3

/-- How far the frame in flight has got: PF0 posted it, PF1 received it, PF1 posted its echo. -/
def Pc.stage : Pc → ℕ
  | .posting .pf1 => 2
  | .wait p => awaited p
  | .polling p => awaited p
  | .scan p _ => awaited p
  | .recv p _ => awaited p
  | .echo => 2
  | .timedOut p => awaited p
  | _ => 0

/-- An echo received and not yet counted. -/
def Pc.uncounted : Pc → ℕ
  | .landed => 1
  | _ => 0

/-- The program's books: PF0 posts its script, PF1 the swaps of what it receives, and every echo is
a round trip. -/
structure Ledger (cfg : Config) (app : App) (h : Pf → Host) : Prop extends Traffic cfg h where
  alive : app.pc ≠ .failed
  kept : app.lost = []
  flow : Flow app.pc.stage (fun p => (h p).posted) fun p => (h p).delivered
  scripted : (h .pf0).posted = (List.range (h .pf0).posted.length).map (scripted cfg)
  scripting : ∀ pkt, (h .pf0).packet = some pkt → pkt = Latency.scripted cfg (h .pf0).posted.length
  holding : app.pc = .echo → Unanswered (h .pf1).posted (h .pf1).delivered app.rxbuf app.len
  counted : app.meter.trips + app.pc.uncounted = (h .pf0).delivered.length

/-- The counters at each point of the loops. -/
def Pc.Turn (pc : Pc) (m : Meter) : Prop :=
  match pc with
  | .send => m.s < sizes.length ∧ m.i < perSize ∧ m.seq = BitVec.ofNat 32 m.i
  | .report => m.s < sizes.length ∧ m.i = perSize
  | .done => m.s = sizes.length ∧ m.i = 0
  | _ => m.s < sizes.length ∧ m.i < perSize ∧ m.seq = BitVec.ofNat 32 (m.i + 1)

/-- What the program measures, and how long it has waited when it gives up. -/
structure Timing (app : App) : Prop where
  tally : app.meter.Tally
  turn : app.pc.Turn app.meter
  armed : app.deadline ≠ 0 → 65536 ≤ app.tries
  late : ∀ p, app.pc = .timedOut p → 131072 ≤ app.tries

/-- The books and the measurements. -/
structure Accounts (cfg : Config) (app : App) (h : Pf → Host) : Prop where
  ledger : Ledger cfg app h
  timing : Timing app

section
variable {cfg : Config} {s t : Sys} {app app' : App} {h : Pf → Host} {p : Pf} {evs : List Ev}
  {now : Word}

/-- The points inside a round trip. -/
def Pc.mid : Pc → Bool
  | .posting _ => true
  | .wait _ => true
  | .polling _ => true
  | .scan _ _ => true
  | .recv _ _ => true
  | .echo => true
  | .landed => true
  | _ => false

theorem Pc.turn_mid {pc : Pc} {m : Meter} (hmid : pc.mid = true) :
    pc.Turn m ↔ m.s < sizes.length ∧ m.i < perSize ∧ m.seq = BitVec.ofNat 32 (m.i + 1) := by
  cases pc <;> first | rfl | cases hmid

/-- Inside a round trip the meter stands still. -/
theorem Timing.mid (ht : Timing app) (hmid : app.pc.mid = true) (hmid' : app'.pc.mid = true)
    (hmeter : app'.meter = app.meter) (harmed : app'.deadline ≠ 0 → 65536 ≤ app'.tries) :
    Timing app' := by
  refine ⟨hmeter ▸ ht.tally, ?_, harmed, fun p hp => ?_⟩
  · rw [Pc.turn_mid hmid', hmeter]
    exact (Pc.turn_mid hmid).mp ht.turn
  · rw [hp] at hmid'
    cases hmid'

/-- The deadline is set no earlier than at the 65536th poll, and so passed no earlier than at twice
that. -/
theorem Timing.spin (ht : Timing app) (hpc : app.pc = .scan p []) (now : Word) :
    Timing (spin app p now) := by
  have hmid : app.pc.mid = true := by rw [hpc]; rfl
  have hmod : (app.tries + 1) &&& 0xffff = (app.tries + 1) % 65536 :=
    Nat.and_two_pow_sub_one_eq_mod _ 16
  simp only [Latency.spin]
  split_ifs with hround hset hlate
  · refine ht.mid hmid rfl rfl fun _ => ?_
    show 65536 ≤ app.tries + 1
    omega
  · have harmed := ht.armed hset
    refine ⟨ht.tally, ?_, fun _ => ?_, fun q _ => ?_⟩
    · exact (Pc.turn_mid hmid).mp ht.turn
    · show 65536 ≤ app.tries + 1
      omega
    · show 131072 ≤ app.tries + 1
      omega
  · exact ht.mid hmid rfl rfl fun hne => (ht.armed hne).trans (Nat.le_succ _)
  · exact ht.mid hmid rfl rfl fun hne => (ht.armed hne).trans (Nat.le_succ _)

theorem Timing.land (ht : Timing app) (hpc : app.pc = .landed) (now : Word) :
    Timing (land app now) := by
  obtain ⟨hs, hi, hseq⟩ : _ ∧ _ ∧ _ := (Pc.turn_mid (by rw [hpc]; rfl)).mp ht.turn
  simp only [Latency.land]
  split_ifs with hmore
  · exact ⟨ht.tally.lap _, ⟨hs, hmore, hseq⟩, ht.armed, by simp⟩
  · have hend : app.meter.i + 1 = perSize := by
      have hnot : ¬app.meter.i + 1 < perSize := hmore
      omega
    exact ⟨ht.tally.lap _, ⟨hs, hend⟩, ht.armed, by simp⟩

theorem Timing.report (ht : Timing app) (hpc : app.pc = .report) : Timing (report app) := by
  obtain ⟨hs, hi⟩ : _ ∧ _ := by
    have hturn := ht.turn
    rw [hpc] at hturn
    exact hturn
  have hpos : 0 < perSize := by decide
  simp only [Latency.report]
  split_ifs with hmore
  · exact ⟨ht.tally.report hi, ⟨hmore, hpos, rfl⟩, ht.armed, by simp⟩
  · have hend : app.meter.s + 1 = sizes.length := by
      have hnot : ¬app.meter.s + 1 < sizes.length := hmore
      omega
    exact ⟨ht.tally.report hi, ⟨hend, rfl⟩, ht.armed, by simp⟩

/-- One frame at a time goes round. -/
theorem books (hcab : cfg.Cabled) : Books cfg 1 (Accounts cfg) where
  cabled := hcab
  few := by decide
  circulates hl := hl.ledger.flow.circulates hl.ledger.built hl.ledger.echoed

/-- The program moves on inside its stage. -/
theorem Ledger.go (hl : Ledger cfg app h) (hstage : app'.pc.stage = app.pc.stage)
    (halive : app'.pc ≠ .failed) (hecho : app'.pc ≠ .echo) (hlost : app'.lost = app.lost)
    (hcount : app'.meter.trips + app'.pc.uncounted = app.meter.trips + app.pc.uncounted) :
    Ledger cfg app' h := by
  refine ⟨hl.toTraffic, halive, hlost ▸ hl.kept, ?_, hl.scripted, hl.scripting, (absurd · hecho),
    ?_⟩
  · rw [hstage]
    exact hl.flow
  · rw [hcount]
    exact hl.counted

/-- PF0 copies the next frame of its script. -/
theorem Ledger.launch (hl : Ledger cfg app h) (hpc : app.pc = .send) {pkt : List Byte}
    (hpkt : Built cfg pkt) (hnext : pkt = Latency.scripted cfg (h .pf0).posted.length)
    (hpc' : app'.pc = .posting .pf0) (hlost : app'.lost = app.lost)
    (htrips : app'.meter.trips = app.meter.trips) :
    Ledger cfg app' (Function.update h .pf0 { h .pf0 with packet := some pkt }) := by
  have hcounted := hl.counted
  have hflow := hl.flow
  rw [hpc] at hcounted hflow
  refine ⟨hl.toTraffic.launch hpkt, by simp [hpc'], hlost ▸ hl.kept, ?_, ?_, ?_, by simp [hpc'], ?_⟩
  · rw [hpc']
    constructor
    · simpa [Pc.stage] using hflow.posted0
    · simpa [Pc.stage] using hflow.delivered1
    · simpa [Pc.stage] using hflow.posted1
  · simpa using hl.scripted
  · intro pkt' hp
    obtain rfl : pkt = pkt' := by simpa using hp
    simpa using hnext
  · rw [hpc', htrips]
    simpa [Pc.uncounted] using hcounted

/-- The swapped frame is copied into PF1's slot. -/
theorem Ledger.echo (hl : Ledger cfg app h) (hpc : app.pc = .echo) {f : Frame}
    (hf : (h .pf1).delivered[(h .pf1).posted.length]? = some f) {rxbuf : Buf} :
    Ledger cfg { app with rxbuf := rxbuf, pc := .posting .pf1 }
      (Function.update h .pf1 { h .pf1 with packet := some (swapped f) }) := by
  have hcounted := hl.counted
  have hflow := hl.flow
  rw [hpc] at hcounted hflow
  refine ⟨hl.toTraffic.echo hf, by simp, hl.kept, ?_, ?_, ?_, by simp, ?_⟩
  · constructor
    · simpa [Pc.stage] using hflow.posted0
    · simpa [Pc.stage] using hflow.delivered1
    · simpa [Pc.stage] using hflow.posted1
  · simpa using hl.scripted
  · simpa using hl.scripting
  · simpa [Pc.uncounted] using hcounted

/-- The call of `sfc7120_tx_post` returns: the frame or its echo is posted. -/
theorem Ledger.posted (hl : Ledger cfg app h) (hpc : app.pc = .posting p) {pkt : List Byte}
    (hpkt : (h p).packet = some pkt) {tries : ℕ} {deadline : Word} :
    Ledger cfg { app with pc := .wait p.peer, tries := tries, deadline := deadline }
      (Function.update h p { h p with packet := none, posted := (h p).posted ++ [pkt] }) := by
  have hcounted := hl.counted
  obtain ⟨hposted0, hdelivered1, hposted1⟩ := hl.flow
  rw [hpc] at hcounted hposted0 hdelivered1 hposted1
  refine ⟨hl.toTraffic.post hpkt, by simp, hl.kept, ?_, ?_, ?_, by simp, ?_⟩
  · cases p with
    | pf0 =>
      constructor
      · simpa [Pc.stage, Pf.peer, awaited] using hposted0
      · simpa [Pc.stage, Pf.peer, awaited] using hdelivered1
      · simpa [Pc.stage, Pf.peer, awaited] using hposted1
    | pf1 =>
      constructor
      · simpa [Pc.stage, Pf.peer, awaited] using hposted0
      · simpa [Pc.stage, Pf.peer, awaited] using hdelivered1
      · simpa [Pc.stage, Pf.peer, awaited] using hposted1
  · cases p with
    | pf0 =>
      simp only [Function.update_self, List.length_append, List.length_singleton]
      rw [List.range_succ, List.map_append, ← hl.scripted, hl.scripting pkt hpkt]
      rfl
    | pf1 => simpa using hl.scripted
  · cases p with
    | pf0 => simp
    | pf1 => simpa using hl.scripting
  · cases p with
    | pf0 => simpa [Pc.uncounted] using hcounted
    | pf1 => simpa [Pc.uncounted] using hcounted

/-- `wait_rx` returns the frame PF1 is to send back, or the echo. -/
theorem Ledger.received (hl : Ledger cfg app h) (hpc : app.pc = .recv p evs) (f : Frame) :
    Ledger cfg (received app p f)
      (Function.update h p { h p with delivered := (h p).delivered ++ [f] }) := by
  have hcounted := hl.counted
  obtain ⟨hposted0, hdelivered1, hposted1⟩ := hl.flow
  rw [hpc] at hcounted hposted0 hdelivered1 hposted1
  cases p with
  | pf0 =>
    have hle : (h .pf1).posted.length ≤ (h .pf1).delivered.length :=
      (hposted1.trans hdelivered1.symm).le
    refine ⟨hl.toTraffic.receive hle f, by simp [Latency.received], hl.kept, ?_, ?_, ?_,
      by simp [Latency.received], ?_⟩
    · constructor
      · simpa [Latency.received, Pc.stage, awaited] using hposted0
      · simpa [Latency.received, Pc.stage, awaited] using hdelivered1
      · simpa [Latency.received, Pc.stage, awaited] using hposted1
    · simpa using hl.scripted
    · simpa using hl.scripting
    · simpa [Latency.received, Pc.uncounted] using hcounted
  | pf1 =>
    have hsame : (h .pf1).posted.length = (h .pf1).delivered.length :=
      hposted1.trans hdelivered1.symm
    refine ⟨hl.toTraffic.receive hsame.le f, by simp [Latency.received], hl.kept, ?_, ?_, ?_,
      fun _ => ?_, ?_⟩
    · constructor
      · simpa [Latency.received, Pc.stage, awaited] using hposted0
      · simpa [Latency.received, Pc.stage, awaited] using hdelivered1
      · simpa [Latency.received, Pc.stage, awaited] using hposted1
    · simpa using hl.scripted
    · simpa using hl.scripting
    · simpa [Latency.received] using unanswered_of_received hsame app.rxbuf f
    · simpa [Latency.received, Pc.uncounted] using hcounted

/-- The program starts a round trip. -/
theorem keeps_send (hcab : cfg.Cabled) (hinv : Kept cfg (Accounts cfg) s) (hpc : s.app.pc = .send)
    (hstep : appStep cfg s now = some t) : Kept cfg (Accounts cfg) t := by
  obtain ⟨hl, ht⟩ : Accounts cfg s.app (direct.views s.net) := hinv.account
  simp only [appStep, hpc] at hstep
  obtain ⟨hs, hi, hseq⟩ : _ ∧ _ ∧ _ := by
    have hturn := ht.turn
    rw [hpc] at hturn
    exact hturn
  have hmem : s.app.meter.size ∈ sizes := getD_sizes_mem hs
  have hbounds := sizes_bounds hmem
  have hread := hcab.read_nextFrame s.app.frame s.app.meter.seq hmem
  have hcount : s.app.meter.trips = (host (s.net.port .pf0)).posted.length := by
    have hcounted := hl.counted
    have hposted := hl.flow.posted0
    rw [hpc] at hcounted hposted
    exact hcounted.trans hposted.symm
  have hscript : benchFrame (cfg.mac .pf1) (cfg.mac .pf0) s.app.meter.size s.app.meter.seq =
      scripted cfg s.app.meter.trips := by
    have hpos : 0 < perSize := by decide
    rw [scripted, Meter.trips, Nat.mul_add_div hpos, Nat.div_eq_of_lt hi, Nat.mul_add_mod,
      Nat.mod_eq_of_lt hi, hseq]
    rfl
  refine (books hcab).callPost hinv (by omega) (by simp only [bufLen]; omega) ⟨?_, ?_⟩ hstep
  · refine hl.launch hpc ⟨_, hmem, s.app.meter.seq, hread⟩ ?_ rfl rfl rfl
    exact hread.trans (hscript.trans (congrArg _ hcount))
  · obtain ⟨hlaps, hsampled, hrows, hdescribed⟩ := ht.tally
    refine ⟨⟨hlaps, hsampled, hrows, hdescribed⟩, ⟨hs, hi, ?_⟩, ht.armed, by simp⟩
    simp only [nextFrame, hseq]
    rw [BitVec.ofNat_add]
    rfl

/-- The batch is scanned up to its first RX event. -/
theorem keeps_scan (hcab : cfg.Cabled) (hinv : Kept cfg (Accounts cfg) s)
    (hpc : s.app.pc = .scan p evs) (hstep : appStep cfg s now = some t) :
    Kept cfg (Accounts cfg) t := by
  obtain ⟨hl, ht⟩ : Accounts cfg s.app (direct.views s.net) := hinv.account
  have hmid : s.app.pc.mid = true := by rw [hpc]; rfl
  cases evs with
  | nil =>
    simp only [appStep, hpc] at hstep
    obtain rfl := Option.some.inj hstep
    have hspin : (spin s.app p now).pc.stage = awaited p ∧ (spin s.app p now).pc ≠ .failed ∧
        (spin s.app p now).pc ≠ .echo ∧ (spin s.app p now).pc.uncounted = 0 ∧
        (spin s.app p now).meter = s.app.meter ∧ (spin s.app p now).lost = s.app.lost := by
      simp only [spin]
      split_ifs <;> simp [Pc.stage, Pc.uncounted]
    obtain ⟨hstage, halive, hecho, hcount, hmeter, hlost⟩ := hspin
    apply hinv.go ⟨?_, ht.spin hpc now⟩
    apply hl.go (hstage.trans (by rw [hpc]; rfl)) halive hecho hlost
    rw [hcount, hmeter, hpc]
    rfl
  | cons ev evs =>
    simp only [appStep, hpc] at hstep
    split_ifs at hstep
    · obtain rfl := Option.some.inj hstep
      exact hinv.go ⟨hl.go (by rw [hpc]; rfl) (by simp) (by simp) rfl (by rw [hpc]; rfl),
        ht.mid hmid rfl rfl ht.armed⟩
    · refine (books hcab).callRecv hinv ?_ hstep
      exact ⟨hl.go (by rw [hpc]; rfl) (by simp) (by simp) rfl (by rw [hpc]; rfl),
        ht.mid hmid rfl rfl ht.armed⟩

/-- With one frame out at most one RX event is waiting for its receive. -/
theorem pending_le (hcab : cfg.Cabled) (hinv : Kept cfg (Accounts cfg) s)
    (hpc : s.app.pc = .recv p evs) : (s.net.port p).pending.length ≤ 1 := by
  obtain ⟨c, hrx⟩ := (hinv.good p).inv.receive
  have hreported : (s.net.port p).delivered.length + (s.net.port p).pending.length ≤
      (s.net.port p).w.accepted.length := hrx.reported_le
  have hc := (books hcab).circle hinv
  have htaken := hc.taken_le p
  obtain ⟨hposted0, hdelivered1, hposted1⟩ := hinv.account.ledger.flow
  rw [hpc] at hposted0 hdelivered1 hposted1
  simp only [Port.views, host] at hposted0 hdelivered1 hposted1
  cases p <;> simp only [Pc.stage, awaited, Pf.peer, le_refl, Nat.reduceLeDiff, if_true,
    if_false] at hposted0 hdelivered1 hposted1 htaken <;> omega

theorem forget_eq (h : (s.net.port p).pending = []) : forget s p = s := by
  have hsame : { s.net.port p with pending := [] } = s.net.port p := by rw [← h]
  simp only [forget, hsame, h, Function.update_eq_self, List.append_nil]

/-- `wait_rx` returns, and nothing is forgotten. -/
theorem keeps_recv (hcab : cfg.Cabled) (hinv : Kept cfg (Accounts cfg) s)
    (hpc : s.app.pc = .recv p evs) (hstep : appStep cfg s now = some t) :
    Kept cfg (Accounts cfg) t := by
  have hB := books hcab
  obtain ⟨hl, ht⟩ : Accounts cfg s.app (direct.views s.net) := hinv.account
  simp only [appStep, hpc] at hstep
  have htime : ∀ f, Timing (received s.app p f) := by
    intro f
    refine ht.mid (by rw [hpc]; rfl) ?_ rfl ht.armed
    cases p <;> rfl
  have hkeep : ∀ u, inRecv s p (received s.app p) = some u → Kept cfg (Accounts cfg) u := fun u =>
    hB.inRecv hinv fun f => ⟨hl.received hpc f, htime f⟩
  split at hstep
  next f hrx =>
    obtain ⟨u, hu, rfl⟩ := Option.map_eq_some_iff.mp hstep
    have hnew : Kept cfg (Accounts cfg) u := hkeep u (by simpa only [inRecv, hrx] using hu)
    have hnone : (u.net.port p).pending = [] := by
      obtain ⟨d, hd, rfl⟩ := Option.map_eq_some_iff.mp hu
      have hle := pending_le hcab hinv hpc
      have htail := (host_recvReturn hrx hd).2
      rw [Cable.Net.port_setPort_self]
      apply List.eq_nil_of_length_eq_zero
      rw [htail, List.length_tail]
      omega
    rw [forget_eq hnone]
    exact hnew
  next => exact hB.rx hinv rfl rfl hstep hinv.account

theorem keeps_echo (hcab : cfg.Cabled) (hinv : Kept cfg (Accounts cfg) s) (hpc : s.app.pc = .echo)
    (hstep : appStep cfg s now = some t) : Kept cfg (Accounts cfg) t := by
  have hB := books hcab
  obtain ⟨hl, ht⟩ : Accounts cfg s.app (direct.views s.net) := hinv.account
  simp only [appStep, hpc] at hstep
  have hbuilt : ∀ f ∈ (s.net.port .pf1).delivered, Built cfg f := fun f =>
    (hB.circle hinv).received_built (hB.circulates hinv.account)
  obtain ⟨f, hf, hmem, hread⟩ := (hl.holding hpc).swap hcab hbuilt
  have hbounds := sizes_bounds hmem
  refine hB.callPost hinv (by omega) (by simp only [bufLen]; omega) ⟨?_, ?_⟩ hstep
  · rw [hread]
    exact hl.echo hpc hf
  · exact ht.mid (by rw [hpc]; rfl) rfl rfl ht.armed

/-- Between two round trips only the counters move. -/
theorem Ledger.between (hl : Ledger cfg app h) (hpc : app.pc = .landed ∨ app.pc = .report)
    (hpc' : app'.pc = .send ∨ app'.pc = .report ∨ app'.pc = .done) (hlost : app'.lost = app.lost)
    (hcount : app'.meter.trips = app.meter.trips + app.pc.uncounted) : Ledger cfg app' h := by
  have hold : app.pc.stage = 0 := by
    rcases hpc with heq | heq <;> rw [heq] <;> rfl
  have hnew : app'.pc.stage = 0 ∧ app'.pc.uncounted = 0 ∧ app'.pc ≠ .failed ∧ app'.pc ≠ .echo := by
    rcases hpc' with heq | heq | heq <;> rw [heq] <;> exact ⟨rfl, rfl, by simp, by simp⟩
  obtain ⟨hstage, hcounted, halive, hecho⟩ := hnew
  refine hl.go (hstage.trans hold.symm) halive hecho hlost ?_
  rw [hcounted, hcount, Nat.add_zero]

/-- An echo is a round trip. -/
theorem keeps_landed (hinv : Kept cfg (Accounts cfg) s) (hpc : s.app.pc = .landed) (now : Word) :
    Kept cfg (Accounts cfg) { s with app := land s.app now } := by
  obtain ⟨hl, ht⟩ : Accounts cfg s.app (direct.views s.net) := hinv.account
  have hlost : (land s.app now).lost = s.app.lost := rfl
  apply hinv.go ⟨hl.between (.inl hpc) ?_ hlost ?_, ht.land hpc now⟩
  · simp only [land]
    split_ifs <;> simp
  · rw [hpc]
    rfl

theorem keeps_report (hinv : Kept cfg (Accounts cfg) s) (hpc : s.app.pc = .report) :
    Kept cfg (Accounts cfg) { s with app := report s.app } := by
  obtain ⟨hl, ht⟩ : Accounts cfg s.app (direct.views s.net) := hinv.account
  obtain ⟨-, hi⟩ : _ ∧ _ := by
    have hturn := ht.turn
    rw [hpc] at hturn
    exact hturn
  have hlost : (report s.app).lost = s.app.lost := rfl
  apply hinv.go ⟨hl.between (.inr hpc) ?_ hlost ?_, ht.report hpc⟩
  · simp only [report]
    split_ifs <;> simp
  · simp only [report, Meter.trips, Meter.report, hi, hpc, Pc.uncounted]
    rw [Nat.mul_succ]

/-- The program keeps its books at every step, and none of its calls is refused. -/
theorem app_step (hcab : cfg.Cabled) (hinv : Kept cfg (Accounts cfg) s)
    (hstep : appStep cfg s now = some t) : Kept cfg (Accounts cfg) t := by
  have hB := books hcab
  obtain ⟨hl, ht⟩ : Accounts cfg s.app (direct.views s.net) := hinv.account
  cases hpc : s.app.pc with
  | send => exact keeps_send hcab hinv hpc hstep
  | posting p =>
    simp only [appStep, hpc] at hstep
    refine hB.inPost hinv (fun pkt hpkt => ⟨hl.posted hpc hpkt, ?_⟩) hstep
    exact ht.mid (by rw [hpc]; rfl) rfl rfl (absurd rfl)
  | wait p =>
    simp only [appStep, hpc] at hstep
    refine hB.callPoll hinv ?_ hstep
    exact ⟨hl.go (by rw [hpc]; rfl) (by simp) (by simp) rfl (by rw [hpc]; rfl),
      ht.mid (by rw [hpc]; rfl) rfl rfl ht.armed⟩
  | polling p =>
    simp only [appStep, hpc] at hstep
    refine hB.inPoll hinv (fun evs => ?_) hstep
    exact ⟨hl.go (by rw [hpc]; rfl) (by simp) (by simp) rfl (by rw [hpc]; rfl),
      ht.mid (by rw [hpc]; rfl) rfl rfl ht.armed⟩
  | scan p evs => exact keeps_scan hcab hinv hpc hstep
  | recv p evs => exact keeps_recv hcab hinv hpc hstep
  | echo => exact keeps_echo hcab hinv hpc hstep
  | landed =>
    simp only [appStep, hpc] at hstep
    obtain rfl := Option.some.inj hstep
    exact keeps_landed hinv hpc now
  | report =>
    simp only [appStep, hpc] at hstep
    obtain rfl := Option.some.inj hstep
    exact keeps_report hinv hpc
  | done => simp [appStep, hpc] at hstep
  | failed => simp [appStep, hpc] at hstep
  | timedOut p => simp [appStep, hpc] at hstep

theorem kept (cfg : Config) (frame rxbuf : Buf) (samples : ℕ → Word) :
    Kept cfg (Accounts cfg) (start cfg frame rxbuf samples) := by
  apply kept_start
  constructor
  · exact ⟨traffic_start cfg, by simp, rfl, ⟨rfl, rfl, rfl⟩, rfl,
      by simp [host, Config.direct, Duplex.start, pktOf], by simp, rfl⟩
  · have hzero : 0 < sizes.length ∧ 0 < perSize := by decide
    have htally : (⟨0, 0, 0, samples, [], []⟩ : Meter).Tally :=
      ⟨rfl, fun j hj => absurd hj (Nat.not_lt_zero _), rfl, by simp⟩
    exact ⟨htally, ⟨hzero.1, hzero.2, rfl⟩, absurd rfl, by simp⟩

/-- With every frame back nothing is on its way anywhere. -/
theorem at_rest (hcab : cfg.Cabled) (hinv : Kept cfg (Accounts cfg) s) (hstage : s.app.pc.stage = 0)
    (p : Pf) : s.net.wire p = [] ∧ (s.net.port p).delivered = (s.net.port p).w.accepted ∧
      (s.net.port p).sent = (s.net.port p).posted := by
  have hc := (books hcab).circle hinv
  have hflow := hinv.account.ledger.flow
  rw [hstage] at hflow
  have hcable : (s.net.port p.peer).sent.length =
      (s.net.port p).w.accepted.length + (s.net.wire p).length := by
    rw [show (s.net.port p.peer).sent = _ from hinv.linked.cable p, List.length_append]
    rfl
  obtain ⟨htaken, hsent, hpeer⟩ := hc.settled hflow p
  refine ⟨?_, (hc.back p).eq_of_length_le htaken, (hc.forth p).eq_of_length_le hsent⟩
  apply List.eq_nil_of_length_eq_zero
  omega

/-- Whatever the order in which the program, the two NICs and the cable take their steps, and
whatever the clock reads: no call is refused, no frame is dropped and no RX event is forgotten;
PF0 posts its script, PF1 receives it in order and PF0 its swaps, with at most one frame out and
nothing on its way between two round trips; every echo is one time measured, and every row printed
is about the times of all round trips at its size but the warm-up. `wait_rx` gives up no earlier
than at its 131072nd poll without a frame. -/
theorem latency_measured (hcab : cfg.Cabled) {frame rxbuf : Buf} {samples : ℕ → Word}
    {acts : List Act} (hrun : run (step cfg) (start cfg frame rxbuf samples) acts = some s) :
    s.app.pc ≠ .failed ∧ (∀ p, s.app.pc = .timedOut p → 131072 ≤ s.app.tries) ∧
      s.app.lost = [] ∧ (∀ p, s.net.dropped p = []) ∧
      (s.net.port .pf0).posted =
        (List.range (s.net.port .pf0).posted.length).map (scripted cfg) ∧
      (s.net.port .pf1).delivered <+: (s.net.port .pf0).posted ∧
      (s.net.port .pf0).delivered <+: (s.net.port .pf0).posted.map swapped ∧
      (s.net.port .pf0).posted.length ≤ (s.net.port .pf0).delivered.length + 1 ∧
      (s.app.pc.stage = 0 → ∀ p, s.net.wire p = [] ∧
        (s.net.port p).delivered = (s.net.port p).w.accepted ∧
        (s.net.port p).sent = (s.net.port p).posted) ∧
      s.app.meter.laps.length + s.app.pc.uncounted = (s.net.port .pf0).delivered.length ∧
      (∀ k r, s.app.meter.rows[k]? = some r → r.size = sizes.getD k 0 ∧
        (s.app.meter.measured k).length = latSamples ∧ r.Describes (s.app.meter.measured k)) ∧
      (s.app.pc = .done → s.app.meter.rows.length = sizes.length ∧
        s.app.meter.laps.length = perSize * sizes.length) := by
  have hB := books hcab
  have hinv : Kept cfg (Accounts cfg) s :=
    run_invariant (hB.inv_step (app_step hcab)) (kept cfg frame rxbuf samples) hrun
  obtain ⟨hl, ht⟩ : Accounts cfg s.app (direct.views s.net) := hinv.account
  have hc := hB.circle hinv
  have hp := hB.circulates hinv.account
  refine ⟨hl.alive, ht.late, hl.kept, hinv.linked.dropped, hl.scripted, hc.out, hc.home hp,
    hp.launched, at_rest hcab hinv, ?_, ht.tally.described, fun hpc => ?_⟩
  · rw [ht.tally.laps]
    exact hl.counted
  · have hturn := ht.turn
    rw [hpc] at hturn
    obtain ⟨hs, hi⟩ : _ ∧ _ := hturn
    refine ⟨ht.tally.rows.trans hs, ?_⟩
    rw [ht.tally.laps, Meter.trips, hs, hi, Nat.add_zero]

end

/-- One round trip that takes seven units of the clock. -/
def oneLap : List Act :=
  [.app 5, .app 0, .app 0, .nic .pf0 (.tx .nicFetch), .nic .pf0 (.tx .nicSend),
    .arrive .pf1 [0, 0, 0, 0, 0, 0, 0, 0, 64, 0, 0, 0, 0, 0], .nic .pf1 (.rx (.nicRxEvent 78)),
    .app 0, .app 0, .app 0, .app 0, .app 0, .app 0, .app 0, .app 0, .app 0, .app 0,
    .nic .pf1 (.tx .nicFetch), .nic .pf1 (.tx .nicSend),
    .arrive .pf0 [0, 0, 0, 0, 0, 0, 0, 0, 64, 0, 0, 0, 0, 0], .nic .pf0 (.rx (.nicRxEvent 78)),
    .app 0, .app 0, .app 0, .app 0, .app 0, .app 0, .app 0, .app 12]

theorem latency_measured_one_lap :
    ∃ s, run (step sampleConfig) (start sampleConfig (fun _ => 0) (fun _ => 0) fun _ => 0) oneLap =
        some s ∧
      (s.net.port .pf0).delivered =
        [benchFrame (sampleConfig.mac .pf0) (sampleConfig.mac .pf1) 64 0] ∧
      s.app.meter.laps = [7] ∧ s.app.lost = [] := by
  have hend : (run (step sampleConfig) (start sampleConfig (fun _ => 0) (fun _ => 0) fun _ => 0)
      oneLap).map (fun s => ((s.net.port .pf0).delivered, s.app.meter.laps)) =
        some ([benchFrame (sampleConfig.mac .pf0) (sampleConfig.mac .pf1) 64 0], [7]) := by
    decide +kernel
  obtain ⟨s, hs, hd⟩ := Option.map_eq_some_iff.mp hend
  obtain ⟨hecho, hlaps⟩ := Prod.mk.inj hd
  exact ⟨s, hs, hecho, hlaps, (latency_measured sampleConfig_cabled hs).2.2.1⟩

end Sfc7120.Bench.Latency

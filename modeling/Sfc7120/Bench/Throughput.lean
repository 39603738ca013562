import Sfc7120.Bench.Direct

/-! `run_throughput` of the benchmark over two cabled ports. The program keeps a window of frames
circulating: PF1 sends back every frame it receives with its addresses swapped, and for every echo
PF0 counts a round trip and launches one frame. Application and both NICs take their steps in any
order. -/
namespace Sfc7120.Bench.Throughput

open ByteMemory Machine

/-- `TPUT_WINDOW`. -/
def tputWindow : ℕ := 128

/-- Where the program is; inside a call, the port says how far the call has got. -/
inductive Pc where
  | prime (k : ℕ)
  | priming (k : ℕ)
  | poll (p : Pf)
  | polling (p : Pf)
  | serve (p : Pf) (evs : List Ev)
  | receiving (p : Pf) (evs : List Ev)
  | reply (p : Pf) (evs : List Ev) (len : ℕ)
  | replying (p : Pf) (evs : List Ev)
  | clock
  | done
  | failed

structure App where
  pc : Pc
  /-- Index of the frame size under test. -/
  s : ℕ
  seq : BitVec 32
  roundTrips : ℕ
  iter : ℕ
  frame : Buf
  rxbuf : Buf
  /-- Round trips printed for the sizes done. -/
  printed : List ℕ

abbrev Sys := Bench.Sys Duplex.Sys App

/-- A step of the program sees whether the clock has reached the measuring time. -/
abbrev Act := Bench.Act Duplex.Act Bool

section
variable (cfg : Config)

def size (app : App) : ℕ := sizes.getD app.s 0

def nextFrame (app : App) : App :=
  { app with frame := cfg.nextFrame app.frame (size app) app.seq, seq := app.seq + 1 }

/-- The next size, with fresh counters, or the end of the run. Frames still on their way stay
there. -/
def nextSize (app : App) : App :=
  { app with
    pc := if app.s + 1 < sizes.length then .prime 0 else .done
    s := app.s + 1, seq := 0, roundTrips := 0, iter := 0
    printed := app.printed ++ [app.roundTrips] }

/-- One step of the program. -/
def appStep (s : Sys) (expired : Bool) : Option Sys :=
  match s.app.pc with
  | .prime k =>
      if k < tputWindow then
        let app := nextFrame cfg s.app
        callPost s .pf0 app.frame (size app) { app with pc := .priming k }
          { app with pc := .failed }
      else some { s with app := { s.app with pc := .poll .pf1 } }
  | .priming k => inPost s .pf0 { s.app with pc := .prime (k + 1) }
  | .poll p => callPoll s p { s.app with pc := .polling p } { s.app with pc := .failed }
  | .polling p => inPoll s p fun evs => { s.app with pc := .serve p evs }
  | .serve p (ev :: evs) =>
      if ev.type ≠ .rx then some { s with app := { s.app with pc := .serve p evs } }
      else callRecv s p { s.app with pc := .receiving p evs } { s.app with pc := .failed }
  | .serve .pf1 [] => some { s with app := { s.app with pc := .poll .pf0 } }
  | .serve .pf0 [] => some { s with app := { s.app with pc := .clock } }
  | .receiving p evs => inRecv s p fun f => { s.app with
      rxbuf := writeBytes s.app.rxbuf 0 f, pc := .reply p evs f.length }
  | .reply .pf1 evs len =>
      let app := { s.app with rxbuf := swapMac s.app.rxbuf }
      callPost s .pf1 app.rxbuf len { app with pc := .replying .pf1 evs }
        { app with pc := .failed }
  | .reply .pf0 evs _ =>
      let app := nextFrame cfg { s.app with roundTrips := s.app.roundTrips + 1 }
      callPost s .pf0 app.frame (size app) { app with pc := .replying .pf0 evs }
        { app with pc := .failed }
  | .replying p evs => inPost s p { s.app with pc := .serve p evs }
  | .clock =>
      let app := { s.app with iter := s.app.iter + 1 }
      if s.app.iter &&& 0xff = 0 ∧ expired then some { s with app := nextSize app }
      else some { s with app := { app with pc := .poll .pf1 } }
  | .done => none
  | .failed => none

def step : Sys → Act → Option Sys := direct.sysStep cfg.mac (appStep cfg)

/-- Both ports just initialised, the cable empty. -/
def start (frame rxbuf : Buf) : Sys where
  net := .start cfg.direct
  app := ⟨.prime 0, 0, 0, 0, 0, frame, rxbuf, []⟩

end

/-- Frames a port's application has taken and not yet answered. -/
def Pc.held (pc : Pc) (p : Pf) : ℕ :=
  match pc with
  | .reply q _ _ => if p = q then 1 else 0
  | .replying q _ => if p = q then 1 else 0
  | _ => 0

/-- An echo received and not yet counted. -/
def Pc.uncounted : Pc → ℕ
  | .reply .pf0 _ _ => 1
  | _ => 0

/-- Frames put into circulation so far. -/
def App.primed (app : App) : ℕ :=
  match app.pc with
  | .prime k => tputWindow * app.s + k
  | .priming k => tputWindow * app.s + k
  | .done => tputWindow * app.s
  | _ => tputWindow * (app.s + 1)

/-- The program's books: every frame posted is one it built or the swap of the next one received,
and frames in circulation, echoes and round trips add up. -/
structure Ledger (cfg : Config) (app : App) (h : Pf → Host) : Prop extends Traffic cfg h where
  alive : app.pc ≠ .failed
  size : app.pc ≠ .done → app.s < sizes.length
  last : app.s ≤ sizes.length
  prime : ∀ k, app.pc = .prime k → k ≤ tputWindow
  priming : ∀ k, app.pc = .priming k → k < tputWindow
  holding : ∀ evs len, app.pc = .reply .pf1 evs len →
    Unanswered (h .pf1).posted (h .pf1).delivered app.rxbuf len
  owing : (h .pf1).posted.length + app.pc.held .pf1 = (h .pf1).delivered.length
  credit : (h .pf0).posted.length + app.pc.held .pf0 = (h .pf0).delivered.length + app.primed
  counted : app.printed.sum + app.roundTrips + app.pc.uncounted = (h .pf0).delivered.length

section
variable {cfg : Config} {s t : Sys} {app : App} {h : Pf → Host} {p : Pf} {evs : List Ev}

/-- Frames put into circulation: a window for each size begun. -/
theorem App.primed_le (app : App) (hs : app.pc ≠ .done → app.s < sizes.length)
    (hlast : app.s ≤ sizes.length) (hprime : ∀ k, app.pc = .prime k → k ≤ tputWindow)
    (hpriming : ∀ k, app.pc = .priming k → k < tputWindow) :
    app.primed ≤ tputWindow * sizes.length := by
  unfold App.primed
  simp only [tputWindow, sizes, List.length_cons, List.length_nil] at *
  cases hpc : app.pc with
  | prime k =>
    have hk := hprime k hpc
    have hlt := hs (by simp [hpc])
    dsimp only
    omega
  | priming k =>
    have hk := hpriming k hpc
    have hlt := hs (by simp [hpc])
    dsimp only
    omega
  | done =>
    dsimp only
    omega
  | _ =>
    have hlt := hs (by simp [hpc])
    dsimp only
    omega

/-- What circulates is bounded by the windows of all sizes. -/
theorem books (hcab : cfg.Cabled) : Books cfg (tputWindow * sizes.length) (Ledger cfg) where
  cabled := hcab
  few := by decide
  circulates {app h} hl := by
    have hprimed := app.primed_le hl.size hl.last hl.prime hl.priming
    have hcredit := hl.credit
    refine ⟨hl.built, hl.echoed, le_of_add_le_left hl.owing.le, ?_⟩
    omega

/-- The points of the program at which a window is in circulation and no answer is being made. -/
def Pc.steady : Pc → Prop
  | .poll _ => True
  | .polling _ => True
  | .serve _ _ => True
  | .receiving _ _ => True
  | .clock => True
  | _ => False

theorem Pc.steady_held {pc : Pc} (hs : pc.steady) (q : Pf) : pc.held q = 0 := by
  cases pc <;> first | rfl | cases hs

theorem Pc.steady_uncounted {pc : Pc} (hs : pc.steady) : pc.uncounted = 0 := by
  cases pc <;> first | rfl | cases hs

theorem App.steady_primed (app : App) (hs : app.pc.steady) :
    app.primed = tputWindow * (app.s + 1) := by
  unfold App.primed
  cases hp : app.pc <;> first | rfl | (rw [hp] at hs; cases hs)

/-- From one steady point to another the books stay as they are. -/
theorem Ledger.steady (hl : Ledger cfg app h) (hpc : app.pc.steady) (pc' : Pc)
    (hpc' : pc'.steady) (iter : ℕ) : Ledger cfg { app with pc := pc', iter := iter } h := by
  have hlt : app.s < sizes.length := hl.size (by intro he; rw [he] at hpc; cases hpc)
  have howing := hl.owing
  have hcredit := hl.credit
  have hcounted := hl.counted
  rw [Pc.steady_held hpc] at howing
  rw [Pc.steady_held hpc, App.steady_primed app hpc] at hcredit
  rw [Pc.steady_uncounted hpc] at hcounted
  refine ⟨hl.toTraffic, ?_, fun _ => hlt, hlt.le, ?_, ?_, ?_, ?_, ?_, ?_⟩
  · rintro rfl
    cases hpc'
  · rintro k rfl
    cases hpc'
  · rintro k rfl
    cases hpc'
  · rintro evs len rfl
    cases hpc'
  · rw [Pc.steady_held hpc']
    exact howing
  · rw [Pc.steady_held hpc', App.steady_primed { app with pc := pc', iter := iter } hpc']
    exact hcredit
  · rw [Pc.steady_uncounted hpc']
    exact hcounted

/-- The first half of a post at PF0: a frame is built and copied. -/
theorem Ledger.launch (hl : Ledger cfg app h) {pkt : List Byte} (hpkt : Built cfg pkt)
    {app' : App} (hs : app'.s = app.s) (hlt : app.s < sizes.length)
    (hpriming : ∀ k, app'.pc = .priming k → k < tputWindow)
    (hpc : ∀ q, app'.pc.held q = app.pc.held q) (hprimed : app'.primed = app.primed)
    (hplace : (∃ k, app'.pc = .priming k) ∨ ∃ evs, app'.pc = .replying .pf0 evs)
    (hcount : app'.printed.sum + app'.roundTrips + app'.pc.uncounted =
      app.printed.sum + app.roundTrips + app.pc.uncounted) :
    Ledger cfg app' (Function.update h .pf0 { h .pf0 with packet := some pkt }) := by
  have howing := hl.owing
  have hcredit := hl.credit
  have hcounted := hl.counted
  refine ⟨hl.toTraffic.launch hpkt, ?_, fun _ => hs ▸ hlt, hs ▸ hl.last, ?_, hpriming, ?_, ?_, ?_,
    ?_⟩
  · rcases hplace with ⟨k, hk⟩ | ⟨evs, hk⟩ <;> simp [hk]
  · rcases hplace with ⟨k, hk⟩ | ⟨evs, hk⟩ <;> simp [hk]
  · rcases hplace with ⟨k, hk⟩ | ⟨evs, hk⟩ <;> simp [hk]
  · simpa [hpc] using howing
  · simpa [hpc, hprimed] using hcredit
  · simpa [hcount] using hcounted

/-- With the whole window primed the program starts to serve. -/
theorem Ledger.primeDone (hl : Ledger cfg app h) {k : ℕ} (hpc : app.pc = .prime k)
    (hk : ¬ k < tputWindow) : Ledger cfg { app with pc := .poll .pf1 } h := by
  have hlt := hl.size (by simp [hpc])
  have hle := hl.prime k hpc
  have howing := hl.owing
  have hcredit := hl.credit
  have hcounted := hl.counted
  refine ⟨hl.toTraffic, by simp, fun _ => hlt, hlt.le, by simp, by simp, by simp, ?_, ?_, ?_⟩
  · simpa [hpc, Pc.held] using howing
  · simp only [hpc, Pc.held, App.primed] at hcredit
    simp only [Pc.held, App.primed]
    rw [Nat.mul_add, Nat.mul_one]
    omega
  · simpa [hpc, Pc.uncounted] using hcounted

/-- The second half of a priming post: one more frame is in circulation. -/
theorem Ledger.primed (hl : Ledger cfg app h) {k : ℕ} (hpc : app.pc = .priming k)
    {pkt : List Byte} (hpkt : (h .pf0).packet = some pkt) :
    Ledger cfg { app with pc := .prime (k + 1) } (Function.update h .pf0
      { h .pf0 with packet := none, posted := (h .pf0).posted ++ [pkt] }) := by
  have hlt := hl.size (by simp [hpc])
  have hk := hl.priming k hpc
  have howing := hl.owing
  have hcredit := hl.credit
  have hcounted := hl.counted
  refine ⟨hl.toTraffic.post hpkt, by simp, fun _ => hlt, hlt.le, ?_, by simp, by simp, ?_, ?_, ?_⟩
  · rintro k' hk'
    obtain rfl : k + 1 = k' := by simpa using hk'
    exact hk
  · simpa [hpc, Pc.held] using howing
  · simp only [hpc, Pc.held, App.primed] at hcredit
    simp only [Function.update_self, Pc.held, App.primed, List.length_append, List.length_singleton]
    omega
  · simpa [hpc, Pc.uncounted] using hcounted

/-- A frame is received and has to be answered. -/
theorem Ledger.receive (hl : Ledger cfg app h) (hpc : app.pc = .receiving p evs) (f : Frame) :
    Ledger cfg { app with rxbuf := writeBytes app.rxbuf 0 f, pc := .reply p evs f.length }
      (Function.update h p { h p with delivered := (h p).delivered ++ [f] }) := by
  have hlt := hl.size (by simp [hpc])
  have howing := hl.owing
  have hcredit := hl.credit
  have hcounted := hl.counted
  simp only [hpc, Pc.held, Pc.uncounted, App.primed, Nat.add_zero] at howing hcredit hcounted
  have htraffic := hl.toTraffic.receive (p := p) howing.le f
  refine ⟨htraffic, by simp, fun _ => hlt, hlt.le, by simp, by simp, ?_, ?_, ?_, ?_⟩
  · intro evs' len hreply
    obtain ⟨rfl, rfl, rfl⟩ : p = .pf1 ∧ evs = evs' ∧ f.length = len := by simpa using hreply
    simpa using unanswered_of_received howing app.rxbuf f
  · cases p with
    | pf0 => simpa [Pc.held] using howing
    | pf1 => simpa [Pc.held] using howing
  · cases p with
    | pf0 =>
      simp only [Function.update_self, Pc.held, App.primed, List.length_append,
        List.length_singleton, if_true]
      omega
    | pf1 => simpa [Pc.held, App.primed] using hcredit
  · cases p with
    | pf0 =>
      simp only [Function.update_self, Pc.uncounted, List.length_append, List.length_singleton]
      omega
    | pf1 => simpa [Pc.uncounted] using hcounted

/-- The swapped frame is copied into PF1's slot. -/
theorem Ledger.echo (hl : Ledger cfg app h) {len : ℕ} (hpc : app.pc = .reply .pf1 evs len)
    {f : Frame} (hf : (h .pf1).delivered[(h .pf1).posted.length]? = some f) {rxbuf : Buf} :
    Ledger cfg { app with rxbuf := rxbuf, pc := .replying .pf1 evs }
      (Function.update h .pf1 { h .pf1 with packet := some (swapped f) }) := by
  have hlt := hl.size (by simp [hpc])
  have howing := hl.owing
  have hcredit := hl.credit
  have hcounted := hl.counted
  refine ⟨hl.toTraffic.echo hf, by simp, fun _ => hlt, hlt.le, by simp, by simp, by simp, ?_, ?_,
    ?_⟩
  · simpa [hpc, Pc.held] using howing
  · simpa [hpc, Pc.held, App.primed] using hcredit
  · simpa [hpc, Pc.uncounted] using hcounted

/-- The answer is posted. -/
theorem Ledger.replied (hl : Ledger cfg app h) (hpc : app.pc = .replying p evs)
    {pkt : List Byte} (hpkt : (h p).packet = some pkt) :
    Ledger cfg { app with pc := .serve p evs } (Function.update h p
      { h p with packet := none, posted := (h p).posted ++ [pkt] }) := by
  have hlt := hl.size (by simp [hpc])
  have howing := hl.owing
  have hcredit := hl.credit
  have hcounted := hl.counted
  refine ⟨hl.toTraffic.post hpkt, by simp, fun _ => hlt, hlt.le, by simp, by simp, by simp, ?_, ?_,
    ?_⟩
  · cases p with
    | pf0 => simpa [hpc, Pc.held] using howing
    | pf1 =>
      simp only [hpc, Pc.held, if_true] at howing
      simpa [Pc.held] using howing
  · cases p with
    | pf0 =>
      simp only [hpc, Pc.held, App.primed, if_true] at hcredit
      simp only [Function.update_self, Pc.held, App.primed, List.length_append,
        List.length_singleton]
      omega
    | pf1 => simpa [hpc, Pc.held, App.primed] using hcredit
  · cases p with
    | pf0 => simpa [hpc, Pc.uncounted] using hcounted
    | pf1 => simpa [hpc, Pc.uncounted] using hcounted

theorem nextSize_pc (app : App) : (nextSize app).pc = .prime 0 ∧ app.s + 1 < sizes.length ∨
    (nextSize app).pc = .done := by
  simp only [nextSize]
  split_ifs with hnext
  · exact .inl ⟨rfl, hnext⟩
  · exact .inr rfl

/-- The clock ends one size; what circulates goes on circulating. -/
theorem Ledger.nextSize (hl : Ledger cfg app h) (hpc : app.pc = .clock) (iter : ℕ) :
    Ledger cfg (nextSize { app with iter := iter }) h := by
  have hlt := hl.size (by simp [hpc])
  have howing := hl.owing
  have hcredit := hl.credit
  have hcounted := hl.counted
  simp only [hpc, Pc.held, Pc.uncounted, App.primed, Nat.add_zero] at howing hcredit hcounted
  have hsum : (app.printed ++ [app.roundTrips]).sum + 0 = (h .pf0).delivered.length := by
    simpa using hcounted
  have hnew : (Throughput.nextSize { app with iter := iter }).s = app.s + 1 := rfl
  rcases nextSize_pc { app with iter := iter } with ⟨hpc', hnext⟩ | hpc'
  · refine ⟨hl.toTraffic, by simp [hpc'], fun _ => hnext, hlt, by simp [hpc'], by simp [hpc'],
      by simp [hpc'], ?_, ?_, ?_⟩
    · simpa [hpc', Pc.held] using howing
    · simpa [hpc', Pc.held, App.primed, hnew] using hcredit
    · rw [hpc']
      exact hsum
  · refine ⟨hl.toTraffic, by simp [hpc'], absurd hpc', hlt, by simp [hpc'], by simp [hpc'],
      by simp [hpc'], ?_, ?_, ?_⟩
    · simpa [hpc', Pc.held] using howing
    · simpa [hpc', Pc.held, App.primed, hnew] using hcredit
    · rw [hpc']
      exact hsum

/-- The frame PF0 posts next, at its size. -/
theorem nextFrame_built (hcab : cfg.Cabled) (app : App) (hs : app.s < sizes.length) :
    Built cfg (readBytes (nextFrame cfg app).frame 0 (Throughput.size app)) ∧
      Throughput.size app ≠ 0 ∧ Throughput.size app ≤ bufLen := by
  have hmem := getD_sizes_mem hs
  have hbounds := sizes_bounds hmem
  refine ⟨hcab.nextFrame_built app.frame app.seq hmem, ?_, ?_⟩
  · show sizes.getD app.s 0 ≠ 0
    omega
  · show sizes.getD app.s 0 ≤ 2048
    omega

/-- The program keeps its books at every step, and none of its calls is refused. -/
theorem app_step (hcab : cfg.Cabled) {expired : Bool} (hinv : Kept cfg (Ledger cfg) s)
    (hstep : appStep cfg s expired = some t) : Kept cfg (Ledger cfg) t := by
  have hB := books hcab
  have hl : Ledger cfg s.app (direct.views s.net) := hinv.account
  cases hpc : s.app.pc with
  | prime k =>
    simp only [appStep, hpc] at hstep
    have hlt := hl.size (by simp [hpc])
    split_ifs at hstep with hk
    · obtain ⟨hbuilt, hpos, hle⟩ := nextFrame_built hcab s.app hlt
      refine hB.callPost hinv hpos hle ?_ hstep
      refine hl.launch hbuilt rfl hlt ?_ ?_ ?_ (.inl ⟨k, rfl⟩) ?_
      · rintro k' hk'
        obtain rfl : k = k' := by simpa using hk'
        exact hk
      · simp [hpc, Pc.held]
      · simp [hpc, App.primed, nextFrame]
      · simp [hpc, Pc.uncounted, nextFrame]
    · obtain rfl := Option.some.inj hstep
      exact hinv.go (hl.primeDone hpc hk)
  | priming k =>
    simp only [appStep, hpc] at hstep
    exact hB.inPost hinv (fun pkt hpkt => hl.primed hpc hpkt) hstep
  | poll p =>
    simp only [appStep, hpc] at hstep
    exact hB.callPoll hinv (hl.steady (by rw [hpc]; trivial) (.polling p) trivial _) hstep
  | polling p =>
    simp only [appStep, hpc] at hstep
    refine hB.inPoll hinv (fun evs => ?_) hstep
    exact hl.steady (by rw [hpc]; trivial) (.serve p evs) trivial _
  | serve p evs =>
    have hsteady : s.app.pc.steady := by rw [hpc]; trivial
    cases evs with
    | cons ev evs =>
      simp only [appStep, hpc] at hstep
      split_ifs at hstep
      · obtain rfl := Option.some.inj hstep
        exact hinv.go (hl.steady hsteady (.serve p evs) trivial _)
      · exact hB.callRecv hinv (hl.steady hsteady (.receiving p evs) trivial _) hstep
    | nil =>
      cases p with
      | pf0 =>
        simp only [appStep, hpc] at hstep
        obtain rfl := Option.some.inj hstep
        exact hinv.go (hl.steady hsteady .clock trivial _)
      | pf1 =>
        simp only [appStep, hpc] at hstep
        obtain rfl := Option.some.inj hstep
        exact hinv.go (hl.steady hsteady (.poll .pf0) trivial _)
  | receiving p evs =>
    simp only [appStep, hpc] at hstep
    exact hB.inRecv hinv (fun f => hl.receive hpc f) hstep
  | reply p evs len =>
    cases p with
    | pf0 =>
      simp only [appStep, hpc] at hstep
      have hlt := hl.size (by simp [hpc])
      obtain ⟨hbuilt, hpos, hle⟩ :=
        nextFrame_built hcab { s.app with roundTrips := s.app.roundTrips + 1 } hlt
      refine hB.callPost hinv hpos hle ?_ hstep
      refine hl.launch hbuilt rfl hlt (by simp) ?_ ?_ (.inr ⟨evs, rfl⟩) ?_
      · simp [hpc, Pc.held]
      · simp [hpc, App.primed, nextFrame]
      · simp only [hpc, Pc.uncounted, nextFrame]
        omega
    | pf1 =>
      simp only [appStep, hpc] at hstep
      have hbuilt : ∀ f ∈ (s.net.port .pf1).delivered, Built cfg f := fun f =>
        (hB.circle hinv).received_built (hB.circulates hl)
      obtain ⟨f, hf, hmem, hread⟩ := (hl.holding evs len hpc).swap hcab hbuilt
      have hbounds := sizes_bounds hmem
      refine hB.callPost hinv (by omega) (by simp only [bufLen]; omega) ?_ hstep
      rw [hread]
      exact hl.echo hpc hf
  | replying p evs =>
    simp only [appStep, hpc] at hstep
    exact hB.inPost hinv (fun pkt hpkt => hl.replied hpc hpkt) hstep
  | clock =>
    simp only [appStep, hpc] at hstep
    split_ifs at hstep
    · obtain rfl := Option.some.inj hstep
      exact hinv.go (hl.nextSize hpc (s.app.iter + 1))
    · obtain rfl := Option.some.inj hstep
      exact hinv.go (hl.steady (by rw [hpc]; trivial) (.poll .pf1) trivial _)
  | done => simp [appStep, hpc] at hstep
  | failed => simp [appStep, hpc] at hstep

theorem kept (cfg : Config) (frame rxbuf : Buf) :
    Kept cfg (Ledger cfg) (start cfg frame rxbuf) := by
  apply kept_start
  refine ⟨traffic_start cfg, by simp, ?_, Nat.zero_le _, ?_, by simp, by simp, rfl, rfl, rfl⟩
  · intro _
    show 0 < sizes.length
    decide
  · intro k hk
    obtain rfl : 0 = k := by simpa using hk
    exact Nat.zero_le _

/-- What one post of the priming loop leaves if nobody else acts. -/
def primeOne (cfg : Config) (s : Sys) : Sys :=
  let app := nextFrame cfg s.app
  let pkt := readBytes app.frame 0 (Throughput.size app)
  { net := s.net.setPort direct.station Pf.peer .pf0
      (rung (described (copied (s.net.port .pf0) pkt) pkt) pkt)
    app := { app with pc := match app.pc with | .prime k => .prime (k + 1) | pc => pc } }

/-- Ready for the next post of the priming loop. -/
structure Priming (k : ℕ) (s : Sys) : Prop where
  pc : s.app.pc = .prime k
  size : s.app.s < sizes.length
  idle : (s.net.port .pf0).txPc = .idle
  mapped : (s.net.port .pf0).sfc.Mapped

theorem Priming.next {k : ℕ} (h : Priming k s) : Priming (k + 1) (primeOne cfg s) := by
  constructor
  · simp [primeOne, nextFrame, h.pc]
  · exact h.size
  · simp [primeOne, rung]
  · rw [primeOne, Cable.Net.port_setPort_self]
    exact h.mapped

theorem Priming.run_one (hcab : cfg.Cabled) {k : ℕ} (h : Priming k s) (hk : k < tputWindow) :
    run (step cfg) s (List.replicate 3 (.app false)) = some (primeOne cfg s) := by
  obtain ⟨-, hpos, hle⟩ := nextFrame_built hcab s.app h.size
  have hready := h.mapped.txPostReady hpos hle
  obtain ⟨pkt, hpkt⟩ : ∃ pkt, pkt = readBytes (nextFrame cfg s.app).frame 0
    (Throughput.size (nextFrame cfg s.app)) := ⟨_, rfl⟩
  obtain ⟨app, happ⟩ : ∃ app, app = { nextFrame cfg s.app with pc := .priming k } := ⟨_, rfl⟩
  have hcopy : step cfg s (.app false) = some ⟨s.net.setPort direct.station Pf.peer .pf0
      (copied (s.net.port .pf0) pkt), app⟩ := by
    simp only [step, Port.sysStep, appStep, h.pc, hk, if_true]
    rw [hpkt, happ]
    exact callPost_idle h.idle hready hle
  have hdesc : step cfg ⟨s.net.setPort direct.station Pf.peer .pf0
      (copied (s.net.port .pf0) pkt), app⟩ (.app false) =
        some ⟨s.net.setPort direct.station Pf.peer .pf0
          (described (copied (s.net.port .pf0) pkt) pkt), app⟩ := by
    simp only [step, Port.sysStep, appStep, happ]
    exact inPost_copied rfl rfl
  have hring : step cfg ⟨s.net.setPort direct.station Pf.peer .pf0
      (described (copied (s.net.port .pf0) pkt) pkt), app⟩ (.app false) =
        some (primeOne cfg s) := by
    simp only [step, Port.sysStep, appStep, happ, primeOne, nextFrame, h.pc, hpkt]
    exact inPost_described rfl rfl
  exact run_cons.mpr ⟨_, hcopy, run_cons.mpr ⟨_, hdesc, run_cons.mpr ⟨_, hring, rfl⟩⟩⟩

/-- Left alone, the program posts its window without waiting for anything. -/
theorem Priming.run_all (hcab : cfg.Cabled) {k : ℕ} (h : Priming k s) (n : ℕ)
    (hn : k + n ≤ tputWindow) :
    run (step cfg) s (List.replicate n (List.replicate 3 (.app false))).flatten =
      some ((primeOne cfg)^[n] s) := by
  induction n generalizing k s with
  | zero => rfl
  | succ n ih =>
    rw [List.replicate_succ, List.flatten_cons, Function.iterate_succ_apply]
    exact run_append (h.run_one hcab (by omega)) (ih h.next (by omega))

theorem priming_start (cfg : Config) (frame rxbuf : Buf) : Priming 0 (start cfg frame rxbuf) where
  pc := rfl
  size := by
    show 0 < sizes.length
    decide
  idle := rfl
  mapped := (healthy_start cfg .pf0).mapped

/-- Whatever the order in which the program, the two NICs and the cable take their steps: no call
is refused and no frame is lost. PF1 receives exactly the frames PF0 posted, in order; PF0 receives
exactly their swaps, in order; a window of frames is in circulation for every size begun, with the
TX windows and RX slots never exhausted; and the round trips printed and counted are the echoes
received. -/
theorem throughput_lossless (hcab : cfg.Cabled) {frame rxbuf : Buf} {acts : List Act}
    (hrun : run (step cfg) (start cfg frame rxbuf) acts = some s) :
    s.app.pc ≠ .failed ∧ (∀ p, s.net.dropped p = []) ∧
      (∀ f ∈ (s.net.port .pf0).posted, Built cfg f) ∧
      (s.net.port .pf1).delivered <+: (s.net.port .pf0).posted ∧
      (s.net.port .pf0).delivered <+: (s.net.port .pf0).posted.map swapped ∧
      (s.net.port .pf0).posted.length + s.app.pc.held .pf0 =
        (s.net.port .pf0).delivered.length + s.app.primed ∧
      (∀ p, (s.net.port p).posted.length < (s.net.port p).sent.length + 511 ∧
        (s.net.port p).w.accepted.length < (s.net.port p).delivered.length + 511) ∧
      s.app.printed.sum + s.app.roundTrips + s.app.pc.uncounted =
        (s.net.port .pf0).delivered.length := by
  have hB := books hcab
  have hinv : Kept cfg (Ledger cfg) s :=
    run_invariant (hB.inv_step (app_step hcab)) (kept cfg frame rxbuf) hrun
  have hl : Ledger cfg s.app (direct.views s.net) := hinv.account
  have hc := hB.circle hinv
  exact ⟨hl.alive, hinv.linked.dropped, hl.built, hc.out, hc.home (hB.circulates hl), hl.credit,
    hB.room hinv, hl.counted⟩

end

/-- With the window posted, the first frame goes round: PF0 sends it, PF1 polls for it and sends it
back, and PF0 polls for it. -/
def roundTrip : List Act :=
  [.app false, .nic .pf0 (.tx .nicFetch), .nic .pf0 (.tx .nicSend),
    .arrive .pf1 [0, 0, 0, 0, 0, 0, 0, 0, 64, 0, 0, 0, 0, 0], .nic .pf1 (.rx (.nicRxEvent 78))] ++
  List.replicate 11 (.app false) ++
  [.nic .pf1 (.tx .nicFetch), .nic .pf1 (.tx .nicSend),
    .arrive .pf0 [0, 0, 0, 0, 0, 0, 0, 0, 64, 0, 0, 0, 0, 0], .nic .pf0 (.rx (.nicRxEvent 78))] ++
  List.replicate 10 (.app false)

def firstFrame : List Act :=
  (List.replicate tputWindow (List.replicate 3 (.app false))).flatten ++ roundTrip

theorem throughput_lossless_first_frame :
    ∃ s, run (step sampleConfig) (start sampleConfig (fun _ => 0) fun _ => 0) firstFrame = some s ∧
      (s.net.port .pf1).w.accepted =
        [benchFrame (sampleConfig.mac .pf1) (sampleConfig.mac .pf0) 64 0] ∧
      (s.net.port .pf1).delivered =
        [benchFrame (sampleConfig.mac .pf1) (sampleConfig.mac .pf0) 64 0] ∧
      (s.net.port .pf0).delivered =
        [benchFrame (sampleConfig.mac .pf0) (sampleConfig.mac .pf1) 64 0] ∧
      s.app.roundTrips = 1 ∧ s.net.dropped .pf1 = [] := by
  have hprime := (priming_start sampleConfig (fun _ => 0) fun _ => 0).run_all sampleConfig_cabled
    tputWindow (Nat.zero_add _).le
  have hround : (run (step sampleConfig)
      ((primeOne sampleConfig)^[tputWindow] (start sampleConfig (fun _ => 0) fun _ => 0))
      roundTrip).map (fun s => ((s.net.port .pf1).w.accepted, (s.net.port .pf1).delivered,
        (s.net.port .pf0).delivered, s.app.roundTrips)) =
      some ([benchFrame (sampleConfig.mac .pf1) (sampleConfig.mac .pf0) 64 0],
        [benchFrame (sampleConfig.mac .pf1) (sampleConfig.mac .pf0) 64 0],
        [benchFrame (sampleConfig.mac .pf0) (sampleConfig.mac .pf1) 64 0], 1) := by
    decide +kernel
  obtain ⟨s, hs, hend⟩ := Option.map_eq_some_iff.mp hround
  obtain ⟨htaken, hout, hhome, hcount⟩ : _ ∧ _ ∧ _ ∧ _ := by simpa only [Prod.mk.injEq] using hend
  have hrun := run_append hprime hs
  exact ⟨s, hrun, htaken, hout, hhome, hcount,
    (throughput_lossless sampleConfig_cabled hrun).2.1 .pf1⟩

end Sfc7120.Bench.Throughput

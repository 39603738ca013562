import Sfc7120.Bench.Cable

/-! A program on the direct path: the calls it makes at the two ports, each in as many steps as it
has accesses, and what its books have to say for none of them to be refused. -/
namespace Sfc7120.Bench

open ByteMemory Machine

/-- Events one poll asks for. -/
def maxEvs : ℤ := 8

/-- The packet a call of `sfc7120_tx_post` is posting. -/
def pktOf : DirectTx.Pc → Option (List Byte)
  | .idle => none
  | .copied pkt => some pkt
  | .described pkt => some pkt

/-- What the program's books are about at a port: the packet being posted, what is received and
what is posted. -/
structure Host where
  packet : Option (List Byte)
  delivered : List Frame
  posted : List (List Byte)

def host (d : Duplex.Sys) : Host := ⟨pktOf d.txPc, d.delivered, d.posted⟩

/-- What a port's NIC does on its own. -/
def nicStep : Duplex.Act → Bool
  | .rx (.nicRxEvent _) => true
  | .rx (.nicOtherEvent _) => true
  | .tx a => a.isNic
  | _ => false

abbrev direct : Port Duplex.Sys Host Duplex.Act where
  step := Duplex.step
  sent := Duplex.Sys.sent
  taken d := d.w.accepted
  host := host
  delivered := Host.delivered
  posted := Host.posted
  isNic := nicStep
  fill pre f := .rx (.nicFill pre f)

section
variable {τ : Type} (s : Sys Duplex.Sys τ) (p : Pf)

/-- Call `sfc7120_tx_post`; an error ends the run. -/
def callPost (buf : Buf) (len : ℕ) (inside failed : τ) : Option (Sys Duplex.Sys τ) :=
  if txPostReady (s.net.port p).sfc len then
    direct.onPort s p (.tx (.callPost (readBytes buf 0 bufLen) len)) inside
  else some { s with app := failed }

/-- Go on inside `sfc7120_tx_post`. -/
def inPost (next : τ) : Option (Sys Duplex.Sys τ) :=
  match (s.net.port p).txPc with
  | .copied _ => direct.onPort s p (.tx .postDesc) s.app
  | .described _ => direct.onPort s p (.tx .postRing) next
  | .idle => none

/-- Call `sfc7120_poll`. -/
def callPoll (inside failed : τ) : Option (Sys Duplex.Sys τ) :=
  if pollReady (s.net.port p).sfc maxEvs then direct.onPort s p (.rx (.callPoll maxEvs)) inside
  else some { s with app := failed }

/-- Go on inside `sfc7120_poll`. -/
def inPoll (next : List Ev → τ) : Option (Sys Duplex.Sys τ) :=
  match (s.net.port p).rxPc with
  | .acking evs => direct.onPort s p (.rx .pollReturn) (next evs)
  | _ => direct.onPort s p (.rx .pollStep) s.app

/-- Call `sfc7120_rx_recv`. -/
def callRecv (inside failed : τ) : Option (Sys Duplex.Sys τ) :=
  if rxRecvReady (s.net.port p).sfc then direct.onPort s p (.rx .callRecv) inside
  else some { s with app := failed }

/-- Go on inside `sfc7120_rx_recv`. -/
def inRecv (next : Frame → τ) : Option (Sys Duplex.Sys τ) :=
  match (s.net.port p).rxPc with
  | .posted f => direct.onPort s p (.rx .recvReturn) (next f)
  | _ => direct.onPort s p (.rx .recvPost) s.app

end

/-- Both ports just initialised. -/
def Config.direct (cfg : Config) (p : Pf) : Duplex.Sys :=
  Duplex.start (cfg.tx p) (cfg.rx p) (cfg.mem p)

/-- A port that is set up and where nothing is lost. -/
structure Healthy (cfg : Config) (p : Pf) (d : Duplex.Sys) : Prop where
  inv : Duplex.Inv (cfg.tx p) (cfg.rx p) d
  mapped : d.sfc.Mapped

section
variable {cfg : Config} {p : Pf} {d e : Duplex.Sys}

theorem healthy_start (cfg : Config) (p : Pf) : Healthy cfg p (cfg.direct p) :=
  ⟨Duplex.inv_start _ _ _, SfcIf.mapped_fresh _ _⟩

/-- The receive side of a port posts nothing. -/
theorem host_rx {a : DirectRx.Act} (hstep : Duplex.step d (.rx a) = some e) :
    host e = { host d with delivered := d.delivered ++ DirectRx.returned d.rxPc a } := by
  obtain ⟨r, hr, rfl⟩ := Option.map_eq_some_iff.mp hstep
  have hdel : r.delivered = d.delivered ++ DirectRx.returned d.rxPc a :=
    (DirectRx.step_effect hr).2.2
  simp [host, Duplex.Sys.setRx, hdel]

/-- A packet is copied into its slot. -/
def copied (d : Duplex.Sys) (pkt : List Byte) : Duplex.Sys :=
  let sfc := { d.sfc with usedPoll := true }
  { d with w := txPostCopy sfc d.w pkt, sfc := sfc, txPc := .copied pkt }

/-- Its descriptor is written. -/
def described (d : Duplex.Sys) (pkt : List Byte) : Duplex.Sys :=
  { d with w := txPostDesc d.sfc d.w pkt.length, txPc := .described pkt }

/-- The doorbell is rung for it. -/
def rung (d : Duplex.Sys) (pkt : List Byte) : Duplex.Sys :=
  let r := txPostRing d.sfc d.w
  { d with w := r.2, sfc := r.1, txPc := .idle, posted := d.posted ++ [pkt] }

theorem step_callPost {buf : List Byte} {len : ℕ} (hpc : d.txPc = .idle)
    (hready : txPostReady d.sfc len = true) (hle : len ≤ buf.length) :
    Duplex.step d (.tx (.callPost buf len)) = some (copied d (buf.take len)) := by
  have hcall : txPostReady d.txSide.sfc len = true := hready
  simp only [Duplex.step, Duplex.txOwn, if_true, DirectTx.step, show d.txSide.pc = .idle from hpc,
    not_lt.mpr hle, if_false, hcall, Option.map_some]
  rfl

theorem step_postDesc {pkt : List Byte} (hpc : d.txPc = .copied pkt) :
    Duplex.step d (.tx .postDesc) = some (described d pkt) := by
  simp only [Duplex.step, Duplex.txOwn, if_true, DirectTx.step,
    show d.txSide.pc = .copied pkt from hpc, Option.map_some]
  rfl

theorem step_postRing {pkt : List Byte} (hpc : d.txPc = .described pkt) :
    Duplex.step d (.tx .postRing) = some (rung d pkt) := by
  simp only [Duplex.step, Duplex.txOwn, if_true, DirectTx.step,
    show d.txSide.pc = .described pkt from hpc, Option.map_some]
  rfl

theorem host_callPost {buf : List Byte} {len : ℕ} (hready : txPostReady d.sfc len = true)
    (hle : len ≤ buf.length) (hstep : Duplex.step d (.tx (.callPost buf len)) = some e) :
    host e = { host d with packet := some (buf.take len) } := by
  cases hpc : d.txPc with
  | idle =>
    rw [step_callPost hpc hready hle] at hstep
    obtain rfl := Option.some.inj hstep
    rfl
  | _ => simp [Duplex.step, Duplex.txOwn, DirectTx.step, Duplex.Sys.txSide, hpc] at hstep

theorem host_described {pkt : List Byte} (hpc : d.txPc = .copied pkt) :
    host (described d pkt) = host d := by
  simp [host, described, pktOf, hpc]

theorem host_recvReturn {f : Frame} (hpc : d.rxPc = .posted f)
    (hstep : Duplex.step d (.rx .recvReturn) = some e) :
    host e = { host d with delivered := d.delivered ++ [f] } ∧ e.pending = d.pending.tail := by
  have hhost := host_rx hstep
  rw [hpc] at hhost
  refine ⟨hhost, ?_⟩
  obtain ⟨r, hr, rfl⟩ := Option.map_eq_some_iff.mp hstep
  simp only [DirectRx.step, show d.rxSide.pc = .posted f from hpc, Option.some.injEq] at hr
  subst hr
  rfl

/-- The NIC moves nothing of the program's. -/
theorem host_nicStep {a : Duplex.Act} (ha : nicStep a = true)
    (hstep : Duplex.step d a = some e) : host e = host d := by
  cases a with
  | rx a =>
    have hnone : DirectRx.returned d.rxPc a = [] := by
      cases a <;> first | rfl | cases ha
    rw [host_rx hstep, hnone, List.append_nil]
    rfl
  | tx a =>
    simp only [Duplex.step] at hstep
    split_ifs at hstep
    obtain ⟨r, hr, rfl⟩ := Option.map_eq_some_iff.mp hstep
    cases a with
    | nicFetch =>
      simp only [DirectTx.step] at hr
      split at hr
      · split_ifs at hr
        obtain rfl := Option.some.inj hr
        rfl
      · cases hr
    | nicSend =>
      simp only [DirectTx.step] at hr
      split at hr
      · cases hr
      · obtain rfl := Option.some.inj hr
        rfl
    | _ => cases ha

/-- A step stays in the window if what it launches fits. -/
theorem windowed_of_launched {a : Duplex.Act} {n : ℕ}
    (hfit : d.posted.length + n ≤ d.sent.length + 511)
    (hle : ∀ b, a = .tx b → (DirectTx.launched d.txPc b).length ≤ n) : Duplex.Windowed d a := by
  cases hstep : Duplex.step d a with
  | none => simp [Duplex.Windowed, hstep]
  | some e =>
    suffices hwin : e.posted.length ≤ e.sent.length + 511 by
      simpa [Duplex.Windowed, hstep] using Nat.sub_le_iff_le_add'.mpr hwin
    cases a with
    | rx a =>
      obtain ⟨r, -, rfl⟩ := Option.map_eq_some_iff.mp hstep
      exact (Nat.le_add_right _ _).trans hfit
    | tx a =>
      have hmore := hle a rfl
      simp only [Duplex.step] at hstep
      split_ifs at hstep
      obtain ⟨r, hr, rfl⟩ := Option.map_eq_some_iff.mp hstep
      obtain ⟨-, hposted, hsent⟩ := DirectTx.step_effect hr
      have hp : r.posted.length ≤ d.posted.length + n := by
        rw [hposted, List.length_append]
        exact Nat.add_le_add_left hmore _
      have hs : d.sent.length ≤ r.sent.length := by
        rw [hsent, List.length_append]
        exact Nat.le_add_right _ _
      show r.posted.length ≤ r.sent.length + 511
      omega

/-- One step launches one packet at most. -/
theorem windowed_of_room (hroom : d.posted.length < d.sent.length + 511) (a : Duplex.Act) :
    Duplex.Windowed d a := by
  apply windowed_of_launched (n := 1) hroom
  intro b _
  unfold DirectTx.launched
  split
  · split <;> simp
  · simp

/-- A port's own steps take no frame, and what they send is added behind what was sent. -/
theorem Healthy.histories (hcab : cfg.Cabled) (h : Healthy cfg p d) {a : Duplex.Act}
    (hfill : ∀ pre f, a ≠ .rx (.nicFill pre f)) (hstep : Duplex.step d a = some e) :
    e.w.accepted = d.w.accepted ∧ d.sent <+: e.sent := by
  cases a with
  | rx a =>
    obtain ⟨r, hr, rfl⟩ := Option.map_eq_some_iff.mp hstep
    have hnone : DirectRx.taken a = [] := by
      cases a with
      | nicFill pre f => exact absurd rfl (hfill pre f)
      | _ => rfl
    refine ⟨?_, List.prefix_refl _⟩
    have hacc := (DirectRx.step_effect hr).2.1
    rw [hnone, List.append_nil] at hacc
    exact hacc
  | tx a =>
    simp only [Duplex.step] at hstep
    split_ifs at hstep with hown
    obtain ⟨r, hr, rfl⟩ := Option.map_eq_some_iff.mp hstep
    refine ⟨(Duplex.sameRx_of_tx (hcab.layout p) h.inv.transmit hown hr).accepted, ?_⟩
    have hsent := (DirectTx.step_effect hr).2.2
    show d.sent <+: r.sent
    rw [hsent]
    exact List.prefix_append _ _

theorem Healthy.step (hcab : cfg.Cabled) (h : Healthy cfg p d) {a : Duplex.Act}
    (hwin : Duplex.Windowed d a) (hstep : Duplex.step d a = some e) : Healthy cfg p e :=
  ⟨Duplex.inv_step (hcab.layout p) _ _ _ h.inv hwin hstep, Duplex.step_mapped h.mapped hstep⟩

theorem Healthy.nic (h : Healthy cfg p d) {a : Duplex.Act} (ha : nicStep a = true) :
    Duplex.Windowed d a ∧ ∀ pre f, a ≠ .rx (.nicFill pre f) := by
  constructor
  · apply windowed_of_launched (n := 0) h.inv.transmit.window
    rintro b rfl
    cases b <;> first | exact le_rfl | cases ha
  · rintro pre f rfl
    cases ha

/-- A frame that is short enough and has a slot is taken. -/
theorem Healthy.fill (hcab : cfg.Cabled) (h : Healthy cfg p d) {pre : List Byte} {f : Frame}
    (hpre : prefixOk pre f = true) (hfit : ef10RxPrefixLen + f.length ≤ rxBufferSize)
    (hroom : d.w.accepted.length < d.delivered.length + 511) :
    ∃ e, Duplex.step d (.rx (.nicFill pre f)) = some e ∧ Healthy cfg p e ∧
      e.w.accepted = d.w.accepted ++ [f] ∧ e.sent = d.sent ∧ host e = host d := by
  obtain ⟨c, hrx⟩ := h.inv.receive
  obtain ⟨mem, hfill⟩ :=
    nicRxFill_isSome hrx.rx (hcab.layout p).rx_le hpre hfit hrx.received.length_le hroom
  have hside : DirectRx.step d.rxSide (.nicFill pre f) = some { d.rxSide with
      w := { d.w with mem := mem, accepted := d.w.accepted ++ [f] } } := by
    simp only [DirectRx.step, hfill]
    rfl
  have htaken : ∃ e, Duplex.step d (.rx (.nicFill pre f)) = some e ∧
      e.w.accepted = d.w.accepted ++ [f] ∧ e.sent = d.sent ∧ host e = host d :=
    ⟨d.setRx _, by rw [Duplex.step, hside]; rfl, rfl, rfl, rfl⟩
  obtain ⟨e, he, hrest⟩ := htaken
  exact ⟨e, he, h.step hcab (h.inv.windowed_rx _) he, hrest⟩

theorem direct_sound (hcab : cfg.Cabled) : direct.Sound (Healthy cfg) Duplex.Windowed where
  step h hwin hstep := h.step hcab hwin hstep
  histories h hfill hstep := h.histories hcab hfill hstep
  received h := by
    obtain ⟨c, hrx⟩ := h.inv.receive
    exact hrx.received
  launched h := h.inv.transmit.order
  nic h ha hstep := ⟨(h.nic ha).1, (h.nic ha).2, host_nicStep ha hstep⟩
  fill h hpre hfit hroom := h.fill hcab hpre hfit hroom

end

/-- What the books of a program have to say: few frames circulate, and they are its own. -/
structure Books {τ : Type} (cfg : Config) (n : ℕ) (L : τ → (Pf → Host) → Prop) : Prop where
  cabled : cfg.Cabled
  few : n < 511
  circulates {app h} : L app h → Circulates cfg n (fun p => (h p).posted) fun p => (h p).delivered

/-- Ports, cable and books agree. -/
abbrev Kept {τ : Type} (cfg : Config) (L : τ → (Pf → Host) → Prop) (s : Sys Duplex.Sys τ) : Prop :=
  direct.Inv (Healthy cfg) L s

section
variable {τ : Type} {cfg : Config} {n : ℕ} {L : τ → (Pf → Host) → Prop} {s t : Sys Duplex.Sys τ}
  {p : Pf} {app inside failed next : τ}

/-- Everything on the way round lies between the echoes received and the frames posted. -/
theorem Books.circle (hB : Books cfg n L) (hinv : Kept cfg L s) :
    Circle (fun p => (s.net.port p).posted) (fun p => (s.net.port p).sent)
      (fun p => (s.net.port p).w.accepted) fun p => (s.net.port p).delivered :=
  hinv.toJoined.circle (direct_sound hB.cabled)

/-- No port runs out of window or of slots. -/
theorem Books.room (hB : Books cfg n L) (hinv : Kept cfg L s) (p : Pf) :
    (s.net.port p).posted.length < (s.net.port p).sent.length + 511 ∧
      (s.net.port p).w.accepted.length < (s.net.port p).delivered.length + 511 := by
  obtain ⟨hposted, htaken⟩ := (hB.circle hinv).room (hB.circulates hinv.account) p
  have hfew := hB.few
  exact ⟨by omega, by omega⟩

/-- A step of a call keeps the books if they say what it did. -/
theorem Books.at_port (hB : Books cfg n L) (hinv : Kept cfg L s) {a : Duplex.Act}
    (hfill : ∀ pre f, a ≠ .rx (.nicFill pre f)) (hstep : direct.onPort s p a app = some t)
    (hkeep : ∀ d, Duplex.step (s.net.port p) a = some d →
      L app (Function.update (direct.views s.net) p (host d))) : Kept cfg L t :=
  Port.Inv.at_port (direct_sound hB.cabled) hinv (windowed_of_room (hB.room hinv p).1 a) hfill hstep
    hkeep

/-- A step that moves nothing the books are about. -/
theorem Books.at_rest (hB : Books cfg n L) (hinv : Kept cfg L s) {a : Duplex.Act}
    (hfill : ∀ pre f, a ≠ .rx (.nicFill pre f)) (hstep : direct.onPort s p a app = some t)
    (hsame : ∀ d, Duplex.step (s.net.port p) a = some d → host d = host (s.net.port p))
    (hkeep : L app (direct.views s.net)) : Kept cfg L t := by
  apply hB.at_port hinv hfill hstep
  intro d hd
  rw [hsame d hd, Function.update_eq_self]
  exact hkeep

/-- A step of the receive side that returns no frame. -/
theorem Books.rx (hB : Books cfg n L) (hinv : Kept cfg L s) {a : DirectRx.Act}
    (htaken : DirectRx.taken a = []) (hnone : DirectRx.returned (s.net.port p).rxPc a = [])
    (hstep : direct.onPort s p (.rx a) app = some t) (hkeep : L app (direct.views s.net)) :
    Kept cfg L t := by
  refine hB.at_rest hinv ?_ hstep (fun d hd => ?_) hkeep
  · rintro pre f heq
    cases heq
    cases htaken
  · rw [host_rx hd, hnone, List.append_nil]
    rfl

/-- A call of `sfc7120_tx_post` is never refused. -/
theorem Books.callPost (hB : Books cfg n L) (hinv : Kept cfg L s) {buf : Buf} {len : ℕ}
    (hpos : len ≠ 0) (hle : len ≤ bufLen)
    (hkeep : L inside (Function.update (direct.views s.net) p
      { host (s.net.port p) with packet := some (readBytes buf 0 len) }))
    (hstep : callPost s p buf len inside failed = some t) : Kept cfg L t := by
  have hready := (hinv.good p).mapped.txPostReady hpos hle
  simp only [Bench.callPost, hready, if_true] at hstep
  apply hB.at_port hinv (by simp) hstep
  intro d hd
  rw [host_callPost hready (by rwa [readBytes_length]) hd, take_readBytes _ _ _ _ hle]
  exact hkeep

theorem Books.inPost (hB : Books cfg n L) (hinv : Kept cfg L s)
    (hkeep : ∀ pkt, (host (s.net.port p)).packet = some pkt →
      L next (Function.update (direct.views s.net) p { host (s.net.port p) with
        packet := none, posted := (s.net.port p).posted ++ [pkt] }))
    (hstep : inPost s p next = some t) : Kept cfg L t := by
  unfold Bench.inPost at hstep
  split at hstep
  next pkt hpc =>
    refine hB.at_rest hinv (by simp) hstep (fun d hd => ?_) hinv.account
    rw [step_postDesc hpc] at hd
    obtain rfl := Option.some.inj hd
    exact host_described hpc
  next pkt hpc =>
    apply hB.at_port hinv (by simp) hstep
    intro d hd
    rw [step_postRing hpc] at hd
    obtain rfl := Option.some.inj hd
    exact hkeep pkt (by simp [host, hpc, pktOf])
  next => cases hstep

/-- Nor is a call of `sfc7120_poll`. -/
theorem Books.callPoll (hB : Books cfg n L) (hinv : Kept cfg L s)
    (hkeep : L inside (direct.views s.net)) (hstep : callPoll s p inside failed = some t) :
    Kept cfg L t := by
  have hready : pollReady (s.net.port p).sfc maxEvs = true :=
    (hinv.good p).mapped.pollReady (by decide)
  simp only [Bench.callPoll, hready, if_true] at hstep
  exact hB.rx hinv rfl rfl hstep hkeep

theorem Books.inPoll (hB : Books cfg n L) (hinv : Kept cfg L s) {next : List Ev → τ}
    (hkeep : ∀ evs, L (next evs) (direct.views s.net)) (hstep : inPoll s p next = some t) :
    Kept cfg L t := by
  unfold Bench.inPoll at hstep
  split at hstep
  · exact hB.rx hinv rfl rfl hstep (hkeep _)
  · exact hB.rx hinv rfl rfl hstep hinv.account

theorem Books.callRecv (hB : Books cfg n L) (hinv : Kept cfg L s)
    (hkeep : L inside (direct.views s.net)) (hstep : callRecv s p inside failed = some t) :
    Kept cfg L t := by
  have hready := (hinv.good p).mapped.rxRecvReady
  simp only [Bench.callRecv, hready, if_true] at hstep
  exact hB.rx hinv rfl rfl hstep hkeep

theorem Books.inRecv (hB : Books cfg n L) (hinv : Kept cfg L s) {next : Frame → τ}
    (hkeep : ∀ f, L (next f) (Function.update (direct.views s.net) p { host (s.net.port p) with
      delivered := (s.net.port p).delivered ++ [f] }))
    (hstep : inRecv s p next = some t) : Kept cfg L t := by
  unfold Bench.inRecv at hstep
  split at hstep
  next f hpc =>
    apply hB.at_port hinv (by simp) hstep
    intro d hd
    rw [(host_recvReturn hpc hd).1]
    exact hkeep f
  next => exact hB.rx hinv rfl rfl hstep hinv.account

/-- A program that keeps its books at every step of its own keeps them at every step. -/
theorem Books.inv_step (hB : Books cfg n L) {ι : Type}
    {appStep : Sys Duplex.Sys τ → ι → Option (Sys Duplex.Sys τ)}
    (happ : ∀ {s i t}, Kept cfg L s → appStep s i = some t → Kept cfg L t)
    (s : Sys Duplex.Sys τ) (x : Act Duplex.Act ι) (t : Sys Duplex.Sys τ) (hinv : Kept cfg L s)
    (hstep : direct.sysStep cfg.mac appStep s x = some t) : Kept cfg L t :=
  Port.inv_step (direct_sound hB.cabled) hB.cabled hB.few hB.circulates happ s x t hinv hstep

theorem kept_start (happ : L app fun p => host (cfg.direct p)) :
    Kept cfg L ⟨.start cfg.direct, app⟩ := by
  apply Port.inv_start (healthy_start cfg) _ _ happ
  · exact fun _ => rfl
  · exact fun _ => rfl

end

/-! The steps of a call of `sfc7120_tx_post` in which nobody else acts. -/

section
variable {τ : Type} {s : Sys Duplex.Sys τ} {n : Net Duplex.Sys} {p : Pf} {d : Duplex.Sys}
  {pkt : List Byte} {app inside failed next : τ}

theorem callPost_idle {buf : Buf} {len : ℕ} (hpc : (s.net.port p).txPc = .idle)
    (hready : txPostReady (s.net.port p).sfc len = true) (hle : len ≤ bufLen) :
    callPost s p buf len inside failed = some ⟨s.net.setPort direct.station Pf.peer p
      (copied (s.net.port p) (readBytes buf 0 len)), inside⟩ := by
  have hcopy : Duplex.step (s.net.port p) (.tx (.callPost (readBytes buf 0 bufLen) len)) =
      some (copied (s.net.port p) (readBytes buf 0 len)) := by
    rw [step_callPost hpc hready (by rwa [readBytes_length]), take_readBytes _ _ _ _ hle]
  simp only [callPost, hready, if_true, Port.onPort, hcopy, Option.map_some]

theorem inPost_copied (hpc : d.txPc = .copied pkt) (hsent : d.sent = (n.port p).sent) :
    inPost ⟨n.setPort direct.station Pf.peer p d, app⟩ p next =
      some ⟨n.setPort direct.station Pf.peer p (described d pkt), app⟩ := by
  simp only [inPost, Port.onPort, Cable.Net.port_setPort_self, hpc, step_postDesc hpc,
    Option.map_some]
  rw [Cable.Net.setPort_setPort hsent]

theorem inPost_described (hpc : d.txPc = .described pkt) (hsent : d.sent = (n.port p).sent) :
    inPost ⟨n.setPort direct.station Pf.peer p d, app⟩ p next =
      some ⟨n.setPort direct.station Pf.peer p (rung d pkt), next⟩ := by
  simp only [inPost, Port.onPort, Cable.Net.port_setPort_self, hpc, step_postRing hpc,
    Option.map_some]
  rw [Cable.Net.setPort_setPort hsent]

end

/-- PF0 posts frames it has built and PF1 the swaps of what it receives, in order. -/
structure Traffic (cfg : Config) (h : Pf → Host) : Prop where
  built : ∀ f ∈ (h .pf0).posted, Built cfg f
  building : ∀ pkt, (h .pf0).packet = some pkt → Built cfg pkt
  echoed : (h .pf1).posted = ((h .pf1).delivered.take (h .pf1).posted.length).map swapped
  echoing : ∀ pkt, (h .pf1).packet = some pkt →
    ∃ f, (h .pf1).delivered[(h .pf1).posted.length]? = some f ∧ pkt = swapped f

section
variable {cfg : Config} {h : Pf → Host}

theorem traffic_start (cfg : Config) : Traffic cfg fun p => host (cfg.direct p) := by
  constructor
  · simp [host, Config.direct, Duplex.start]
  · simp [host, Config.direct, Duplex.start, pktOf]
  · rfl
  · simp [host, Config.direct, Duplex.start, pktOf]

/-- The first half of a post at PF0: a frame is built and copied. -/
theorem Traffic.launch (ht : Traffic cfg h) {pkt : List Byte} (hpkt : Built cfg pkt) :
    Traffic cfg (Function.update h .pf0 { h .pf0 with packet := some pkt }) := by
  constructor
  · simpa using ht.built
  · intro pkt' hp
    obtain rfl : pkt = pkt' := by simpa using hp
    exact hpkt
  · simpa using ht.echoed
  · simpa using ht.echoing

/-- The swapped frame is copied into PF1's slot. -/
theorem Traffic.echo (ht : Traffic cfg h) {f : Frame}
    (hf : (h .pf1).delivered[(h .pf1).posted.length]? = some f) :
    Traffic cfg (Function.update h .pf1 { h .pf1 with packet := some (swapped f) }) := by
  constructor
  · simpa using ht.built
  · simpa using ht.building
  · simpa using ht.echoed
  · intro pkt hp
    obtain rfl : swapped f = pkt := by simpa using hp
    exact ⟨f, by simpa using hf, rfl⟩

/-- The call of `sfc7120_tx_post` returns. -/
theorem Traffic.post (ht : Traffic cfg h) {p : Pf} {pkt : List Byte}
    (hpkt : (h p).packet = some pkt) :
    Traffic cfg (Function.update h p
      { h p with packet := none, posted := (h p).posted ++ [pkt] }) := by
  cases p with
  | pf0 =>
    have hbuilt := ht.building pkt hpkt
    constructor
    · intro f hf
      simp only [Function.update_self, List.mem_append, List.mem_singleton] at hf
      rcases hf with hf | rfl
      · exact ht.built f hf
      · exact hbuilt
    · simp
    · simpa using ht.echoed
    · simpa using ht.echoing
  | pf1 =>
    obtain ⟨f, hf, rfl⟩ := ht.echoing pkt hpkt
    constructor
    · simpa using ht.built
    · simpa using ht.building
    · simpa using echoed_post ht.echoed hf
    · simp

/-- The call of `sfc7120_rx_recv` returns. -/
theorem Traffic.receive (ht : Traffic cfg h) {p : Pf}
    (hle : (h .pf1).posted.length ≤ (h .pf1).delivered.length) (f : Frame) :
    Traffic cfg (Function.update h p { h p with delivered := (h p).delivered ++ [f] }) := by
  cases p with
  | pf0 =>
    constructor
    · simpa using ht.built
    · simpa using ht.building
    · simpa using ht.echoed
    · simpa using ht.echoing
  | pf1 =>
    constructor
    · simpa using ht.built
    · simpa using ht.building
    · rw [Function.update_self]
      exact echoed_receive ht.echoed hle f
    · intro pkt hp
      simp only [Function.update_self] at hp ⊢
      obtain ⟨g, hg, rfl⟩ := ht.echoing pkt hp
      have hlt := (List.getElem?_eq_some_iff.mp hg).1
      exact ⟨g, by rw [List.getElem?_append_left hlt]; exact hg, rfl⟩

end

end Sfc7120.Bench

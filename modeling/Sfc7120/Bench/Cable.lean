import Sfc7120.Lib.Cable
import Sfc7120.Bench.Frames

/-! The two ports of one card, cabled to each other, and the program that owns both: what one port
sends the other's NIC finds on the wire, in order, and takes if its filter names the frame's
destination and a slot is free. What is said here holds of either kind of port and of every program
that keeps frames circulating. -/
namespace Sfc7120.Bench

open ByteMemory Machine

inductive Pf where
  | pf0 | pf1
  deriving DecidableEq, Repr

def Pf.peer : Pf → Pf
  | .pf0 => .pf1
  | .pf1 => .pf0

@[simp] theorem Pf.peer_peer (p : Pf) : p.peer.peer = p := by
  cases p <;> rfl

theorem Pf.peer_ne (p : Pf) : p.peer ≠ p := by
  cases p <;> decide

/-- The card: what it is cabled as, and where the ports' buffers lie. -/
structure Config where
  mac : Pf → List Byte
  tx : Pf → Word
  rx : Pf → Word
  mem : Pf → ℕ → Byte

/-- `dst`: the MAC of PF0 with one added to the low octet. -/
def dstMac (mac : List Byte) : List Byte := mac.set 5 (mac.getD 5 0 + 1)

section
variable (cfg : Config)

/-- The card as the benchmark expects it: six-byte addresses, PF1's one above PF0's, and each
port's buffers apart. -/
structure Config.Cabled : Prop where
  len : (cfg.mac .pf0).length = 6
  peer : cfg.mac .pf1 = dstMac (cfg.mac .pf0)
  layout : ∀ p, Duplex.Layout (cfg.tx p) (cfg.rx p)

/-- A frame the program builds. -/
def Built (f : Frame) : Prop :=
  ∃ len ∈ sizes, ∃ seq, f = benchFrame (cfg.mac .pf1) (cfg.mac .pf0) len seq

/-- The next frame for PF1, in the buffer of the program. -/
def Config.nextFrame (frame : Buf) (len : ℕ) (seq : BitVec 32) : Buf :=
  buildFrame frame (dstMac (cfg.mac .pf0)) (cfg.mac .pf0) len seq

end

section
variable {cfg : Config} {f : Frame}

theorem Config.Cabled.len1 (hcab : cfg.Cabled) : (cfg.mac .pf1).length = 6 := by
  rw [hcab.peer, dstMac, List.length_set, hcab.len]

theorem Config.Cabled.read_nextFrame (hcab : cfg.Cabled) (frame : Buf) {len : ℕ}
    (seq : BitVec 32) (hlen : len ∈ sizes) :
    readBytes (cfg.nextFrame frame len seq) 0 len =
      benchFrame (cfg.mac .pf1) (cfg.mac .pf0) len seq := by
  rw [Config.nextFrame, hcab.peer]
  exact readBytes_buildFrame _ _ (hcab.peer ▸ hcab.len1) hcab.len (sizes_bounds hlen).1

theorem Config.Cabled.nextFrame_built (hcab : cfg.Cabled) (frame : Buf) {len : ℕ}
    (seq : BitVec 32) (hlen : len ∈ sizes) :
    Built cfg (readBytes (cfg.nextFrame frame len seq) 0 len) :=
  ⟨len, hlen, seq, hcab.read_nextFrame frame seq hlen⟩

theorem Built.length_mem (hcab : cfg.Cabled) (hf : Built cfg f) : f.length ∈ sizes := by
  obtain ⟨len, hlen, seq, rfl⟩ := hf
  rw [benchFrame_length seq hcab.len1 hcab.len (sizes_bounds hlen).1]
  exact hlen

theorem Built.fits (hcab : cfg.Cabled) (hf : Built cfg f) :
    ef10RxPrefixLen + f.length ≤ rxBufferSize := by
  have hbounds := sizes_bounds (hf.length_mem hcab)
  simp only [ef10RxPrefixLen, rxBufferSize]
  omega

/-- PF1's filter takes what the program builds. -/
theorem Built.addressed (hcab : cfg.Cabled) (hf : Built cfg f) :
    f.take 6 = cfg.mac .pf1 ∧ ef10RxPrefixLen + f.length ≤ rxBufferSize := by
  refine ⟨?_, hf.fits hcab⟩
  obtain ⟨len, -, seq, rfl⟩ := hf
  exact benchFrame_dst len seq hcab.len1

/-- PF0's filter takes its swap. -/
theorem Built.swapped_addressed (hcab : cfg.Cabled) (hf : Built cfg f) :
    (swapped f).take 6 = cfg.mac .pf0 ∧ ef10RxPrefixLen + (swapped f).length ≤ rxBufferSize := by
  have hlong := (sizes_bounds (hf.length_mem hcab)).1
  refine ⟨?_, by rw [swapped_length (by omega)]; exact hf.fits hcab⟩
  obtain ⟨len, -, seq, rfl⟩ := hf
  rw [swapped_benchFrame len seq hcab.len1 hcab.len]
  exact benchFrame_dst len seq hcab.len

end

def sampleConfig : Config where
  mac := fun p => match p with
    | .pf0 => [0x00, 0x0f, 0x53, 0x01, 0x02, 0xff]
    | .pf1 => [0x00, 0x0f, 0x53, 0x01, 0x02, 0x00]
  tx := fun _ => 0x100000#64
  rx := fun _ => 0x200000#64
  mem := fun _ _ => 0

theorem sampleConfig_cabled : sampleConfig.Cabled where
  len := rfl
  peer := by decide
  layout p := by cases p <;> constructor <;> decide

/-- A kind of port, and what the cable and the program see of it. -/
structure Port (σ ν α : Type) where
  step : σ → α → Option σ
  /-- All it has sent, and all its NIC has taken. -/
  sent : σ → List Frame
  taken : σ → List Frame
  /-- The program's view. -/
  host : σ → ν
  delivered : ν → List Frame
  posted : ν → List Frame
  /-- What its NIC does on its own. Frames reach it over the cable only. -/
  isNic : α → Bool
  fill : List Byte → Frame → α

abbrev Net (σ : Type) := Cable.Net Pf σ Frame

structure Sys (σ τ : Type) where
  net : Net σ
  app : τ

/-- `i` is what the clock says if the step of the program looks at it. -/
inductive Act (α ι : Type) where
  | nic (p : Pf) (a : α)
  | arrive (p : Pf) (pre : List Byte)
  | app (i : ι)

section
variable {σ ν α ι τ : Type} (K : Port σ ν α)

def Port.station : Cable.Station σ Frame := ⟨K.sent, K.taken⟩

/-- What the program sees of its ports. -/
abbrev Port.views (net : Net σ) : Pf → ν := fun p => K.host (net.port p)

/-- A step at a port. -/
def Port.onPort (s : Sys σ τ) (p : Pf) (a : α) (app : τ) : Option (Sys σ τ) :=
  (K.step (s.net.port p) a).map fun d => ⟨s.net.setPort K.station Pf.peer p d, app⟩

/-- A frame is taken if its destination is the port's address and a slot is free: the MAC filter
matches the destination address alone. -/
def Port.take (mac : Pf → List Byte) (p : Pf) (pre : List Byte) (d : σ) (f : Frame) : Option σ :=
  if f.take 6 = mac p then K.step d (K.fill pre f) else none

def Port.arrive (mac : Pf → List Byte) (net : Net σ) (p : Pf) (pre : List Byte) :
    Option (Net σ) :=
  if (net.wire p).head?.all (prefixOk pre) then net.arrive (K.take mac p pre) p else none

/-- The program, the two NICs and the cable. -/
def Port.sysStep (mac : Pf → List Byte) (appStep : Sys σ τ → ι → Option (Sys σ τ))
    (s : Sys σ τ) : Act α ι → Option (Sys σ τ)
  | .nic p a => if K.isNic a then K.onPort s p a s.app else none
  | .arrive p pre => (K.arrive mac s.net p pre).map fun n => { s with net := n }
  | .app i => appStep s i

/-- The cable empty. -/
def Net.start (port : Pf → σ) : Net σ := ⟨port, fun _ => [], fun _ => []⟩

/-- What the program relies on at a port: `Good` is kept by every step taken in turn, the
histories only grow, and a frame that fits and has a slot is taken. -/
structure Port.Sound (Good : Pf → σ → Prop) (Turn : σ → α → Prop) : Prop where
  step {p d a e} : Good p d → Turn d a → K.step d a = some e → Good p e
  histories {p d a e} : Good p d → (∀ pre f, a ≠ K.fill pre f) → K.step d a = some e →
    K.taken e = K.taken d ∧ K.sent d <+: K.sent e
  received {p d} : Good p d → K.delivered (K.host d) <+: K.taken d
  launched {p d} : Good p d → K.sent d <+: K.posted (K.host d)
  nic {p d a e} : Good p d → K.isNic a = true → K.step d a = some e →
    Turn d a ∧ (∀ pre f, a ≠ K.fill pre f) ∧ K.host e = K.host d
  fill {p d pre f} : Good p d → prefixOk pre f = true →
    ef10RxPrefixLen + f.length ≤ rxBufferSize →
    (K.taken d).length < (K.delivered (K.host d)).length + 511 →
    ∃ e, K.step d (K.fill pre f) = some e ∧ Good p e ∧ K.taken e = K.taken d ++ [f] ∧
      K.sent e = K.sent d ∧ K.host e = K.host d

/-- Good ports, and nothing lost between them: what one has sent is what the other's NIC has taken
and what is still on the cable. -/
structure Port.Joined (Good : Pf → σ → Prop) (net : Net σ) : Prop where
  good : ∀ p, Good p (net.port p)
  linked : Cable.Linked K.station Pf.peer net

/-- What holds in every state: the ports, the cable, and the program's account of what it sees. -/
structure Port.Inv (Good : Pf → σ → Prop) (Account : τ → (Pf → ν) → Prop) (s : Sys σ τ) : Prop
    extends K.Joined Good s.net where
  account : Account s.app (K.views s.net)

end

/-- The histories on the way round. -/
structure Circle (posted sent taken delivered : Pf → List Frame) : Prop where
  forth : ∀ p, sent p <+: posted p
  wire : ∀ p, taken p <+: sent p.peer
  back : ∀ p, delivered p <+: taken p

/-- A program that keeps frames circulating: PF0 posts frames it has built, no more than `n` ahead
of the echoes, and PF1 the swaps of what it has received. -/
structure Circulates (cfg : Config) (n : ℕ) (posted delivered : Pf → List Frame) : Prop where
  built : ∀ f ∈ posted .pf0, Built cfg f
  echoed : posted .pf1 = ((delivered .pf1).take (posted .pf1).length).map swapped
  answered : (posted .pf1).length ≤ (delivered .pf1).length
  launched : (posted .pf0).length ≤ (delivered .pf0).length + n

/-- One frame at most is out, and it has passed `k` of three points: PF0 posted it, PF1 received
it, PF1 posted its echo. -/
structure Flow (k : ℕ) (posted delivered : Pf → List Frame) : Prop where
  posted0 : (posted .pf0).length = (delivered .pf0).length + if 1 ≤ k then 1 else 0
  delivered1 : (delivered .pf1).length = (delivered .pf0).length + if 2 ≤ k then 1 else 0
  posted1 : (posted .pf1).length = (delivered .pf0).length + if 3 ≤ k then 1 else 0

/-- The next echo is posted. -/
theorem echoed_post {posted delivered : List Frame} {f : Frame}
    (h : posted = (delivered.take posted.length).map swapped)
    (hf : delivered[posted.length]? = some f) :
    posted ++ [swapped f] = (delivered.take (posted.length + 1)).map swapped := by
  rw [List.take_add_one, hf, List.map_append, ← h]
  rfl

/-- One more frame to be echoed. -/
theorem echoed_receive {posted delivered : List Frame}
    (h : posted = (delivered.take posted.length).map swapped)
    (hle : posted.length ≤ delivered.length) (f : Frame) :
    posted = ((delivered ++ [f]).take posted.length).map swapped := by
  rw [List.take_append_of_le_length hle]
  exact h

/-- The frame PF1 is to send back next is in the program's buffer. -/
def Unanswered (posted delivered : List Frame) (rxbuf : Buf) (len : ℕ) : Prop :=
  ∃ f, delivered[posted.length]? = some f ∧ f.length = len ∧ readBytes rxbuf 0 len = f

/-- A frame just received. -/
theorem unanswered_of_received {posted delivered : List Frame}
    (hall : posted.length = delivered.length) (rxbuf : Buf) (f : Frame) :
    Unanswered posted (delivered ++ [f]) (writeBytes rxbuf 0 f) f.length := by
  refine ⟨f, ?_, rfl, readBytes_writeBytes_self rxbuf 0 f⟩
  rw [hall]
  simp

/-- What `swap_mac` makes of it. -/
theorem Unanswered.swap {cfg : Config} {posted delivered : List Frame} {rxbuf : Buf} {len : ℕ}
    (h : Unanswered posted delivered rxbuf len) (hcab : cfg.Cabled)
    (hbuilt : ∀ f ∈ delivered, Built cfg f) :
    ∃ f, delivered[posted.length]? = some f ∧ len ∈ sizes ∧
      readBytes (swapMac rxbuf) 0 len = swapped f := by
  obtain ⟨f, hf, rfl, hread⟩ := h
  have hmem := (hbuilt f (List.mem_of_getElem? hf)).length_mem hcab
  have hbounds := sizes_bounds hmem
  exact ⟨f, hf, hmem, by rw [readBytes_swapMac _ (by omega), hread]⟩

section
variable {cfg : Config} {k n : ℕ} {posted sent taken delivered : Pf → List Frame}

theorem Flow.circulates (h : Flow k posted delivered) (hbuilt : ∀ f ∈ posted .pf0, Built cfg f)
    (hechoed : posted .pf1 = ((delivered .pf1).take (posted .pf1).length).map swapped) :
    Circulates cfg 1 posted delivered := by
  obtain ⟨hposted0, hdelivered1, hposted1⟩ := h
  refine ⟨hbuilt, hechoed, ?_, ?_⟩
  · split_ifs at hdelivered1 hposted1 <;> omega
  · split_ifs at hposted0 <;> omega

/-- What a port's NIC has taken, its peer has posted. -/
theorem Circle.taken_le (hc : Circle posted sent taken delivered) (p : Pf) :
    (taken p).length ≤ (posted p.peer).length :=
  ((hc.wire p).trans (hc.forth p.peer)).length_le

/-- No port runs further ahead than the program. -/
theorem Circle.room (hc : Circle posted sent taken delivered)
    (hp : Circulates cfg n posted delivered) (p : Pf) :
    (posted p).length ≤ (sent p).length + n ∧ (taken p).length ≤ (delivered p).length + n := by
  have hback0 := (hc.back .pf0).length_le
  have hback1 := (hc.back .pf1).length_le
  have hwire0 := (hc.wire .pf0).length_le
  have hwire1 := (hc.wire .pf1).length_le
  have hforth0 := (hc.forth .pf0).length_le
  have hforth1 := (hc.forth .pf1).length_le
  have hanswered := hp.answered
  have hlaunched := hp.launched
  simp only [Pf.peer] at hwire0 hwire1
  cases p <;> constructor <;> omega

/-- With every frame back the histories are of one length. -/
theorem Circle.settled (hc : Circle posted sent taken delivered) (hf : Flow 0 posted delivered)
    (p : Pf) : (taken p).length ≤ (delivered p).length ∧ (posted p).length ≤ (sent p).length ∧
      (sent p.peer).length ≤ (taken p).length := by
  obtain ⟨hposted0, hdelivered1, hposted1⟩ := hf
  have hback0 := (hc.back .pf0).length_le
  have hback1 := (hc.back .pf1).length_le
  have hwire0 := (hc.wire .pf0).length_le
  have hwire1 := (hc.wire .pf1).length_le
  have hforth0 := (hc.forth .pf0).length_le
  have hforth1 := (hc.forth .pf1).length_le
  simp only [Pf.peer, Nat.reduceLeDiff, if_false] at *
  cases p <;> dsimp only <;> omega

/-- What PF1 receives is what PF0 posted, in order. -/
theorem Circle.out (hc : Circle posted sent taken delivered) : delivered .pf1 <+: posted .pf0 :=
  (hc.back .pf1).trans ((hc.wire .pf1).trans (hc.forth .pf0))

/-- What PF0 receives is its swaps, in order. -/
theorem Circle.home (hc : Circle posted sent taken delivered)
    (hp : Circulates cfg n posted delivered) : delivered .pf0 <+: (posted .pf0).map swapped := by
  have hback : delivered .pf0 <+: posted .pf1 :=
    (hc.back .pf0).trans ((hc.wire .pf0).trans (hc.forth .pf1))
  rw [hp.echoed] at hback
  exact hback.trans (((List.take_prefix _ _).trans hc.out).map swapped)

theorem Circle.received_built (hc : Circle posted sent taken delivered)
    (hp : Circulates cfg n posted delivered) {f : Frame} (hf : f ∈ delivered .pf1) :
    Built cfg f := hp.built f (hc.out.subset hf)

/-- Every frame either port sends is addressed to the other and fits a slot. -/
theorem Circle.addressed (hcab : cfg.Cabled) (hc : Circle posted sent taken delivered)
    (hp : Circulates cfg n posted delivered) (p : Pf) :
    ∀ f ∈ sent p.peer, f.take 6 = cfg.mac p ∧ ef10RxPrefixLen + f.length ≤ rxBufferSize := by
  intro f hf
  have hposted := (hc.forth p.peer).subset hf
  cases p with
  | pf1 => exact (hp.built f hposted).addressed hcab
  | pf0 =>
    rw [show Pf.pf0.peer = .pf1 from rfl, hp.echoed] at hposted
    obtain ⟨g, hg, rfl⟩ := List.mem_map.mp hposted
    exact (hc.received_built hp (List.mem_of_mem_take hg)).swapped_addressed hcab

end

section
variable {σ ν α ι τ : Type} {K : Port σ ν α} {Good : Pf → σ → Prop} {Turn : σ → α → Prop}
  {Account : τ → (Pf → ν) → Prop} {cfg : Config} {net m : Net σ} {s t : Sys σ τ} {app : τ}
  {p : Pf} {a : α} {n : ℕ}

/-- Between what a port's application posts and what the other's receives. -/
theorem Port.Joined.circle (hK : K.Sound Good Turn) (hj : K.Joined Good net) :
    Circle (fun p => K.posted (K.views net p)) (fun p => K.sent (net.port p))
      (fun p => K.taken (net.port p)) fun p => K.delivered (K.views net p) := by
  refine ⟨fun p => hK.launched (hj.good p), fun p => ?_, fun p => hK.received (hj.good p)⟩
  rw [show K.sent (net.port p.peer) = _ from hj.linked.cable p]
  exact List.prefix_append _ _

/-- A port's new state keeps the other's. -/
theorem Port.Joined.good_update (hj : K.Joined Good net) {d : σ} (hd : Good p d) (q : Pf) :
    Good q (Function.update net.port p d q) := by
  rcases eq_or_ne q p with rfl | hq
  · simpa using hd
  · simpa [hq] using hj.good q

/-- The program's view after a step at one port. -/
theorem Port.views_update (port : Pf → σ) (d : σ) :
    (fun q => K.host (Function.update port p d q)) =
      Function.update (fun q => K.host (port q)) p (K.host d) := by
  funext q
  rcases eq_or_ne q p with rfl | hq
  · simp
  · simp [hq]

/-- A step at a port in turn keeps ports and cable. -/
theorem Port.Joined.onPort (hK : K.Sound Good Turn) (hj : K.Joined Good s.net)
    (hturn : Turn (s.net.port p) a) (hfill : ∀ pre f, a ≠ K.fill pre f)
    (hstep : K.onPort s p a app = some t) :
    ∃ d, K.step (s.net.port p) a = some d ∧ t.app = app ∧ K.Joined Good t.net ∧
      K.views t.net = Function.update (K.views s.net) p (K.host d) := by
  obtain ⟨d, hd, rfl⟩ := Option.map_eq_some_iff.mp hstep
  obtain ⟨htaken, hsent⟩ := hK.histories (hj.good p) hfill hd
  exact ⟨d, hd, rfl, ⟨hj.good_update (hK.step (hj.good p) hturn hd),
    hj.linked.setPort Pf.peer_peer Pf.peer_ne htaken hsent⟩, Port.views_update _ d⟩

/-- A frame coming off the cable is taken, so nothing is lost. -/
theorem Port.Joined.arrive (hK : K.Sound Good Turn) (hj : K.Joined Good net) {mac : Pf → List Byte}
    {pre : List Byte} (haddr : ∀ f ∈ K.sent (net.port p.peer),
      f.take 6 = mac p ∧ ef10RxPrefixLen + f.length ≤ rxBufferSize)
    (hroom : (K.taken (net.port p)).length < (K.delivered (K.views net p)).length + 511)
    (hstep : K.arrive mac net p pre = some m) : K.Joined Good m ∧ K.views m = K.views net := by
  unfold Port.arrive at hstep
  split_ifs at hstep with hpre
  have htake : ∀ f rest, net.wire p = f :: rest → ∃ d, K.take mac p pre (net.port p) f = some d ∧
      K.station.taken d = K.station.taken (net.port p) ++ [f] ∧
      K.station.sent d = K.station.sent (net.port p) ∧
      Good p d ∧ K.host d = K.host (net.port p) := by
    intro f rest hwire
    have hsent : f ∈ K.sent (net.port p.peer) := by
      rw [show K.sent (net.port p.peer) = _ from hj.linked.cable p, hwire]
      simp
    obtain ⟨hdst, hfit⟩ := haddr f hsent
    have hok : prefixOk pre f = true := by simpa [hwire] using hpre
    obtain ⟨e, he, hgood, htaken, hsame, hhost⟩ := hK.fill (hj.good p) hok hfit hroom
    exact ⟨e, by rw [Port.take, if_pos hdst, he], htaken, hsame, hgood, hhost⟩
  obtain ⟨hlinked, d, ⟨hgood, hhost⟩, hport⟩ := hj.linked.arrive Pf.peer_ne htake hstep
  refine ⟨⟨fun q => ?_, hlinked⟩, ?_⟩
  · rw [hport]
    exact hj.good_update hgood q
  · have hviews := Port.views_update (K := K) (p := p) net.port d
    rw [← hport, hhost, Function.update_eq_self] at hviews
    exact hviews

/-- A step of the program at a port. -/
theorem Port.Inv.at_port (hK : K.Sound Good Turn) (hinv : K.Inv Good Account s)
    (hturn : Turn (s.net.port p) a) (hfill : ∀ pre f, a ≠ K.fill pre f)
    (hstep : K.onPort s p a app = some t)
    (hkeep : ∀ d, K.step (s.net.port p) a = some d →
      Account app (Function.update (K.views s.net) p (K.host d))) : K.Inv Good Account t := by
  obtain ⟨d, hd, happ, hj, hviews⟩ := hinv.toJoined.onPort hK hturn hfill hstep
  have haccount := hkeep d hd
  rw [← hviews, ← happ] at haccount
  exact ⟨hj, haccount⟩

/-- The program moves on without a call. -/
theorem Port.Inv.go (hinv : K.Inv Good Account s) (hkeep : Account app (K.views s.net)) :
    K.Inv Good Account { s with app := app } :=
  ⟨hinv.toJoined, hkeep⟩

/-- The NICs move none of what the program sees. -/
theorem Port.Inv.nic (hK : K.Sound Good Turn) (hinv : K.Inv Good Account s)
    (ha : K.isNic a = true) (hstep : K.onPort s p a s.app = some t) : K.Inv Good Account t := by
  obtain ⟨e, he, -⟩ := Option.map_eq_some_iff.mp hstep
  obtain ⟨hturn, hfill, hhost⟩ := hK.nic (hinv.good p) ha he
  refine hinv.at_port hK hturn hfill hstep fun d hd => ?_
  obtain rfl := Option.some.inj (he.symm.trans hd)
  rw [hhost, Function.update_eq_self]
  exact hinv.account

/-- Where the program keeps its account at every step of its own, the account holds throughout. -/
theorem Port.inv_step (hK : K.Sound Good Turn) (hcab : cfg.Cabled) (hn : n < 511)
    (hcirc : ∀ {app h}, Account app h →
      Circulates cfg n (fun p => K.posted (h p)) fun p => K.delivered (h p))
    {appStep : Sys σ τ → ι → Option (Sys σ τ)}
    (happ : ∀ {s i t}, K.Inv Good Account s → appStep s i = some t → K.Inv Good Account t)
    (s : Sys σ τ) (x : Act α ι) (t : Sys σ τ) (hinv : K.Inv Good Account s)
    (hstep : K.sysStep cfg.mac appStep s x = some t) : K.Inv Good Account t := by
  cases x with
  | nic p a =>
    simp only [Port.sysStep] at hstep
    split_ifs at hstep with ha
    exact hinv.nic hK ha hstep
  | arrive p pre =>
    obtain ⟨m, hm, rfl⟩ := Option.map_eq_some_iff.mp hstep
    have hc := hinv.toJoined.circle hK
    have hp := hcirc hinv.account
    have hroom := (hc.room hp p).2
    obtain ⟨hj, hviews⟩ := hinv.toJoined.arrive hK (hc.addressed hcab hp p)
      (hroom.trans_lt (Nat.add_lt_add_left hn _)) hm
    refine ⟨hj, ?_⟩
    rw [hviews]
    exact hinv.account
  | app i => exact happ hinv hstep

theorem Port.inv_start {port : Pf → σ} (hgood : ∀ p, Good p (port p))
    (hsent : ∀ p, K.sent (port p) = []) (htaken : ∀ p, K.taken (port p) = [])
    (haccount : Account app fun p => K.host (port p)) : K.Inv Good Account ⟨.start port, app⟩ := by
  refine ⟨⟨hgood, fun _ => rfl, fun p => ?_⟩, haccount⟩
  show K.sent (port p.peer) = K.taken (port p) ++ []
  rw [hsent, htaken]
  rfl

end

/-- The NIC takes a frame that fits while it has a slot. -/
theorem nicRxFill_isSome {w : World} {rx : Word} {n : ℕ} {pre : List Byte} {f : Frame}
    (h : RxRing rx w n) (hrx : rx.toNat + numRxDesc * rxBufferSize ≤ 2 ^ 48)
    (hpre : prefixOk pre f = true) (hfit : ef10RxPrefixLen + f.length ≤ rxBufferSize)
    (hle : n ≤ w.accepted.length) (hroom : w.accepted.length < n + 511) :
    ∃ mem, w.nicRxFill pre f = some { w with mem := mem, accepted := w.accepted ++ [f] } := by
  have hj : w.accepted.length % numRxDesc < numRxDesc := Nat.mod_lt _ (by decide)
  obtain ⟨-, hcap⟩ := rxSlotAddr_desc hrx hj
  have havail : 0 < w.rxAvail := by
    simp only [World.rxAvail, h.doorbell, numRxDesc, BitVec.toNat_ofNat]
    omega
  have hfill : (w.nicRxFill pre f).isSome = true := by
    simp only [World.nicRxFill, h.desc _ hj, hcap]
    rw [if_pos ⟨havail, hpre, hfit⟩]
    rfl
  obtain ⟨u, hu⟩ := Option.isSome_iff_exists.mp hfill
  obtain ⟨mem, rfl⟩ := World.nicRxFill_eq hu
  exact ⟨mem, hu⟩

end Sfc7120.Bench

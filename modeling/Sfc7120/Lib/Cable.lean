import Mathlib.Data.List.Infix
import Mathlib.Logic.Function.Basic

/-! Stations joined in pairs by a cable. What a station sends is queued for its peer; what reaches
a station is taken or dropped. While nothing is dropped, what one has sent is what the other has
taken followed by what is still under way. -/
namespace Cable

variable {ι σ φ : Type*}

/-- A station as the cable sees it: all it has sent and all it has taken. -/
structure Station (σ φ : Type*) where
  sent : σ → List φ
  taken : σ → List φ

structure Net (ι σ φ : Type*) where
  port : ι → σ
  /-- Frames on their way to a station. -/
  wire : ι → List φ
  /-- Frames a station did not take. -/
  dropped : ι → List φ

/-- Nothing is lost between the stations. -/
structure Linked (S : Station σ φ) (peer : ι → ι) (n : Net ι σ φ) : Prop where
  dropped : ∀ p, n.dropped p = []
  cable : ∀ p, S.sent (n.port (peer p)) = S.taken (n.port p) ++ n.wire p

section
variable [DecidableEq ι]

/-- A station after a step of its own, with what it sent put on the cable. -/
def Net.setPort (S : Station σ φ) (peer : ι → ι) (n : Net ι σ φ) (p : ι) (d : σ) : Net ι σ φ :=
  { n with
    port := Function.update n.port p d
    wire := Function.update n.wire (peer p)
      (n.wire (peer p) ++ (S.sent d).drop (S.sent (n.port p)).length) }

/-- The first frame under way reaches its station. -/
def Net.arrive (take : σ → φ → Option σ) (n : Net ι σ φ) (p : ι) : Option (Net ι σ φ) :=
  match n.wire p with
  | [] => none
  | f :: rest =>
      match take (n.port p) f with
      | some d => some { n with
          port := Function.update n.port p d, wire := Function.update n.wire p rest }
      | none => some { n with
          wire := Function.update n.wire p rest
          dropped := Function.update n.dropped p (n.dropped p ++ [f]) }

variable {S : Station σ φ} {peer : ι → ι} {n m : Net ι σ φ} {p : ι}

@[simp] theorem Net.port_setPort_self (d : σ) : (n.setPort S peer p d).port p = d :=
  Function.update_self ..

/-- A step that sends nothing may be left out. -/
theorem Net.setPort_setPort {d e : σ} (hsent : S.sent d = S.sent (n.port p)) :
    (n.setPort S peer p d).setPort S peer p e = n.setPort S peer p e := by
  simp [Net.setPort, hsent]

theorem Linked.setPort (h : Linked S peer n) (hpeer : Function.Involutive peer)
    (hne : ∀ p, peer p ≠ p) {d : σ} (htaken : S.taken d = S.taken (n.port p))
    (hsent : S.sent (n.port p) <+: S.sent d) : Linked S peer (n.setPort S peer p d) := by
  refine ⟨h.dropped, fun q => ?_⟩
  have hcable := h.cable q
  rcases eq_or_ne q p with rfl | hq
  · simpa [Net.setPort, hne, (hne q).symm, htaken] using hcable
  · rcases eq_or_ne q (peer p) with rfl | hqp
    · obtain ⟨l, hl⟩ := hsent
      rw [hpeer p] at hcable
      have hdrop : (S.sent d).drop (S.sent (n.port p)).length = l := by
        rw [← hl, List.drop_left]
      simp only [Net.setPort, hpeer p, Function.update_self, Function.update_of_ne hq, hdrop]
      rw [← hl, hcable, List.append_assoc]
    · have hother : peer q ≠ p := fun heq => hqp (by rw [← heq, hpeer q])
      simpa [Net.setPort, hq, hqp, hother] using hcable

/-- A frame that is sure to be taken. `Q` is what taking it leaves behind. -/
theorem Linked.arrive (h : Linked S peer n) (hne : ∀ p, peer p ≠ p)
    {take : σ → φ → Option σ} {Q : σ → Prop}
    (htake : ∀ f rest, n.wire p = f :: rest → ∃ d, take (n.port p) f = some d ∧
      S.taken d = S.taken (n.port p) ++ [f] ∧ S.sent d = S.sent (n.port p) ∧ Q d)
    (hstep : n.arrive take p = some m) :
    Linked S peer m ∧ ∃ d, Q d ∧ m.port = Function.update n.port p d := by
  unfold Net.arrive at hstep
  split at hstep
  next => cases hstep
  next f rest hwire =>
    obtain ⟨d, hd, htaken, hsent, hq⟩ := htake f rest hwire
    simp only [hd] at hstep
    obtain rfl := Option.some.inj hstep
    refine ⟨⟨h.dropped, fun q => ?_⟩, d, hq, rfl⟩
    have hcable := h.cable q
    rcases eq_or_ne q p with rfl | hq
    · rw [hwire] at hcable
      simpa [hne, htaken] using hcable
    · rcases eq_or_ne (peer q) p with rfl | hother
      · simpa [hq, hsent] using hcable
      · simpa [hq, hother] using hcable

end

end Cable

import Mathlib.Logic.Function.Basic
import Mathlib.Data.List.Basic

/-! Partial step machines: runs over a list of actions, runs whose every step meets a
condition on the state before it, and the two invariant rules. -/
namespace Machine

variable {σ α : Type*}

/-- Run a list of actions. An action the machine cannot take makes the run undefined. -/
def run (step : σ → α → Option σ) : σ → List α → Option σ
  | s, [] => some s
  | s, a :: as => (step s a).bind fun t => run step t as

/-- Every action of the run meets `P` in the state it is taken in. -/
def Along (step : σ → α → Option σ) (P : σ → α → Prop) : σ → List α → Prop
  | _, [] => True
  | s, a :: as => P s a ∧ ∀ t, step s a = some t → Along step P t as

instance Along.decidable (step : σ → α → Option σ) (P : σ → α → Prop)
    [∀ s a, Decidable (P s a)] : ∀ s as, Decidable (Along step P s as)
  | _, [] => inferInstanceAs (Decidable True)
  | s, a :: as =>
      match h : step s a with
      | none => decidable_of_iff (P s a) (by simp [Along, h])
      | some t =>
          have := Along.decidable step P t as
          decidable_of_iff (P s a ∧ Along step P t as) (by simp [Along, h])

@[simp] theorem run_nil (step : σ → α → Option σ) (s : σ) : run step s [] = some s := rfl

theorem run_cons {step : σ → α → Option σ} {s t : σ} {a : α} {as : List α} :
    run step s (a :: as) = some t ↔ ∃ u, step s a = some u ∧ run step u as = some t := by
  simp [run, Option.bind_eq_some_iff]

theorem run_append {step : σ → α → Option σ} {s t u : σ} {as bs : List α}
    (hs : run step s as = some t) (ht : run step t bs = some u) :
    run step s (as ++ bs) = some u := by
  induction as generalizing s with
  | nil =>
    obtain rfl : s = t := by simpa using hs
    exact ht
  | cons a as ih =>
    obtain ⟨v, hv, hrest⟩ := run_cons.mp hs
    exact run_cons.mpr ⟨v, hv, ih hrest⟩

/-- Some run leads from one state to the other. -/
def Reaches (step : σ → α → Option σ) (s t : σ) : Prop := ∃ as, run step s as = some t

theorem Reaches.refl (step : σ → α → Option σ) (s : σ) : Reaches step s s := ⟨[], rfl⟩

theorem Reaches.trans {step : σ → α → Option σ} {s t u : σ} (hst : Reaches step s t)
    (htu : Reaches step t u) : Reaches step s u := by
  obtain ⟨as, has⟩ := hst
  obtain ⟨bs, hbs⟩ := htu
  exact ⟨as ++ bs, run_append has hbs⟩

theorem Reaches.step {step : σ → α → Option σ} {s t u : σ} {a : α} (hstep : step s a = some t)
    (htu : Reaches step t u) : Reaches step s u := by
  obtain ⟨as, has⟩ := htu
  exact ⟨a :: as, run_cons.mpr ⟨t, hstep, has⟩⟩

/-- An invariant of the steps that meet `P` holds after every run that meets `P` throughout. -/
theorem run_invariant_along {step : σ → α → Option σ} {P : σ → α → Prop} {I : σ → Prop}
    (hstep : ∀ s a t, I s → P s a → step s a = some t → I t) {s t : σ} {as : List α}
    (hs : I s) (hP : Along step P s as) (h : run step s as = some t) : I t := by
  induction as generalizing s with
  | nil =>
    obtain rfl : s = t := by simpa using h
    exact hs
  | cons a as ih =>
    obtain ⟨u, hu, hrest⟩ := run_cons.mp h
    exact ih (hstep s a u hs hP.1 hu) (hP.2 u hu) hrest

/-- A condition that an action meets in every state. -/
theorem along_of_forall {step : σ → α → Option σ} {P : σ → α → Prop} {as : List α}
    (h : ∀ a ∈ as, ∀ s, P s a) (s : σ) : Along step P s as := by
  induction as generalizing s with
  | nil => trivial
  | cons a as ih =>
    obtain ⟨ha, has⟩ := List.forall_mem_cons.mp h
    exact ⟨ha s, fun t _ => ih has t⟩

theorem along_true (step : σ → α → Option σ) (s : σ) (as : List α) :
    Along step (fun _ _ => True) s as := along_of_forall (fun _ _ _ => trivial) s

theorem Along.cons {step : σ → α → Option σ} {P : σ → α → Prop} {s t : σ} {a : α} {as : List α}
    (ha : P s a) (hstep : step s a = some t) (h : Along step P t as) :
    Along step P s (a :: as) := by
  refine ⟨ha, fun u hu => ?_⟩
  obtain rfl := Option.some.inj (hstep.symm.trans hu)
  exact h

theorem Along.append {step : σ → α → Option σ} {P : σ → α → Prop} {s t : σ} {as bs : List α}
    (hs : Along step P s as) (hrun : run step s as = some t) (ht : Along step P t bs) :
    Along step P s (as ++ bs) := by
  induction as generalizing s with
  | nil =>
    obtain rfl : s = t := by simpa using hrun
    exact ht
  | cons a as ih =>
    refine ⟨hs.1, fun u hu => ih (hs.2 u hu) ?_⟩
    obtain ⟨v, hv, hrest⟩ := run_cons.mp hrun
    obtain rfl : v = u := Option.some.inj (hv.symm.trans hu)
    exact hrest

/-- A condition on the actions alone joins one on the states they are taken in. -/
theorem Along.and_mem {step : σ → α → Option σ} {P : σ → α → Prop} {Q : α → Prop} {s : σ}
    {as : List α} (hP : Along step P s as) (hQ : ∀ a ∈ as, Q a) :
    Along step (fun s a => Q a ∧ P s a) s as := by
  induction as generalizing s with
  | nil => trivial
  | cons a as ih =>
    obtain ⟨hQa, hQas⟩ := List.forall_mem_cons.mp hQ
    exact ⟨⟨hQa, hP.1⟩, fun t ht => ih (hP.2 t ht) hQas⟩

/-- An invariant of every step holds after every run. -/
theorem run_invariant {step : σ → α → Option σ} {I : σ → Prop}
    (hstep : ∀ s a t, I s → step s a = some t → I t) {s t : σ} {as : List α}
    (hs : I s) (h : run step s as = some t) : I t :=
  run_invariant_along (P := fun _ _ => True) (fun s a t hI _ => hstep s a t hI) hs
    (along_true step s as) h

/-- A run that another machine takes step by step, where `G` holds of every state reached: it
does so on the way when it does at the end. -/
theorem run_map {τ β : Type*} {step : σ → α → Option σ} {step' : τ → β → Option τ} {P : α → Prop}
    {G : σ → Prop} {lift : σ → τ} {act : α → β}
    (hstep : ∀ s a t, P a → step s a = some t → G t →
      G s ∧ step' (lift s) (act a) = some (lift t))
    {s t : σ} {as : List α} (has : ∀ a ∈ as, P a) (h : run step s as = some t) (ht : G t) :
    G s ∧ run step' (lift s) (as.map act) = some (lift t) := by
  induction as generalizing s with
  | nil =>
    obtain rfl : s = t := by simpa using h
    exact ⟨ht, rfl⟩
  | cons a as ih =>
    obtain ⟨ha, has⟩ := List.forall_mem_cons.mp has
    obtain ⟨u, hu, hrest⟩ := run_cons.mp h
    obtain ⟨hGu, hmap⟩ := ih has hrest
    obtain ⟨hGs, hstep'⟩ := hstep s a u ha hu hGu
    exact ⟨hGs, run_cons.mpr ⟨lift u, hstep', hmap⟩⟩

/-- Erasing the hidden actions of a run: when a visible action is matched and a hidden one keeps
the two states related, the run with the hidden actions left out exists and stays related. -/
theorem run_filter {step : σ → α → Option σ} {P : σ → α → Prop} {R : σ → σ → Prop}
    {v : α → Bool}
    (hvisible : ∀ s s' a t, R s s' → v a = true → step s a = some t →
      ∃ t', step s' a = some t' ∧ R t t')
    (hhidden : ∀ s s' a t, R s s' → v a = false → P s a → step s a = some t → R t s')
    {s s' t : σ} {as : List α} (hR : R s s') (hP : Along step P s as)
    (h : run step s as = some t) : ∃ t', run step s' (as.filter v) = some t' ∧ R t t' := by
  induction as generalizing s s' with
  | nil =>
    obtain rfl : s = t := by simpa using h
    exact ⟨s', rfl, hR⟩
  | cons a as ih =>
    obtain ⟨u, hu, hrest⟩ := run_cons.mp h
    cases hv : v a with
    | true =>
      obtain ⟨u', hu', hR'⟩ := hvisible s s' a u hR hv hu
      obtain ⟨t', ht', hRt⟩ := ih hR' (hP.2 u hu) hrest
      exact ⟨t', by rw [List.filter_cons_of_pos hv]; exact run_cons.mpr ⟨u', hu', ht'⟩, hRt⟩
    | false =>
      obtain ⟨t', ht', hRt⟩ := ih (hhidden s s' a u hR hv hP.1 hu) (hP.2 u hu) hrest
      exact ⟨t', by rw [List.filter_cons_of_neg (by simp [hv])]; exact ht', hRt⟩

/-- Some run of actions that all meet `P` leads from one state to the other. -/
def ReachesBy (step : σ → α → Option σ) (P : α → Prop) (s t : σ) : Prop :=
  ∃ as, (∀ a ∈ as, P a) ∧ run step s as = some t

theorem ReachesBy.refl (step : σ → α → Option σ) (P : α → Prop) (s : σ) : ReachesBy step P s s :=
  ⟨[], by simp, rfl⟩

theorem ReachesBy.trans {step : σ → α → Option σ} {P : α → Prop} {s t u : σ}
    (hst : ReachesBy step P s t) (htu : ReachesBy step P t u) : ReachesBy step P s u := by
  obtain ⟨as, has, hrun⟩ := hst
  obtain ⟨bs, hbs, hrest⟩ := htu
  refine ⟨as ++ bs, fun a ha => ?_, run_append hrun hrest⟩
  rcases List.mem_append.mp ha with ha | ha
  · exact has a ha
  · exact hbs a ha

theorem ReachesBy.step {step : σ → α → Option σ} {P : α → Prop} {s t u : σ} {a : α} (ha : P a)
    (hstep : step s a = some t) (htu : ReachesBy step P t u) : ReachesBy step P s u := by
  obtain ⟨as, has, hrun⟩ := htu
  exact ⟨a :: as, List.forall_mem_cons.mpr ⟨ha, has⟩, run_cons.mpr ⟨t, hstep, hrun⟩⟩

theorem ReachesBy.single {step : σ → α → Option σ} {P : α → Prop} {s t : σ} {a : α} (ha : P a)
    (hstep : step s a = some t) : ReachesBy step P s t :=
  .step ha hstep (.refl step P t)

/-- Each step of one machine is a step of another, whose states stay related to its own. -/
theorem ReachesBy.simulate {τ β : Type*} {step : σ → α → Option σ} {step' : τ → β → Option τ}
    {P : α → Prop} {Q : β → Prop} {R : σ → τ → Prop} {s t : σ}
    (hsim : ∀ s a t s', P a → R s s' → step s a = some t →
      ∃ b t', Q b ∧ step' s' b = some t' ∧ R t t')
    (h : ReachesBy step P s t) {s' : τ} (hR : R s s') : ∃ t', ReachesBy step' Q s' t' ∧ R t t' := by
  obtain ⟨as, has, hrun⟩ := h
  induction as generalizing s s' with
  | nil =>
    obtain rfl : s = t := by simpa using hrun
    exact ⟨s', .refl step' Q s', hR⟩
  | cons a as ih =>
    obtain ⟨ha, has⟩ := List.forall_mem_cons.mp has
    obtain ⟨u, hu, hrest⟩ := run_cons.mp hrun
    obtain ⟨b, u', hb, hu', hRu⟩ := hsim s a u s' ha hR hu
    obtain ⟨t', ht', hRt⟩ := ih hRu has hrest
    exact ⟨t', .step hb hu' ht', hRt⟩

end Machine

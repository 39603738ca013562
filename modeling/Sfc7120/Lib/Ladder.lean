import Mathlib.Data.List.Basic

/-! Straight-line code with cleanup labels: fallible steps in sequence, cleanup that runs when
the code it covers fails, and a rule that says what such code leaves behind in terms of the
first stage that fails. Where the state keeps a log, code can be described by what it adds. -/
namespace Ladder

variable {σ ε κ : Type*}

/-- Fallible code: the state it leaves and its error. -/
abbrev Attempt (σ ε : Type*) := σ → σ × Option ε

def andThen (f g : Attempt σ ε) : Attempt σ ε := fun s =>
  match f s with
  | (t, none) => g t
  | (t, some e) => (t, some e)

/-- A cleanup label: `cleanup` runs when the code it covers fails. -/
def unwinding (cleanup : σ → σ) (f : Attempt σ ε) : Attempt σ ε := fun s =>
  match f s with
  | (t, none) => (t, none)
  | (t, some e) => (cleanup t, some e)

/-- Steps in order, up to the first that fails. -/
def climb (step : κ → Attempt σ ε) : List κ → Attempt σ ε
  | [] => fun s => (s, none)
  | k :: ks => andThen (step k) (climb step ks)

/-- From `P`, `f` goes through the stages `ks`: when none of them fails it succeeds and leaves
`Q`; otherwise it fails and leaves `E k`, where `k` is the first stage that fails. -/
def Does (fails : κ → Bool) (P : σ → Prop) (f : Attempt σ ε) (ks : List κ) (Q : σ → Prop)
    (E : κ → σ → Prop) : Prop :=
  ∀ s, P s → match ks.find? fails with
    | none => (f s).2 = none ∧ Q (f s).1
    | some k => (f s).2 ≠ none ∧ E k (f s).1

/-- From `P`, `f` leaves `Q` when it succeeds and `E` when it fails. -/
def Leaves (P : σ → Prop) (f : Attempt σ ε) (Q E : σ → Prop) : Prop :=
  ∀ s, P s → ((f s).2 = none → Q (f s).1) ∧ ((f s).2 ≠ none → E (f s).1)

section
variable {fails : κ → Bool} {P Q R : σ → Prop} {E E' : κ → σ → Prop} {f g : Attempt σ ε}
  {ks ls : List κ}

theorem andThen_of_none {s : σ} (h : (f s).2 = none) : andThen f g s = g (f s).1 := by
  rw [andThen, show f s = ((f s).1, none) from Prod.ext rfl h]

theorem andThen_of_ne {s : σ} (h : (f s).2 ≠ none) : andThen f g s = f s := by
  obtain ⟨e, he⟩ := Option.ne_none_iff_exists'.mp h
  rw [andThen, show f s = ((f s).1, some e) from Prod.ext rfl he]

theorem unwinding_of_none {c : σ → σ} {s : σ} (h : (f s).2 = none) :
    unwinding c f s = f s := by
  rw [unwinding, show f s = ((f s).1, none) from Prod.ext rfl h]

theorem unwinding_of_ne {c : σ → σ} {s : σ} (h : (f s).2 ≠ none) :
    unwinding c f s = (c (f s).1, (f s).2) := by
  obtain ⟨e, he⟩ := Option.ne_none_iff_exists'.mp h
  rw [unwinding, show f s = ((f s).1, some e) from Prod.ext rfl he]

theorem andThen_congr {f' : Attempt σ ε} {s t : σ} (h : f s = f' t) :
    andThen f g s = andThen f' g t := by
  rw [andThen, h]
  rfl

theorem unwinding_congr {f' : Attempt σ ε} {c : σ → σ} {s t : σ} (h : f s = f' t) :
    unwinding c f s = unwinding c f' t := by
  rw [unwinding, h]
  rfl

@[simp] theorem andThen_isSome (s : σ) :
    (andThen f g s).2.isSome = ((f s).2.isSome || (g (f s).1).2.isSome) := by
  cases h : (f s).2 with
  | none => rw [andThen_of_none h, Option.isSome_none, Bool.false_or]
  | some e => rw [andThen_of_ne (by simp [h]), h, Option.isSome_some, Bool.true_or]

@[simp] theorem unwinding_isSome (c : σ → σ) (s : σ) :
    (unwinding c f s).2.isSome = (f s).2.isSome := by
  cases h : (f s).2 with
  | none => rw [unwinding_of_none h, h]
  | some e => rw [unwinding_of_ne (by simp [h]), h]

/-- A transitive relation between the state before and the state after that both parts keep. -/
theorem andThen_rel {R : σ → σ → Prop} (htrans : ∀ {s t u}, R s t → R t u → R s u)
    (hf : ∀ s, R s (f s).1) (hg : ∀ s, R s (g s).1) (s : σ) : R s (andThen f g s).1 := by
  cases h : (f s).2 with
  | none =>
    rw [andThen_of_none h]
    exact htrans (hf s) (hg _)
  | some e =>
    rw [andThen_of_ne (by simp [h])]
    exact hf s

theorem unwinding_rel {R : σ → σ → Prop} (htrans : ∀ {s t u}, R s t → R t u → R s u)
    {c : σ → σ} (hc : ∀ s, R s (c s)) (hf : ∀ s, R s (f s).1) (s : σ) :
    R s (unwinding c f s).1 := by
  cases h : (f s).2 with
  | none =>
    rw [unwinding_of_none h]
    exact hf s
  | some e =>
    rw [unwinding_of_ne (by simp [h])]
    exact htrans (hf s) (hc _)

/-- A view of the state that both parts leave alone. -/
theorem andThen_frame {τ : Type*} {v : σ → τ} (hf : ∀ s, v (f s).1 = v s)
    (hg : ∀ s, v (g s).1 = v s) (s : σ) : v (andThen f g s).1 = v s :=
  andThen_rel (R := fun s t => v t = v s) (fun h h' => h'.trans h) hf hg s

theorem unwinding_frame {τ : Type*} {v : σ → τ} {c : σ → σ} (hc : ∀ s, v (c s) = v s)
    (hf : ∀ s, v (f s).1 = v s) (s : σ) : v (unwinding c f s).1 = v s :=
  unwinding_rel (R := fun s t => v t = v s) (fun h h' => h'.trans h) hc hf s

theorem Does.single {k : κ} (hok : ∀ s, P s → fails k = false → (f s).2 = none ∧ Q (f s).1)
    (hfail : ∀ s, P s → fails k = true → (f s).2 ≠ none ∧ E k (f s).1) :
    Does fails P f [k] Q E := by
  intro s hs
  cases hk : fails k with
  | false => simpa [List.find?_cons, hk] using hok s hs hk
  | true => simpa [List.find?_cons, hk] using hfail s hs hk

theorem Does.andThen (hf : Does fails P f ks Q E) (hg : Does fails Q g ls R E) :
    Does fails P (andThen f g) (ks ++ ls) R E := by
  intro s hs
  have hfs := hf s hs
  rw [List.find?_append]
  cases hfind : ks.find? fails with
  | none =>
    simp only [hfind] at hfs
    rw [Option.none_or, andThen_of_none hfs.1]
    exact hg _ hfs.2
  | some k =>
    simp only [hfind] at hfs
    simp only [Option.some_or]
    rw [andThen_of_ne hfs.1]
    exact hfs

theorem Does.unwinding {c : σ → σ} (hf : Does fails P f ks Q E)
    (hc : ∀ k ∈ ks, ∀ s, E k s → E' k (c s)) :
    Does fails P (unwinding c f) ks Q E' := by
  intro s hs
  have hfs := hf s hs
  cases hfind : ks.find? fails with
  | none =>
    simp only [hfind] at hfs ⊢
    rw [unwinding_of_none hfs.1]
    exact hfs
  | some k =>
    simp only [hfind] at hfs ⊢
    rw [unwinding_of_ne hfs.1]
    exact ⟨hfs.1, hc k (List.mem_of_find?_eq_some hfind) _ hfs.2⟩

theorem Does.weaken (hf : Does fails P f ks Q E) (hQ : ∀ s, Q s → R s)
    (hE : ∀ k ∈ ks, ∀ s, E k s → E' k s) : Does fails P f ks R E' := by
  intro s hs
  have hfs := hf s hs
  cases hfind : ks.find? fails with
  | none =>
    simp only [hfind] at hfs ⊢
    exact ⟨hfs.1, hQ _ hfs.2⟩
  | some k =>
    simp only [hfind] at hfs ⊢
    exact ⟨hfs.1, hE k (List.mem_of_find?_eq_some hfind) _ hfs.2⟩

/-- Steps numbered one after the other, each taking `I n` to `I (n + 1)`. -/
theorem Does.climb {step : κ → Attempt σ ε} {idx : κ → ℕ} {I : ℕ → σ → Prop}
    (hstep : ∀ k ∈ ks, Does fails (I (idx k)) (step k) [k] (I (idx k + 1)) E) {n : ℕ}
    (hidx : ks.map idx = List.range' n ks.length) :
    Does fails (I n) (climb step ks) ks (I (n + ks.length)) E := by
  induction ks generalizing n with
  | nil => exact fun s hs => ⟨rfl, hs⟩
  | cons k ks ih =>
    simp only [List.map_cons, List.length_cons, List.range'_succ, List.cons.injEq] at hidx
    obtain ⟨rfl, hrest⟩ := hidx
    have htail := ih (fun l hl => hstep l (List.mem_cons_of_mem k hl)) hrest
    rw [List.length_cons, Nat.add_comm ks.length, ← Nat.add_assoc]
    exact (hstep k List.mem_cons_self).andThen htail

end

section
variable {P P' Q R E E' : σ → Prop} {f g : Attempt σ ε}

theorem Leaves.andThen (hf : Leaves P f Q E) (hg : Leaves Q g R E) :
    Leaves P (andThen f g) R E := by
  intro s hs
  cases h : (f s).2 with
  | none =>
    rw [andThen_of_none h]
    exact hg _ ((hf s hs).1 h)
  | some e =>
    rw [andThen_of_ne (by simp [h])]
    exact ⟨fun hn => absurd (h.symm.trans hn) (by simp), (hf s hs).2⟩

theorem Leaves.unwinding {c : σ → σ} (hf : Leaves P f Q E) (hc : ∀ s, E s → E' (c s)) :
    Leaves P (unwinding c f) Q E' := by
  intro s hs
  cases h : (f s).2 with
  | none =>
    rw [unwinding_of_none h]
    exact ⟨(hf s hs).1, fun hne => absurd h hne⟩
  | some e =>
    rw [unwinding_of_ne (by simp [h])]
    exact ⟨fun hn => absurd (h.symm.trans hn) (by simp), fun hne => hc _ ((hf s hs).2 hne)⟩

theorem Leaves.weaken (hf : Leaves P f Q E) (hP : ∀ s, P' s → P s) (hE : ∀ s, E s → E' s) :
    Leaves P' f Q E' := fun s hs =>
  ⟨(hf s (hP s hs)).1, fun hne => hE _ ((hf s (hP s hs)).2 hne)⟩

/-- Code that keeps `P` whether it succeeds or not. -/
theorem Leaves.of_keeps (h : ∀ s, P s → P (f s).1) : Leaves P f P P := fun s hs =>
  ⟨fun _ => h s hs, fun _ => h s hs⟩

theorem Leaves.climb {step : κ → Attempt σ ε} {ks : List κ}
    (hstep : ∀ k ∈ ks, Leaves P (step k) P P) : Leaves P (climb step ks) P P := by
  induction ks with
  | nil => exact fun s hs => ⟨fun _ => hs, fun hne => absurd rfl hne⟩
  | cons k ks ih =>
    obtain ⟨hk, hks⟩ := List.forall_mem_cons.mp hstep
    exact hk.andThen (ih hks)

end

/-- From `s` to `t` the view `v` stays, and the log grows by entries that meet `P`. -/
structure Grows {τ β : Type*} (l : σ → List β) (v : σ → τ) (P : β → Prop) (s t : σ) : Prop where
  view : v t = v s
  log : ∃ es, l t = l s ++ es ∧ ∀ e ∈ es, P e

namespace Grows

variable {τ τ' β : Type*} {l : σ → List β} {v : σ → τ} {P Q : β → Prop} {s t u : σ}

theorem refl (s : σ) : Grows l v P s s := ⟨rfl, [], by simp, by simp⟩

theorem single {e : β} (he : P e) (hlog : l t = l s ++ [e]) (hview : v t = v s) :
    Grows l v P s t := ⟨hview, [e], hlog, List.forall_mem_singleton.mpr he⟩

theorem trans (h : Grows l v P s t) (h' : Grows l v P t u) : Grows l v P s u := by
  obtain ⟨es, hlog, hes⟩ := h.log
  obtain ⟨es', hlog', hes'⟩ := h'.log
  refine ⟨h'.view.trans h.view, es ++ es', ?_, ?_⟩
  · rw [hlog', hlog, List.append_assoc]
  · exact fun e he => (List.mem_append.mp he).elim (hes e) (hes' e)

/-- What happens next is neither logged nor seen. -/
theorem store (h : Grows l v P s t) (hlog : l u = l t) (hview : v u = v t) : Grows l v P s u :=
  h.trans ⟨hview, [], by simp [hlog], by simp⟩

theorem mono (h : Grows l v P s t) {v' : σ → τ'} (hview : v' t = v' s) (hPQ : ∀ e, P e → Q e) :
    Grows l v' Q s t := by
  obtain ⟨es, hlog, hes⟩ := h.log
  exact ⟨hview, es, hlog, fun e he => hPQ e (hes e he)⟩

theorem when (h : Grows l v P s t) {c : Prop} [Decidable c] :
    Grows l v P s (if c then t else s) := by
  split
  next => exact h
  next => exact refl s

end Grows

end Ladder

import Mathlib.Data.List.Basic
import Mathlib.Data.Nat.Notation
import Mathlib.Tactic.TypeStar
import Mathlib.Tactic.SplitIfs

/-! The address maps of a set of processes, as lists of entries. Removing a range cuts the entries
that stick out of it. -/
namespace AddressMap

variable {β : Type*}

structure Entry (β : Type*) where
  proc : ℕ
  start : ℕ
  len : ℕ
  backing : β
  deriving DecidableEq

/-- The entry has addresses in the range. -/
def Entry.Meets (e : Entry β) (proc lo len : ℕ) : Prop :=
  e.proc = proc ∧ e.start < lo + len ∧ lo < e.start + e.len

instance (e : Entry β) (proc lo len : ℕ) : Decidable (e.Meets proc lo len) :=
  inferInstanceAs (Decidable (_ ∧ _ ∧ _))

/-- What is left of an entry below and above a range. -/
def Entry.clip (proc lo len : ℕ) (e : Entry β) : List (Entry β) :=
  if e.Meets proc lo len then
    [{ e with len := lo - e.start },
      { e with start := lo + len, len := e.start + e.len - (lo + len) }].filter fun x => 0 < x.len
  else [e]

def remove (m : List (Entry β)) (proc lo len : ℕ) : List (Entry β) :=
  m.flatMap (Entry.clip proc lo len)

/-- Some entry covers the address. -/
def lookup (m : List (Entry β)) (proc a : ℕ) : Bool :=
  m.any fun e => e.proc = proc && decide (e.start ≤ a) && decide (a < e.start + e.len)

/-- Nothing is mapped in the range. -/
def Free (m : List (Entry β)) (proc lo len : ℕ) : Prop := ∀ e ∈ m, ¬ e.Meets proc lo len

instance (m : List (Entry β)) (proc lo len : ℕ) : Decidable (Free m proc lo len) :=
  inferInstanceAs (Decidable (∀ e ∈ m, ¬ e.Meets proc lo len))

variable {m : List (Entry β)} {e : Entry β} {proc lo len : ℕ}

/-- Removing leaves nothing that was not there: what is left is part of an old entry. -/
theorem exists_of_mem_remove (h : e ∈ remove m proc lo len) :
    ∃ x ∈ m, e.backing = x.backing ∧ ∀ p a n, e.Meets p a n → x.Meets p a n := by
  obtain ⟨x, hx, hclip⟩ := List.mem_flatMap.mp h
  refine ⟨x, hx, ?_⟩
  unfold Entry.clip at hclip
  split_ifs at hclip with hmeets
  · obtain ⟨-, hlo, hhi⟩ := hmeets
    obtain ⟨hpiece, hpos⟩ := List.mem_filter.mp hclip
    simp only [List.mem_cons, List.not_mem_nil, or_false] at hpiece
    rcases hpiece with rfl | rfl <;> simp only [decide_eq_true_eq] at hpos
    · refine ⟨rfl, fun p a n hm => ?_⟩
      simp only [Entry.Meets] at hm ⊢
      omega
    · refine ⟨rfl, fun p a n hm => ?_⟩
      simp only [Entry.Meets] at hm ⊢
      omega
  · obtain rfl := List.mem_singleton.mp hclip
    exact ⟨rfl, fun _ _ _ hm => hm⟩

/-- An entry outside the range stays. -/
theorem mem_remove_of_not_meets (he : e ∈ m) (h : ¬ e.Meets proc lo len) :
    e ∈ remove m proc lo len :=
  List.mem_flatMap.mpr ⟨e, he, by simp [Entry.clip, h]⟩

/-- No entry is empty and no two overlap. -/
def Apart (m : List (Entry β)) : Prop :=
  ∀ e ∈ m, 0 < e.len ∧ ∀ x ∈ m, e.Meets x.proc x.start x.len → e = x

variable {x : Entry β}

theorem apart_nil : Apart ([] : List (Entry β)) := by simp [Apart]

theorem Entry.meets_self (h : 0 < e.len) : e.Meets e.proc e.start e.len := by
  refine ⟨rfl, ?_, ?_⟩ <;> omega

theorem Entry.clip_self (h : 0 < e.len) : e.clip e.proc e.start e.len = [] := by
  rw [Entry.clip, if_pos (Entry.meets_self h)]
  simp

/-- Removing the range of an entry removes that entry and no other. -/
theorem Apart.mem_remove_iff (h : Apart m) (he : e ∈ m) :
    x ∈ remove m e.proc e.start e.len ↔ x ∈ m ∧ x ≠ e := by
  constructor
  · intro hx
    obtain ⟨y, hy, hclip⟩ := List.mem_flatMap.mp hx
    by_cases hmeets : y.Meets e.proc e.start e.len
    · obtain rfl := (h y hy).2 e he hmeets
      rw [Entry.clip_self (h y hy).1] at hclip
      cases hclip
    · rw [Entry.clip, if_neg hmeets, List.mem_singleton] at hclip
      subst hclip
      refine ⟨hy, ?_⟩
      rintro rfl
      exact hmeets (Entry.meets_self (h _ hy).1)
  · rintro ⟨hx, hne⟩
    apply mem_remove_of_not_meets hx
    intro hmeets
    exact hne ((h x hx).2 e he hmeets)

theorem Apart.cons (h : Apart m) (hpos : 0 < e.len) (hfree : Free m e.proc e.start e.len) :
    Apart (e :: m) := by
  intro y hy
  rcases List.mem_cons.mp hy with rfl | hold
  · refine ⟨hpos, fun z hz hmeets => ?_⟩
    rcases List.mem_cons.mp hz with rfl | hz
    · rfl
    · obtain ⟨hproc, hlo, hhi⟩ := hmeets
      exact absurd ⟨hproc.symm, hhi, hlo⟩ (hfree z hz)
  · refine ⟨(h y hold).1, fun z hz hmeets => ?_⟩
    rcases List.mem_cons.mp hz with rfl | hz
    · exact absurd hmeets (hfree y hold)
    · exact (h y hold).2 z hz hmeets

/-- An entry that is cut leaves pieces within it. -/
theorem Entry.mem_clip (hx : x ∈ e.clip proc lo len) (hpos : 0 < e.len) :
    x.proc = e.proc ∧ x.backing = e.backing ∧ 0 < x.len ∧ e.start ≤ x.start ∧
      x.start + x.len ≤ e.start + e.len ∧
      (e.Meets proc lo len → (x.start = e.start ∧ x.len = lo - e.start) ∨
        (x.start = lo + len ∧ x.len = e.start + e.len - (lo + len))) := by
  unfold Entry.clip at hx
  split_ifs at hx with hmeets
  · obtain ⟨-, hlo, hhi⟩ := hmeets
    obtain ⟨hpiece, hlen⟩ := List.mem_filter.mp hx
    simp only [List.mem_cons, List.not_mem_nil, or_false] at hpiece
    rcases hpiece with rfl | rfl <;> simp only [decide_eq_true_eq] at hlen
    · refine ⟨rfl, rfl, hlen, Nat.le_refl _, ?_, fun _ => .inl ⟨rfl, rfl⟩⟩
      dsimp only
      omega
    · refine ⟨rfl, rfl, hlen, ?_, ?_, fun _ => .inr ⟨rfl, rfl⟩⟩
      · dsimp only
        omega
      · dsimp only
        omega
  · obtain rfl := List.mem_singleton.mp hx
    exact ⟨rfl, rfl, hpos, Nat.le_refl _, Nat.le_refl _, fun h => absurd h hmeets⟩

theorem Apart.remove (h : Apart m) : Apart (remove m proc lo len) := by
  intro y hy
  obtain ⟨e, he, hye⟩ := List.mem_flatMap.mp hy
  obtain ⟨hyproc, hyback, hylen, hylo, hyhi, hycut⟩ := Entry.mem_clip hye (h e he).1
  refine ⟨hylen, fun z hz hmeets => ?_⟩
  obtain ⟨e', he', hze⟩ := List.mem_flatMap.mp hz
  obtain ⟨hzproc, hzback, hzlen, hzlo, hzhi, hzcut⟩ := Entry.mem_clip hze (h e' he').1
  obtain ⟨hproc, hlo, hhi⟩ := hmeets
  -- the entries the two pieces are of overlap, so they are one entry
  have heq : e = e' := by
    apply (h e he).2 e' he'
    refine ⟨?_, ?_, ?_⟩
    · rw [← hyproc, hproc, hzproc]
    · omega
    · omega
  subst heq
  by_cases hcut : e.Meets proc lo len
  · have hwhole : y.start = z.start ∧ y.len = z.len := by
      obtain ⟨-, hcutlo, hcuthi⟩ := id hcut
      rcases hycut hcut with ⟨hs, hl⟩ | ⟨hs, hl⟩ <;>
        rcases hzcut hcut with ⟨hs', hl'⟩ | ⟨hs', hl'⟩ <;> omega
    cases y
    cases z
    simp_all
  · rw [Entry.clip, if_neg hcut, List.mem_singleton] at hye hze
    rw [hye, hze]

/-- Only an entry of its process that starts below an address and ends above it covers it. -/
theorem lookup_eq_true_iff {a : ℕ} : lookup m proc a = true ↔ ∃ e ∈ m, e.Meets proc a 1 := by
  simp only [lookup, List.any_eq_true, Bool.and_eq_true, decide_eq_true_eq, Entry.Meets]
  constructor
  · rintro ⟨e, he, ⟨hproc, hlo⟩, hhi⟩
    exact ⟨e, he, hproc, by omega, hhi⟩
  · rintro ⟨e, he, hproc, hlo, hhi⟩
    exact ⟨e, he, ⟨hproc, by omega⟩, hhi⟩

theorem lookup_of_remove {q a : ℕ} (h : lookup (AddressMap.remove m proc lo len) q a = true) :
    lookup m q a = true := by
  obtain ⟨e, he, hmeets⟩ := lookup_eq_true_iff.mp h
  obtain ⟨x, hx, -, hcovers⟩ := exists_of_mem_remove he
  exact lookup_eq_true_iff.mpr ⟨x, hx, hcovers _ _ _ hmeets⟩

end AddressMap

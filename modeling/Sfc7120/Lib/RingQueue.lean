import Mathlib.Logic.Function.Basic
import Mathlib.Data.List.Basic
import Mathlib.Data.List.GetD
import Mathlib.Data.Nat.ModEq
import Mathlib.Tactic.Linarith

/-! A ring of `cap` slots read as a queue. The producer writes item `n` of a growing log to
slot `n % cap`; the consumer takes items in order and leaves an empty marker behind. Neither
side sees a counter of the other: what a slot holds says whether an item is there. -/
namespace RingQueue

variable {α : Type*} {cap : ℕ} {isEmpty : α → Prop} {slots : ℕ → α} {log : List α} {r : ℕ}

/-- Two positions less than one revolution apart lie in different slots. -/
theorem mod_ne_of_lt (cap : ℕ) {i j : ℕ} (hij : i < j) (hj : j < i + cap) : i % cap ≠ j % cap := by
  intro h
  have hdvd : cap ∣ j - i := (Nat.modEq_iff_dvd' hij.le).mp h
  have hle := Nat.le_of_dvd (by omega) hdvd
  omega

/-- One more item taken from the front of a log. -/
theorem prefix_snoc_iff {taken log : List α} {x : α} :
    taken ++ [x] <+: log ↔ taken <+: log ∧ log[taken.length]? = some x := by
  constructor
  · rintro ⟨rest, rfl⟩
    simp
  · rintro ⟨⟨rest, rfl⟩, h⟩
    rw [List.getElem?_append_right le_rfl, Nat.sub_self] at h
    obtain ⟨y, rest', rfl⟩ := List.exists_cons_of_ne_nil (l := rest) (by rintro rfl; cases h)
    obtain rfl : y = x := by simpa using h
    exact ⟨rest', by simp⟩

/-- The slots hold exactly items `r, r + 1, …` of the log, each in its own slot, and every
slot that holds none of them is marked empty. -/
structure Holds (cap : ℕ) (isEmpty : α → Prop) (slots : ℕ → α) (log : List α) (r : ℕ) :
    Prop where
  read_le : r ≤ log.length
  within : log.length ≤ r + cap
  full : ∀ i (h : i < log.length), r ≤ i → slots (i % cap) = log[i]
  empty : ∀ j < cap, (∀ i, r ≤ i → i < log.length → i % cap ≠ j) → isEmpty (slots j)

theorem Holds.init (h : ∀ j < cap, isEmpty (slots j)) : Holds cap isEmpty slots [] 0 where
  read_le := le_rfl
  within := by simp
  full i hi := by simp at hi
  empty j hj _ := h j hj

/-- Items written before the consumer starts, each still in its first slot. -/
theorem Holds.initList {e : α} (he : isEmpty e) (hlen : log.length ≤ cap) :
    Holds cap isEmpty (fun j => log.getD j e) log 0 where
  read_le := Nat.zero_le _
  within := by simpa using hlen
  full i hi _ := by
    rw [Nat.mod_eq_of_lt (hi.trans_le hlen), List.getD_eq_getElem _ _ hi]
  empty j hj hfree := by
    have hge : log.length ≤ j := by
      by_contra hlt
      exact hfree j (Nat.zero_le _) (by omega) (Nat.mod_eq_of_lt hj)
    rw [List.getD_eq_default _ _ hge]
    exact he

/-- The oldest item not yet taken is in the consumer's slot. -/
theorem Holds.head_eq (h : Holds cap isEmpty slots log r) (hr : r < log.length) :
    slots (r % cap) = log[r] := h.full r hr le_rfl

/-- With nothing left to take, the consumer's slot is marked empty. -/
theorem Holds.head_empty (h : Holds cap isEmpty slots log r) (hcap : 0 < cap)
    (hr : r = log.length) : isEmpty (slots (r % cap)) :=
  h.empty _ (Nat.mod_lt _ hcap) fun i hi hl => by omega

/-- The consumer's slot tells exactly whether an item is waiting, provided no item looks
like the empty marker. -/
theorem Holds.not_empty_iff (h : Holds cap isEmpty slots log r) (hcap : 0 < cap)
    (hlog : ∀ x ∈ log, ¬ isEmpty x) : ¬ isEmpty (slots (r % cap)) ↔ r < log.length := by
  constructor
  · intro hne
    by_contra hr
    exact hne (h.head_empty hcap (le_antisymm h.read_le (not_lt.mp hr)))
  · intro hr
    rw [h.head_eq hr]
    exact hlog _ (List.getElem_mem hr)

/-- The producer may write the next item while fewer than `cap` items are waiting. -/
theorem Holds.push (h : Holds cap isEmpty slots log r) (hfree : log.length < r + cap) (x : α) :
    Holds cap isEmpty (Function.update slots (log.length % cap) x) (log ++ [x]) r where
  read_le := by simpa using h.read_le.trans (Nat.le_succ _)
  within := by
    simp only [List.length_append, List.length_singleton]
    omega
  full i hi hri := by
    rcases Nat.lt_or_ge i log.length with hlt | hge
    · have hne := mod_ne_of_lt cap hlt (by omega)
      rw [Function.update_of_ne hne, List.getElem_append_left hlt]
      exact h.full i hlt hri
    · obtain rfl : i = log.length := by
        have : i < log.length + 1 := by simpa using hi
        omega
      simp
  empty j hj hfreej := by
    have hlast : log.length % cap ≠ j := hfreej _ h.read_le (by simp)
    rw [Function.update_of_ne (Ne.symm hlast)]
    refine h.empty j hj fun i hri hi => hfreej i hri ?_
    simp only [List.length_append, List.length_singleton]
    omega

/-- Taking the oldest item frees its slot and nothing else. -/
theorem Holds.pop (h : Holds cap isEmpty slots log r) (hr : r < log.length) {e : α}
    (he : isEmpty e) :
    Holds cap isEmpty (Function.update slots (r % cap) e) log (r + 1) where
  read_le := hr
  within := by have := h.within; omega
  full i hi hri := by
    have hw := h.within
    have hne := mod_ne_of_lt cap (show r < i by omega) (by omega)
    rw [Function.update_of_ne (Ne.symm hne)]
    exact h.full i hi (by omega)
  empty j hj hfreej := by
    by_cases hjr : j = r % cap
    · simpa [hjr] using he
    · rw [Function.update_of_ne hjr]
      refine h.empty j hj fun i hri hi => ?_
      rcases Nat.eq_or_lt_of_le hri with rfl | hlt
      · exact Ne.symm hjr
      · exact hfreej i hlt hi

section
variable {emp : α → Bool} {e : α}

/-- What a consumer at position `r` finds: the items from its slot on, up to the first empty
slot and at most one revolution. -/
def pending (cap : ℕ) (emp : α → Bool) (slots : ℕ → α) (r : ℕ) : List α :=
  ((List.range cap).map fun i => slots ((r + i) % cap)).takeWhile fun x => !emp x

theorem pending_length_le (cap : ℕ) (emp : α → Bool) (slots : ℕ → α) (r : ℕ) :
    (pending cap emp slots r).length ≤ cap := by
  have hle := (List.takeWhile_prefix (fun x => !emp x)
    (l := (List.range cap).map fun i => slots ((r + i) % cap))).length_le
  simpa [pending] using hle

theorem pending_mod (cap : ℕ) (emp : α → Bool) (slots : ℕ → α) (r : ℕ) :
    pending cap emp slots (r % cap) = pending cap emp slots r := by
  simp [pending]

theorem pending_eq_nil_iff (emp : α → Bool) (slots : ℕ → α) (r : ℕ) (hcap : 0 < cap) :
    pending cap emp slots r = [] ↔ emp (slots (r % cap)) = true := by
  obtain ⟨c, rfl⟩ : ∃ c, cap = c + 1 := ⟨cap - 1, by omega⟩
  rw [pending, List.range_succ_eq_map, List.map_cons]
  cases h : emp (slots (r % (c + 1))) <;> simp [h]

/-- Taking the item in its slot, the consumer finds the rest of what it found before: the slot
it leaves behind ends the revolution. -/
theorem pending_of_present {slots : ℕ → α} {r : ℕ} (hcap : 0 < cap)
    (h : emp (slots (r % cap)) = false) (he : emp e = true) :
    pending cap emp slots r =
      slots (r % cap) :: pending cap emp (Function.update slots (r % cap) e) (r + 1) := by
  obtain ⟨c, rfl⟩ : ∃ c, cap = c + 1 := ⟨cap - 1, by omega⟩
  have hlast : (r + 1 + c) % (c + 1) = r % (c + 1) := by
    rw [show r + 1 + c = r + (c + 1) by omega, Nat.add_mod_right]
  have hkeep : (List.range c).map (fun i =>
      Function.update slots (r % (c + 1)) e ((r + 1 + i) % (c + 1))) =
      (List.range c).map fun i => slots ((r + (i + 1)) % (c + 1)) := by
    refine List.map_congr_left fun i hi => ?_
    have hlt := List.mem_range.mp hi
    rw [show r + 1 + i = r + (i + 1) by omega,
      Function.update_of_ne (mod_ne_of_lt (c + 1) (by omega) (by omega)).symm]
  have hnext : pending (c + 1) emp (Function.update slots (r % (c + 1)) e) (r + 1) =
      ((List.range c).map fun i => slots ((r + (i + 1)) % (c + 1))).takeWhile fun x => !emp x := by
    rw [pending, List.range_succ, List.map_append, hkeep, List.takeWhile_append]
    split_ifs with hall
    · simpa [hlast, he] using (List.takeWhile_prefix _).eq_of_length hall |>.symm
    · rfl
  rw [hnext, pending, List.range_succ_eq_map, List.map_cons, List.map_map,
    List.takeWhile_cons_of_pos (by simpa using h)]
  rfl

/-- The pending items are the contents of the slots from the consumer's on, none of them marked
empty, and behind the last of them is an empty slot or the whole ring. -/
theorem pending_spec (cap : ℕ) (emp : α → Bool) (slots : ℕ → α) (r : ℕ) :
    pending cap emp slots r = (List.range (pending cap emp slots r).length).map
        (fun i => slots ((r + i) % cap)) ∧
      (∀ i < (pending cap emp slots r).length, emp (slots ((r + i) % cap)) = false) ∧
      ((pending cap emp slots r).length < cap →
        emp (slots ((r + (pending cap emp slots r).length) % cap)) = true) := by
  have htake : pending cap emp slots r =
      ((List.range cap).map fun i => slots ((r + i) % cap)).take
        (((List.range cap).map fun i => slots ((r + i) % cap)).findIdx emp) := by
    rw [pending, List.takeWhile_eq_take_findIdx_not]
    simp
  have hle : ((List.range cap).map fun i => slots ((r + i) % cap)).findIdx emp ≤
      ((List.range cap).map fun i => slots ((r + i) % cap)).length := List.findIdx_le_length
  generalize hn : ((List.range cap).map fun i => slots ((r + i) % cap)).findIdx emp = n at htake hle
  simp only [List.length_map, List.length_range] at hle
  have hlen : (pending cap emp slots r).length = n := by
    simpa [htake] using hle
  rw [hlen]
  refine ⟨?_, fun i hi => ?_, fun hlt => ?_⟩
  · rw [htake, ← List.map_take, List.take_range, Nat.min_eq_left hle]
  · have hfalse := List.not_of_lt_findIdx (hn ▸ hi)
    simpa using hfalse
  · have hlt' : ((List.range cap).map fun i => slots ((r + i) % cap)).findIdx emp <
        ((List.range cap).map fun i => slots ((r + i) % cap)).length := by
      simpa [hn] using hlt
    have htrue := List.findIdx_getElem (w := hlt')
    simpa [hn] using htrue

/-- `n` slots emptied from position `r` on. -/
def clearFrom (cap : ℕ) (e : α) (slots : ℕ → α) (r n : ℕ) : ℕ → α :=
  fun j => if ∃ i < n, (r + i) % cap = j then e else slots j

theorem clearFrom_zero (cap : ℕ) (e : α) (slots : ℕ → α) (r : ℕ) :
    clearFrom cap e slots r 0 = slots := by
  funext j
  simp [clearFrom]

theorem clearFrom_mod (cap : ℕ) (e : α) (slots : ℕ → α) (r n : ℕ) :
    clearFrom cap e slots (r % cap) n = clearFrom cap e slots r n := by
  funext j
  simp [clearFrom]

/-- Emptying one slot and then the next `n` is emptying `n + 1`. -/
theorem clearFrom_succ (cap : ℕ) (e : α) (slots : ℕ → α) (r n : ℕ) :
    clearFrom cap e (Function.update slots (r % cap) e) (r + 1) n =
      clearFrom cap e slots r (n + 1) := by
  funext j
  have hiff : (∃ i < n + 1, (r + i) % cap = j) ↔ r % cap = j ∨ ∃ i < n, (r + 1 + i) % cap = j := by
    constructor
    · rintro ⟨i, hi, rfl⟩
      rcases Nat.eq_zero_or_pos i with rfl | hpos
      · exact .inl rfl
      · exact .inr ⟨i - 1, by omega, by rw [show r + 1 + (i - 1) = r + i by omega]⟩
    · rintro (rfl | ⟨i, hi, rfl⟩)
      · exact ⟨0, by omega, rfl⟩
      · exact ⟨i + 1, by omega, by rw [show r + (i + 1) = r + 1 + i by omega]⟩
  simp only [clearFrom, hiff]
  by_cases hj : r % cap = j
  · simp [hj]
  · by_cases hrest : ∃ i < n, (r + 1 + i) % cap = j
    · simp [hrest]
    · simp [hrest, hj, Function.update_of_ne (Ne.symm hj)]

end

end RingQueue

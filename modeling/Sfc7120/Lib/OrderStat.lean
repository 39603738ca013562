import Mathlib.Data.List.Count
import Mathlib.Order.Lattice

/-! Ranks in a list with repetitions: what the entry at a place of the sorted list says about the
list that was sorted. -/
namespace OrderStat

variable {α : Type*} [LinearOrder α] {l sorted : List α} {j k : ℕ} {x y : α}

/-- `x` stands at place `k` of `l` sorted: more than `k` entries are at most `x`, and all but `k`
are at least `x`. -/
structure HasRank (l : List α) (k : ℕ) (x : α) : Prop where
  mem : x ∈ l
  low : k < l.countP (· ≤ x)
  high : l.length ≤ l.countP (x ≤ ·) + k

/-- Everything that comes before the entry at `k` is at most it, the rest at least. -/
theorem hasRank_of_sorted (hsorted : sorted.Pairwise (· ≤ ·)) (hk : sorted[k]? = some x) :
    HasRank sorted k x := by
  obtain ⟨hlt, rfl⟩ := List.getElem?_eq_some_iff.mp hk
  have hsplit := List.take_append_drop k sorted
  have hdrop : sorted.drop k = sorted[k] :: sorted.drop (k + 1) := List.drop_eq_getElem_cons hlt
  rw [← hsplit, List.pairwise_append, hdrop, List.pairwise_cons] at hsorted
  obtain ⟨-, ⟨hafter, -⟩, hbefore⟩ := hsorted
  have hlow : (sorted.take k).countP (· ≤ sorted[k]) = (sorted.take k).length := by
    apply List.countP_eq_length.mpr
    intro y hy
    simpa using hbefore y hy _ List.mem_cons_self
  have hhigh : (sorted.drop k).countP (sorted[k] ≤ ·) = (sorted.drop k).length := by
    apply List.countP_eq_length.mpr
    intro y hy
    rw [hdrop, List.mem_cons] at hy
    rcases hy with rfl | hy
    · simp
    · simpa using hafter y hy
  have hone : 0 < (sorted.drop k).countP (· ≤ sorted[k]) := by
    rw [hdrop, List.countP_cons]
    simp
  have hcount := fun p : α → Bool =>
    congrArg (List.countP p) hsplit
  simp only [List.countP_append] at hcount
  constructor
  · exact List.getElem_mem hlt
  · rw [← hcount, hlow, List.length_take]
    omega
  · rw [← hcount, hhigh, List.length_drop]
    omega

theorem HasRank.of_perm (h : HasRank sorted k x) (hperm : sorted.Perm l) : HasRank l k x where
  mem := hperm.mem_iff.mp h.mem
  low := hperm.countP_eq _ ▸ h.low
  high := hperm.countP_eq (x ≤ ·) ▸ hperm.length_eq ▸ h.high

/-- Ranks are in order. -/
theorem HasRank.le (hx : HasRank l j x) (hy : HasRank l k y) (hjk : j ≤ k) : x ≤ y := by
  by_contra hlt
  have hlt : y < x := not_le.mp hlt
  have hsum : l.countP (· ≤ y) + l.countP (x ≤ ·) ≤ l.length := by
    have hle : l.countP (x ≤ ·) ≤ l.countP fun z => decide ¬z ≤ y := by
      apply List.countP_mono_left
      intro z _ hxz
      have hxz : x ≤ z := by simpa using hxz
      simpa using hlt.trans_le hxz
    have hall := List.length_eq_countP_add_countP (fun z => decide (z ≤ y)) (l := l)
    simp only [decide_eq_true_eq] at hall
    omega
  have hlow := hy.low
  have hhigh := hx.high
  omega

/-- The entry of rank zero is the least one. -/
theorem HasRank.least (hx : HasRank l 0 x) (hy : y ∈ l) : x ≤ y := by
  have hall : l.countP (x ≤ ·) = l.length := Nat.le_antisymm List.countP_le_length hx.high
  simpa using List.countP_eq_length.mp hall y hy

end OrderStat

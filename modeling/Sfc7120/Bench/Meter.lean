import Mathlib.Algebra.BigOperators.Group.List.Basic
import Sfc7120.Lib.OrderStat
import Sfc7120.Bench.PingPong

/-! What `run_latency` measures: round-trip times of one frame size after another, the first of
each size left out, and the row of the table it prints for each size. -/
namespace Sfc7120.Bench.Latency

open OrderStat
open PingPong (latWarmup latSamples)

/-- Round trips at one size. -/
def perSize : ℕ := latWarmup + latSamples

/-- `cmp_u64`. -/
def cmpU64 (x y : Word) : ℤ := (if y < x then 1 else 0) - if x < y then 1 else 0

def qsort (l : List Word) : List Word := l.mergeSort fun x y => decide (cmpU64 x y ≤ 0)

/-- One line of the table. -/
structure Row where
  size : ℕ
  min : Word
  mean : Word
  med : Word
  p99 : Word
  oneWay : Word

/-- What is printed of the sorted samples. The sum is a `uint64_t`. -/
def rowOf (size : ℕ) (samples : List Word) : Row where
  size := size
  min := samples.getD 0 0
  mean := samples.foldl (· + ·) 0 / BitVec.ofNat 64 latSamples
  med := samples.getD (latSamples / 2) 0
  p99 := samples.getD (latSamples * 99 / 100) 0
  oneWay := samples.getD (latSamples / 2) 0 / 2

/-- The counters of the two loops, the sample array and the table so far. -/
structure Meter where
  /-- Index of the frame size under test. -/
  s : ℕ
  seq : BitVec 32
  i : ℕ
  samples : ℕ → Word
  rows : List Row
  /-- Times of all round trips so far, in order. -/
  laps : List Word

def Meter.size (m : Meter) : ℕ := sizes.getD m.s 0

/-- Round trips completed. -/
def Meter.trips (m : Meter) : ℕ := perSize * m.s + m.i

/-- A round trip has taken `t`. -/
def Meter.lap (m : Meter) (t : Word) : Meter :=
  { m with
    samples := if latWarmup ≤ m.i then Function.update m.samples (m.i - latWarmup) t else m.samples
    i := m.i + 1
    laps := m.laps ++ [t] }

/-- Sort in place, print, and go on to the next size. -/
def Meter.report (m : Meter) : Meter :=
  let sorted := qsort ((List.range latSamples).map m.samples)
  { m with
    samples := fun j => sorted.getD j (m.samples j)
    rows := m.rows ++ [rowOf m.size sorted]
    s := m.s + 1
    i := 0
    seq := 0 }

/-- The times measured at size number `k`: all but the warm-up. -/
def Meter.measured (m : Meter) (k : ℕ) : List Word :=
  (m.laps.drop (perSize * k + latWarmup)).take latSamples

/-- A row is about these times: least, median and 99th percentile by rank, and the mean unless the
sum overflows. -/
structure Row.Describes (r : Row) (l : List Word) : Prop where
  min : HasRank (l.map BitVec.toNat) 0 r.min.toNat
  med : HasRank (l.map BitVec.toNat) (latSamples / 2) r.med.toNat
  p99 : HasRank (l.map BitVec.toNat) (latSamples * 99 / 100) r.p99.toNat
  mean : (l.map BitVec.toNat).sum < 2 ^ 64 →
    r.mean.toNat = (l.map BitVec.toNat).sum / latSamples

/-- What the meter has noted is right. -/
structure Meter.Tally (m : Meter) : Prop where
  laps : m.laps.length = m.trips
  sampled : ∀ j, latWarmup + j < m.i →
    m.laps[perSize * m.s + latWarmup + j]? = some (m.samples j)
  rows : m.rows.length = m.s
  described : ∀ k r, m.rows[k]? = some r → r.size = sizes.getD k 0 ∧
    (m.measured k).length = latSamples ∧ r.Describes (m.measured k)

section
variable {m : Meter} {l : List Word}

theorem cmpU64_le_zero {x y : Word} : cmpU64 x y ≤ 0 ↔ x.toNat ≤ y.toNat := by
  simp only [cmpU64, BitVec.lt_def]
  split_ifs <;> omega

theorem qsort_perm (l : List Word) : (qsort l).Perm l := List.mergeSort_perm l _

theorem qsort_sorted (l : List Word) : ((qsort l).map BitVec.toNat).Pairwise (· ≤ ·) := by
  have hsorted : (qsort l).Pairwise fun x y => decide (cmpU64 x y ≤ 0) = true := by
    apply List.pairwise_mergeSort
    · intro x y z hxy hyz
      simp only [decide_eq_true_eq, cmpU64_le_zero] at *
      exact hxy.trans hyz
    · intro x y
      simpa [cmpU64_le_zero] using Nat.le_total x.toNat y.toNat
  apply List.pairwise_map.mpr
  apply hsorted.imp
  intro x y hxy
  simpa [cmpU64_le_zero] using hxy

/-- Every entry of the sorted array has its index as rank among the samples. -/
theorem qsort_hasRank {k : ℕ} (hk : k < l.length) :
    HasRank (l.map BitVec.toNat) k ((qsort l).getD k 0).toNat := by
  have hlt : k < (qsort l).length := by rwa [(qsort_perm l).length_eq]
  have hget : ((qsort l).map BitVec.toNat)[k]? = some ((qsort l).getD k 0).toNat := by
    simp [List.getElem?_eq_getElem hlt]
  exact (hasRank_of_sorted (qsort_sorted l) hget).of_perm ((qsort_perm l).map _)

theorem foldl_add_toNat (l : List Word) (a : Word) :
    (l.foldl (· + ·) a).toNat = (a.toNat + (l.map BitVec.toNat).sum) % 2 ^ 64 := by
  induction l generalizing a with
  | nil => simp [Nat.mod_eq_of_lt a.isLt]
  | cons x l ih =>
    rw [List.foldl_cons, ih, BitVec.toNat_add, List.map_cons, List.sum_cons, Nat.mod_add_mod,
      Nat.add_assoc]

theorem rowOf_describes (size : ℕ) (hl : l.length = latSamples) :
    (rowOf size (qsort l)).Describes l := by
  have hpos : 0 < latSamples := by decide
  constructor
  · exact qsort_hasRank (by omega)
  · exact qsort_hasRank (by omega)
  · exact qsort_hasRank (by omega)
  · intro hsum
    have hsame : ((qsort l).map BitVec.toNat).sum = (l.map BitVec.toNat).sum :=
      ((qsort_perm l).map _).sum_eq
    have hlt : latSamples < 2 ^ 64 := by decide
    simp only [rowOf]
    rw [BitVec.toNat_udiv, foldl_add_toNat, hsame, BitVec.toNat_ofNat, Nat.mod_eq_of_lt hlt]
    rw [show (0 : Word).toNat = 0 from rfl, Nat.zero_add, Nat.mod_eq_of_lt hsum]

/-- The least, the median and the 99th percentile are in order, and no time is below the least. -/
theorem Row.Describes.ordered {r : Row} (h : r.Describes l) :
    (∀ x ∈ l, r.min.toNat ≤ x.toNat) ∧ r.min.toNat ≤ r.med.toNat ∧
      r.med.toNat ≤ r.p99.toNat := by
  refine ⟨fun x hx => ?_, h.min.le h.med (Nat.zero_le _), h.med.le h.p99 (by omega)⟩
  exact h.min.least (List.mem_map_of_mem hx)

/-- What was measured at a size done does not change. -/
theorem measured_append {a b : List Word} {k : ℕ} (h : perSize * (k + 1) ≤ a.length) :
    ((a ++ b).drop (perSize * k + latWarmup)).take latSamples =
      (a.drop (perSize * k + latWarmup)).take latSamples := by
  have hlen : perSize * k + latWarmup + latSamples ≤ a.length := by
    rw [Nat.mul_succ, perSize] at h
    simp only [perSize]
    omega
  rw [List.drop_append_of_le_length (by omega), List.take_append_of_le_length]
  rw [List.length_drop]
  omega

theorem Meter.Tally.lap (h : m.Tally) (t : Word) : (m.lap t).Tally := by
  have hlaps := h.laps
  refine ⟨?_, fun j hj => ?_, h.rows, fun k r hr => ?_⟩
  · simp only [Meter.lap, Meter.trips, List.length_append, List.length_singleton] at *
    omega
  · simp only [Meter.lap, Meter.trips] at *
    rcases Nat.lt_or_ge (latWarmup + j) m.i with hlt | hge
    · have hold := h.sampled j hlt
      have hne : j ≠ m.i - latWarmup := by omega
      rw [List.getElem?_append_left (by omega), hold]
      split_ifs
      · rw [Function.update_of_ne hne]
      · rfl
    · have hj' : j = m.i - latWarmup := by omega
      rw [if_pos (by omega), hj', Function.update_self, List.getElem?_append_right (by omega)]
      have hzero : perSize * m.s + latWarmup + (m.i - latWarmup) - m.laps.length = 0 := by omega
      rw [hzero]
      rfl
  · obtain ⟨hsize, hlen, hdesc⟩ := h.described k r hr
    have hk : k < m.s := h.rows ▸ (List.getElem?_eq_some_iff.mp hr).1
    have hmul : perSize * (k + 1) ≤ perSize * m.s := Nat.mul_le_mul_left _ hk
    have hsame : (m.lap t).measured k = m.measured k :=
      measured_append (hmul.trans (by rw [hlaps]; exact Nat.le_add_right _ _))
    rw [hsame]
    exact ⟨hsize, hlen, hdesc⟩

/-- The array holds the times measured when the loop has run to its end. -/
theorem Meter.Tally.samples_eq (h : m.Tally) (hi : m.i = perSize) :
    (List.range latSamples).map m.samples = m.measured m.s := by
  have hlaps := h.laps
  simp only [Meter.trips, hi] at hlaps
  apply List.ext_getElem?
  intro j
  simp only [Meter.measured]
  rcases Nat.lt_or_ge j latSamples with hj | hj
  · have hget := h.sampled j (by rw [hi, perSize]; omega)
    rw [List.getElem?_take_of_lt hj, List.getElem?_drop, hget]
    simp [hj]
  · rw [List.getElem?_eq_none (by simpa using hj), List.getElem?_eq_none]
    rw [List.length_take]
    omega

theorem Meter.Tally.report (h : m.Tally) (hi : m.i = perSize) : m.report.Tally := by
  have hlaps := h.laps
  have hrows := h.rows
  have hsamples := h.samples_eq hi
  refine ⟨?_, fun j hj => ?_, ?_, fun k r hr => ?_⟩
  · simp only [Meter.report, Meter.trips, hi] at *
    rw [hlaps, Nat.mul_succ]
    omega
  · simp only [Meter.report] at hj
    omega
  · simp [Meter.report, hrows]
  · show _ ∧ (m.measured k).length = _ ∧ r.Describes (m.measured k)
    simp only [Meter.report] at hr
    rcases Nat.lt_or_ge k m.rows.length with hk | hk
    · rw [List.getElem?_append_left hk] at hr
      exact h.described k r hr
    · rw [List.getElem?_append_right hk] at hr
      obtain ⟨hzero, rfl⟩ : k - m.rows.length = 0 ∧ rowOf m.size _ = r := by
        rcases hkm : k - m.rows.length with _ | d
        · rw [hkm] at hr
          exact ⟨rfl, by simpa using hr⟩
        · rw [hkm] at hr
          simp at hr
      obtain rfl : k = m.s := by omega
      have hlen : (m.measured m.s).length = latSamples := by
        rw [← hsamples]
        simp
      refine ⟨rfl, hlen, ?_⟩
      rw [hsamples]
      exact rowOf_describes _ hlen

end

end Sfc7120.Bench.Latency

import Sfc7120.Lib.BitFields
import Mathlib.Tactic.Linarith
import Mathlib.Algebra.Order.Ring.Int

/-! Ring positions kept in signed machine integers: when such a value indexes an array, what the
masked increment makes of it, and where the entry it names begins. -/
namespace RingCursor

variable {w n : ℕ} {x : BitVec w}

/-- Read as signed, the value is an index of an array of `n` entries. -/
structure InRange (n : ℕ) (x : BitVec w) : Prop where
  nonneg : 0 ≤ x.toInt
  lt : x.toInt < n

/-- The position after `x`, masked as a ring of `n` slots does it. -/
def next (n : ℕ) (x : BitVec w) : BitVec w := (x + 1) &&& BitVec.ofNat w (n - 1)

/-- Where entry `x` begins, in a product of the index's own width. -/
def offset (size : ℕ) (x : BitVec w) : BitVec w := x * BitVec.ofNat w size

theorem InRange.toInt_eq (h : InRange n x) : x.toInt = x.toNat := by
  have hnonneg := h.nonneg
  have hlt := x.isLt
  rw [BitVec.toInt_eq_toNat_cond] at hnonneg ⊢
  split_ifs at hnonneg ⊢
  · rfl
  · omega

theorem InRange.toNat_lt (h : InRange n x) : x.toNat < n := by
  have hlt := h.lt
  rw [h.toInt_eq] at hlt
  exact_mod_cast hlt

theorem inRange_of_toNat_lt (hn : 2 * n ≤ 2 ^ w) (h : x.toNat < n) : InRange n x := by
  have htoInt : x.toInt = x.toNat := BitVec.toInt_eq_toNat_of_lt (by omega)
  constructor
  · rw [htoInt]
    exact Int.natCast_nonneg _
  · rw [htoInt]
    exact_mod_cast h

/-- The increment wraps with the ring, whatever the position was. -/
theorem toNat_next {k : ℕ} (hk : k ≤ w) (x : BitVec w) :
    (next (2 ^ k) x).toNat = (x.toNat + 1) % 2 ^ k := by
  have hmask : (next (2 ^ k) x).toNat = (x + 1).toNat % 2 ^ k := BitFields.toNat_and_mask hk
  rw [hmask, BitVec.toNat_add, Nat.mod_mod_of_dvd _ (Nat.pow_dvd_pow 2 hk), Nat.add_mod]
  rcases Nat.eq_zero_or_pos w with rfl | hw
  · obtain rfl : k = 0 := by omega
    simp [Nat.mod_one]
  · have hone : (1 : BitVec w).toNat = 1 := BitVec.toNat_one hw
    rw [hone, ← Nat.add_mod]

/-- It is the increment of the number, masked. -/
theorem toNat_next_eq_and {k : ℕ} (hk : k ≤ w) (x : BitVec w) :
    (next (2 ^ k) x).toNat = (x.toNat + 1) &&& (2 ^ k - 1) := by
  rw [toNat_next hk, Nat.and_two_pow_sub_one_eq_mod]

theorem inRange_next {k : ℕ} (hk : k < w) (x : BitVec w) : InRange (2 ^ k) (next (2 ^ k) x) := by
  apply inRange_of_toNat_lt
  · rw [← Nat.pow_succ']
    exact Nat.pow_le_pow_right Nat.two_pos hk
  · rw [toNat_next hk.le]
    exact Nat.mod_lt _ (Nat.two_pow_pos k)

section
variable {size : ℕ}

theorem InRange.mul_size_le (h : InRange n x) (size : ℕ) : x.toNat * size + size ≤ n * size := by
  rw [← Nat.succ_mul]
  exact Nat.mul_le_mul_right size h.toNat_lt

theorem InRange.two_mul_offset_lt (h : InRange n x) (hfit : 2 * (n * size) ≤ 2 ^ w) :
    2 * (x.toNat * size) < 2 ^ w := by
  have hle := h.mul_size_le size
  rcases Nat.eq_zero_or_pos size with rfl | hsize
  · simp
  · omega

/-- The product that finds an entry does not overflow. -/
theorem InRange.toNat_offset (h : InRange n x) (hfit : 2 * (n * size) ≤ 2 ^ w) :
    (offset size x).toNat = x.toNat * size := by
  have hlt := h.two_mul_offset_lt hfit
  rw [offset, BitVec.toNat_mul, BitVec.toNat_ofNat, Nat.mul_mod_mod]
  exact Nat.mod_eq_of_lt (by omega)

theorem InRange.toInt_offset (h : InRange n x) (hfit : 2 * (n * size) ≤ 2 ^ w) :
    (offset size x).toInt = x.toInt * size := by
  have hlt := h.two_mul_offset_lt hfit
  rw [← h.toNat_offset hfit] at hlt
  rw [BitVec.toInt_eq_toNat_of_lt hlt, h.toNat_offset hfit, h.toInt_eq]
  exact Int.natCast_mul _ _

/-- Nor does it change when a wider address is made of it. -/
theorem InRange.toNat_signExtend_offset (h : InRange n x) (hfit : 2 * (n * size) ≤ 2 ^ w) {v : ℕ}
    (hv : w ≤ v) : ((offset size x).signExtend v).toNat = x.toNat * size := by
  have hlt := h.two_mul_offset_lt hfit
  rw [← h.toNat_offset hfit, ← BitVec.msb_eq_false_iff_two_mul_lt] at hlt
  rw [BitVec.signExtend_eq_setWidth_of_msb_false hlt, BitVec.toNat_setWidth_of_le hv,
    h.toNat_offset hfit]

/-- The entry lies inside the array. -/
theorem InRange.entry_within (h : InRange n x) :
    0 ≤ x.toInt * size ∧ x.toInt * size + size ≤ ((n * size : ℕ) : ℤ) := by
  have hle := h.mul_size_le size
  rw [h.toInt_eq]
  constructor
  · positivity
  · exact_mod_cast hle

end

end RingCursor

import Mathlib.Data.Nat.Bitwise
import Mathlib.Data.BitVec

/-! Shifted bit fields of a machine word: a field put into a word is read back unchanged,
and fields that do not overlap do not disturb each other. -/
namespace BitFields

variable {w : ℕ}

/-- The word with its `n` low bits set. -/
def mask (w n : ℕ) : BitVec w := BitVec.ofNat w (2 ^ n - 1)

/-- The low `n` bits of `v`, moved up to bit `lo`. -/
def put (lo n : ℕ) (v : BitVec w) : BitVec w := (v &&& mask w n) <<< lo

/-- The `n` bits of `x` from bit `lo` on. -/
def get (lo n : ℕ) (x : BitVec w) : BitVec w := (x >>> lo) &&& mask w n

theorem mask_getLsbD {n i : ℕ} (h : i < w) : (mask w n).getLsbD i = decide (i < n) := by
  rw [mask, BitVec.getLsbD_ofNat, Nat.testBit_two_pow_sub_one]
  simp [h]

theorem getLsbD_of_toNat_lt {x : BitVec w} {n i : ℕ} (h : x.toNat < 2 ^ n) (hi : n ≤ i) :
    x.getLsbD i = false :=
  Nat.testBit_lt_two_pow (lt_of_lt_of_le h (Nat.pow_le_pow_right Nat.two_pos hi))

/-- Masking a value that fits changes nothing. -/
theorem and_mask_of_lt {x : BitVec w} {n : ℕ} (h : x.toNat < 2 ^ n) : x &&& mask w n = x := by
  apply BitVec.eq_of_getLsbD_eq
  intro i hi
  rw [BitVec.getLsbD_and, mask_getLsbD hi]
  rcases Nat.lt_or_ge i n with hin | hin
  · simp [hin]
  · simp [getLsbD_of_toNat_lt h hin]

theorem toNat_and_mask {x : BitVec w} {n : ℕ} (h : n ≤ w) :
    (x &&& mask w n).toNat = x.toNat % 2 ^ n := by
  have hlt : 2 ^ n - 1 < 2 ^ w :=
    lt_of_lt_of_le (Nat.sub_lt (Nat.two_pow_pos n) one_pos) (Nat.pow_le_pow_right Nat.two_pos h)
  rw [BitVec.toNat_and, mask, BitVec.toNat_ofNat, Nat.mod_eq_of_lt hlt,
    Nat.and_two_pow_sub_one_eq_mod]

theorem get_getLsbD {lo n i : ℕ} {x : BitVec w} (hi : i < w) :
    (get lo n x).getLsbD i = (x.getLsbD (lo + i) && decide (i < n)) := by
  rw [get, BitVec.getLsbD_and, mask_getLsbD hi, BitVec.getLsbD_ushiftRight]

theorem put_getLsbD {lo n i : ℕ} {v : BitVec w} (hi : i < w) :
    (put lo n v).getLsbD i = (decide (lo ≤ i) && decide (i < lo + n) && v.getLsbD (i - lo)) := by
  rw [put, BitVec.getLsbD_shiftLeft, BitVec.getLsbD_and]
  rcases Nat.lt_or_ge i lo with hlo | hlo
  · simp [hlo, Nat.not_le.mpr hlo]
  · rw [mask_getLsbD (by omega)]
    have hn : i - lo < n ↔ i < lo + n := by omega
    simp [hi, hlo, hn, Nat.not_lt.mpr hlo, Bool.and_comm]

theorem get_or (lo n : ℕ) (x y : BitVec w) : get lo n (x ||| y) = get lo n x ||| get lo n y := by
  apply BitVec.eq_of_getLsbD_eq
  intro i hi
  rw [BitVec.getLsbD_or, get_getLsbD hi, get_getLsbD hi, get_getLsbD hi, BitVec.getLsbD_or,
    Bool.and_or_distrib_right]

/-- A field read back where it was put. -/
theorem get_put {lo n : ℕ} (h : lo + n ≤ w) (v : BitVec w) :
    get lo n (put lo n v) = v &&& mask w n := by
  apply BitVec.eq_of_getLsbD_eq
  intro i hi
  rw [get_getLsbD hi, BitVec.getLsbD_and, mask_getLsbD hi]
  rcases Nat.lt_or_ge i n with hin | hin
  · rw [put_getLsbD (by omega)]
    simp [hin]
  · simp [Nat.not_lt.mpr hin]

/-- A field put elsewhere is not seen. -/
theorem get_put_disjoint {lo n lo' n' : ℕ} (h : lo + n ≤ lo' ∨ lo' + n' ≤ lo) (v : BitVec w) :
    get lo n (put lo' n' v) = 0 := by
  apply BitVec.eq_of_getLsbD_eq
  intro i hi
  rw [get_getLsbD hi]
  rcases Nat.lt_or_ge i n with hin | hin
  · rcases Nat.lt_or_ge (lo + i) w with hw | hw
    · rw [put_getLsbD hw]
      rcases h with h | h
      · simp [show ¬ lo' ≤ lo + i by omega]
      · simp [show ¬ lo + i < lo' + n' by omega]
    · simp [BitVec.getLsbD_of_ge _ _ hw]
  · simp [Nat.not_lt.mpr hin]

/-- A word narrower than the field at bit 0 is the field. -/
theorem get_zero_of_lt {x : BitVec w} {n : ℕ} (h : x.toNat < 2 ^ n) : get 0 n x = x := by
  simpa [get] using and_mask_of_lt h

/-- A word is put back together from its low part and the part above it. -/
theorem put_or_put_of_lt {x : BitVec w} {lo n : ℕ} (h : x.toNat < 2 ^ (lo + n)) :
    put lo n (x >>> lo) ||| put 0 lo x = x := by
  apply BitVec.eq_of_getLsbD_eq
  intro i hi
  rw [BitVec.getLsbD_or, put_getLsbD hi, put_getLsbD hi, BitVec.getLsbD_ushiftRight]
  rcases Nat.lt_or_ge i lo with hlo | hlo
  · simp [hlo, Nat.not_le.mpr hlo]
  · have hle : lo + (i - lo) = i := by omega
    rcases Nat.lt_or_ge i (lo + n) with hn | hn
    · simp [hlo, hn, hle, Nat.not_lt.mpr hlo]
    · simp [getLsbD_of_toNat_lt h hn, hle]

end BitFields

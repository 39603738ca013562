import Mathlib.Data.Nat.Notation
import Mathlib.Data.Nat.Basic

/-! Address translation page by page, and the byte ranges pages and buffers occupy. -/
namespace Paging

def InRange (lo len x : ℕ) : Prop := lo ≤ x ∧ x < lo + len

/-- `tr` moves pages as a whole: pages start at pages, and the offset inside a page stays. -/
structure PageByPage (P : ℕ) (tr : ℕ → ℕ) : Prop where
  offset : ∀ a, tr a = tr (a / P * P) + a % P
  aligned : ∀ a, P ∣ tr (a / P * P)

section
variable {P a b lo len off x : ℕ} {tr : ℕ → ℕ}

/-- The page at an aligned offset below a length of whole pages lies in the range. -/
theorem inRange_of_page (hlen : P ∣ len) (hdvd : P ∣ off) (hoff : off < len)
    (hx : InRange (lo + off) P x) : InRange lo len x := by
  obtain ⟨n, rfl⟩ := hlen
  obtain ⟨k, rfl⟩ := hdvd
  have hk : k + 1 ≤ n := Nat.lt_of_mul_lt_mul_left hoff
  have hend : P * k + P ≤ P * n := by
    rw [← Nat.mul_succ]
    exact Nat.mul_le_mul_left P hk
  obtain ⟨hlo, hhi⟩ := hx
  exact ⟨by omega, by omega⟩

/-- Aligned addresses whose pages meet are equal. -/
theorem eq_of_pages_meet (ha : P ∣ a) (hb : P ∣ b) (hxa : InRange a P x) (hxb : InRange b P x) :
    a = b := by
  obtain ⟨i, rfl⟩ := ha
  obtain ⟨j, rfl⟩ := hb
  obtain ⟨hia, hxi⟩ := hxa
  obtain ⟨hjb, hxj⟩ := hxb
  rw [← Nat.mul_succ] at hxi hxj
  have hij : i ≤ j := Nat.le_of_lt_succ (Nat.lt_of_mul_lt_mul_left (Nat.lt_of_le_of_lt hia hxj))
  have hji : j ≤ i := Nat.le_of_lt_succ (Nat.lt_of_mul_lt_mul_left (Nat.lt_of_le_of_lt hjb hxi))
  rw [Nat.le_antisymm hij hji]

theorem PageByPage.add (h : PageByPage P tr) (hpos : 0 < P) (ha : P ∣ a) (hx : x < P) :
    tr (a + x) = tr a + x := by
  obtain ⟨k, rfl⟩ := ha
  rw [h.offset, Nat.mul_add_div hpos, Nat.div_eq_of_lt hx, Nat.mul_add_mod, Nat.mod_eq_of_lt hx,
    Nat.add_zero, Nat.mul_comm k P]

/-- The bytes of a page go to the bytes of the page it goes to, and there are no others. -/
theorem PageByPage.exists_of_inRange (h : PageByPage P tr) (hpos : 0 < P) (ha : P ∣ a)
    (hx : InRange (tr a) P x) : ∃ b, InRange a P b ∧ tr b = x := by
  obtain ⟨hlo, hhi⟩ := hx
  obtain ⟨i, rfl⟩ := Nat.exists_eq_add_of_le hlo
  have hi : i < P := Nat.lt_of_add_lt_add_left hhi
  exact ⟨a + i, ⟨Nat.le_add_right _ _, Nat.add_lt_add_left hi _⟩, h.add hpos ha hi⟩

/-- Two addresses with one image differ by their page only. -/
theorem PageByPage.eq_imp (h : PageByPage P tr) (hpos : 0 < P) (hab : tr a = tr b) :
    tr (a / P * P) = tr (b / P * P) ∧ a % P = b % P := by
  have hin : ∀ c, InRange (tr (c / P * P)) P (tr c) := by
    intro c
    rw [h.offset c]
    exact ⟨Nat.le_add_right _ _, Nat.add_lt_add_left (Nat.mod_lt c hpos) _⟩
  have hpage : tr (a / P * P) = tr (b / P * P) :=
    eq_of_pages_meet (h.aligned a) (h.aligned b) (hin a) (hab ▸ hin b)
  rw [h.offset a, h.offset b, hpage] at hab
  exact ⟨hpage, Nat.add_left_cancel hab⟩

/-- Moving by whole pages. -/
theorem pageByPage_add {P c : ℕ} (hc : P ∣ c) : PageByPage P fun a => c + a where
  offset a := by rw [Nat.add_assoc, Nat.div_add_mod']
  aligned a := Nat.dvd_add hc (Nat.dvd_mul_left P (a / P))

end

end Paging

import Mathlib.Data.Multiset.AddSub
import Mathlib.Tactic.TypeStar
import Mathlib.Tactic.SplitIfs

/-! Who owns which resource. Owners keep their own records of what they hold; a table is balanced
with these records when every resource is recorded exactly once, by the owner the table names. -/
namespace Ownership

variable {ρ ω : Type*} [DecidableEq ρ]

/-- `none` is a resource nobody owns. -/
abbrev Holdings (ρ ω : Type*) := ρ → Option ω

def Holdings.grant (own : Holdings ρ ω) (o : ω) (rs : List ρ) : Holdings ρ ω :=
  fun r => if r ∈ rs then some o else own r

def Holdings.revoke (own : Holdings ρ ω) (rs : List ρ) : Holdings ρ ω :=
  fun r => if r ∈ rs then none else own r

variable [DecidableEq ω]

/-- `held o` is what the records of `o` say. -/
def Balanced (own : Holdings ρ ω) (held : ω → Multiset ρ) : Prop :=
  ∀ o r, (held o).count r = if own r = some o then 1 else 0

variable {own : Holdings ρ ω} {held held' : ω → Multiset ρ} {o : ω} {r : ρ} {rs : List ρ}

theorem Balanced.mem_iff (h : Balanced own held) : r ∈ held o ↔ own r = some o := by
  rw [← Multiset.count_pos, h o r]
  split_ifs with howner <;> simp [howner]

theorem Balanced.nodup (h : Balanced own held) (o : ω) : (held o).Nodup := by
  rw [Multiset.nodup_iff_count_le_one]
  intro r
  rw [h o r]
  split_ifs <;> omega

/-- What an owner has recorded is its own. -/
theorem Balanced.owns (h : Balanced own held) (hle : (rs : Multiset ρ) ≤ held o) :
    ∀ r ∈ rs, own r = some o := by
  intro r hr
  apply h.mem_iff.mp
  exact Multiset.mem_of_le hle (Multiset.mem_coe.mpr hr)

/-- Free resources given to one owner, who records them. -/
theorem Balanced.grant (h : Balanced own held) (hfree : ∀ r ∈ rs, own r = none)
    (hnodup : rs.Nodup) (ho : held' o = held o + rs)
    (hothers : ∀ o', o' ≠ o → held' o' = held o') : Balanced (own.grant o rs) held' := by
  intro o' r
  by_cases hr : r ∈ rs
  · have hnone : ∀ x, (held x).count r = 0 := by
      intro x
      rw [h x r, hfree r hr]
      simp
    by_cases heq : o' = o
    · subst heq
      rw [ho, Multiset.count_add, hnone, Multiset.coe_count, List.count_eq_one_of_mem hnodup hr]
      simp [Holdings.grant, hr]
    · rw [hothers o' heq, hnone]
      simp [Holdings.grant, hr, Ne.symm heq]
  · have hcount : (held' o').count r = (held o').count r := by
      by_cases heq : o' = o
      · subst heq
        rw [ho, Multiset.count_add, Multiset.coe_count, List.count_eq_zero_of_not_mem hr,
          Nat.add_zero]
      · rw [hothers o' heq]
    rw [hcount, h o' r]
    simp [Holdings.grant, hr]

/-- Resources taken from an owner, who forgets them. -/
theorem Balanced.revoke (h : Balanced own held) (ho : held o = held' o + rs)
    (hothers : ∀ o', o' ≠ o → held' o' = held o') : Balanced (own.revoke rs) held' := by
  have howns : ∀ r ∈ rs, own r = some o := by
    apply h.owns
    rw [ho]
    exact Multiset.le_add_left _ _
  intro o' r
  by_cases hr : r ∈ rs
  · have hzero : (held' o').count r = 0 := by
      have hbefore := h o' r
      rw [howns r hr] at hbefore
      by_cases heq : o' = o
      · subst heq
        rw [ho, Multiset.count_add, if_pos rfl] at hbefore
        have hpos : 0 < (rs : Multiset ρ).count r := Multiset.count_pos.mpr hr
        omega
      · rw [hothers o' heq, hbefore, if_neg (by simpa using Ne.symm heq)]
    rw [hzero]
    simp [Holdings.revoke, hr]
  · have hcount : (held' o').count r = (held o').count r := by
      by_cases heq : o' = o
      · subst heq
        rw [ho, Multiset.count_add, Multiset.coe_count, List.count_eq_zero_of_not_mem hr,
          Nat.add_zero]
      · rw [hothers o' heq]
    rw [hcount, h o' r]
    simp [Holdings.revoke, hr]

end Ownership

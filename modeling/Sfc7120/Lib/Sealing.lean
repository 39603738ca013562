import Mathlib.Data.Nat.Notation
import Mathlib.Tactic.TypeStar
import Mathlib.Tactic.SplitIfs
import Mathlib.Tactic.ByContra

/-! Tagged capabilities that one fixed key seals and unseals. Equality of capabilities is equality
of all bits, tag included. -/
namespace Sealing

/-- The operations of a capability machine, with the key already applied. -/
structure Ops (Cap : Type*) where
  null : Cap
  isNull : Cap → Bool
  tag : Cap → Bool
  isSealed : Cap → Bool
  sealCap : Cap → Cap
  unsealCap : Cap → Cap

/-- The operations with the key an argument; `none` is the NULL key. -/
structure Keyed (Cap : Type*) where
  null : Cap
  isNull : Cap → Bool
  tag : Cap → Bool
  isSealed : Cap → Bool
  sealCap : Option ℕ → Cap → Cap
  unsealCap : Option ℕ → Cap → Cap

def Keyed.ops {Cap : Type*} (K : Keyed Cap) (key : Option ℕ) : Ops Cap :=
  ⟨K.null, K.isNull, K.tag, K.isSealed, K.sealCap key, K.unsealCap key⟩

/-- What the machine promises: sealing works on tagged unsealed capabilities only and keeps the
address, unsealing undoes it, and unsealing anything else gives an untagged value. -/
structure Lawful {Cap : Type*} (C : Ops Cap) : Prop where
  isNull_null : C.isNull C.null = true
  isNull_sealCap : ∀ c, C.isNull (C.sealCap c) = C.isNull c
  tag_sealCap : ∀ c, C.tag (C.sealCap c) = (C.tag c && !C.isSealed c)
  unsealCap_sealCap : ∀ c, C.tag c = true → C.isSealed c = false → C.unsealCap (C.sealCap c) = c
  tag_unsealCap : ∀ x, (∀ c, C.tag c = true → C.isSealed c = false → x ≠ C.sealCap c) →
    C.tag (C.unsealCap x) = false

/-- What unsealing does to the bits: the result is never sealed, and an untagged value that is not
sealed either comes back as it is. -/
structure UnsealsBits {Cap : Type*} (C : Ops Cap) : Prop where
  isSealed_unsealCap : ∀ x, C.isSealed (C.unsealCap x) = false
  unsealCap_of_untagged : ∀ x, C.tag x = false → C.isSealed x = false → C.unsealCap x = x

variable {Cap : Type*} {C : Ops Cap}

/-- Only the sealed form of a valid capability unseals to a valid one. -/
theorem Lawful.eq_sealCap_of_tag (h : Lawful C) {x : Cap} (hx : C.tag (C.unsealCap x) = true) :
    x = C.sealCap (C.unsealCap x) ∧ C.isSealed (C.unsealCap x) = false := by
  by_contra hne
  have huntagged := h.tag_unsealCap x fun c hc hs heq => hne ?_
  · rw [hx] at huntagged
    cases huntagged
  · rw [heq, h.unsealCap_sealCap c hc hs]
    exact ⟨rfl, hs⟩

/-- A sealed capability is not sealed again: unsealing the result gives nothing valid. -/
theorem Lawful.tag_unsealCap_sealCap (h : Lawful C) {c : Cap} (hsealed : C.isSealed c = true) :
    C.tag (C.unsealCap (C.sealCap c)) = false := by
  refine h.tag_unsealCap _ fun d hd hdu heq => ?_
  have htag := congrArg C.tag heq
  rw [h.tag_sealCap, h.tag_sealCap, hsealed, hd, hdu] at htag
  simp at htag

/-- Which sealed values unseal to a given valid capability. -/
theorem Lawful.unsealCap_sealCap_eq_iff (h : Lawful C) {c d : Cap} (hc : C.tag c = true)
    (hd : C.tag d = true) : C.unsealCap (C.sealCap c) = d ↔ c = d ∧ C.isSealed c = false := by
  cases hs : C.isSealed c with
  | false => simp [h.unsealCap_sealCap c hc hs]
  | true =>
    simp only [Bool.true_eq_false, and_false, iff_false]
    rintro rfl
    rw [h.tag_unsealCap_sealCap hs] at hd
    cases hd

/-- A capability as Morello has it: tag, object type (0 when unsealed) and the other bits, of
which only the address matters here. -/
structure MorelloCap where
  tag : Bool
  otype : ℕ
  addr : ℕ
  deriving DecidableEq

/-- Sealing with a key for object type `key`. -/
def morello (key : ℕ) : Ops MorelloCap where
  null := ⟨false, 0, 0⟩
  isNull c := c.addr == 0
  tag := MorelloCap.tag
  isSealed c := c.otype != 0
  sealCap c := if c.tag && c.otype == 0 then { c with otype := key } else { c with tag := false }
  unsealCap c :=
    if c.tag && c.otype == key then { c with otype := 0 } else { c with tag := false, otype := 0 }

/-- With the NULL key nothing is sealed or unsealed: the result has no tag. -/
def morelloKeyed : Keyed MorelloCap where
  null := ⟨false, 0, 0⟩
  isNull c := c.addr == 0
  tag := MorelloCap.tag
  isSealed c := c.otype != 0
  sealCap
    | none, c => { c with tag := false }
    | some key, c => (morello key).sealCap c
  unsealCap
    | none, c => { c with tag := false, otype := 0 }
    | some key, c => (morello key).unsealCap c

theorem morello_lawful (key : ℕ) : Lawful (morello key) where
  isNull_null := rfl
  isNull_sealCap c := by
    simp only [morello]
    split_ifs <;> rfl
  tag_sealCap c := by
    cases hc : c.tag <;> by_cases ho : c.otype = 0 <;> simp [morello, hc, ho]
  unsealCap_sealCap c hc hs := by
    have ho : c.otype = 0 := by simpa [morello] using hs
    have ht : c.tag = true := hc
    cases c
    simp_all [morello]
  tag_unsealCap x hx := by
    by_cases h : x.tag = true ∧ x.otype = key
    · refine absurd ?_ (hx { x with otype := 0 } (by simp [morello, h.1]) (by simp [morello]))
      cases x
      simp_all [morello]
    · simp [morello, h]

theorem morello_unsealsBits (key : ℕ) : UnsealsBits (morello key) where
  isSealed_unsealCap x := by
    simp only [morello]
    split_ifs <;> rfl
  unsealCap_of_untagged x ht hs := by
    have hotype : x.otype = 0 := by simpa [morello] using hs
    have htag : x.tag = false := ht
    cases x
    simp_all [morello]

end Sealing

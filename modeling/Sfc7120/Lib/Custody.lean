import Sfc7120.Lib.Machine
import Mathlib.Data.Finset.Insert
import Mathlib.Data.Finset.Erase

/-! Custody of resources along a log of events: a resource is acquired once, when what it needs is
held, used while it is held, and released once, when nothing held uses it. -/
namespace Custody

open Machine

variable {ρ : Type*} [DecidableEq ρ]

inductive Ev (ρ : Type*) where
  | acquire (r : ρ) | release (r : ρ) | use (r : ρ)

/-- `needs` is what must be held when a resource is acquired, `uses` what it uses as long as it is
held. -/
structure Rules (ρ : Type*) where
  needs : ρ → List ρ
  uses : ρ → List ρ

/-- What is held, and what was held and is gone for good. -/
structure Ledger (ρ : Type*) where
  held : Finset ρ
  gone : Finset ρ

def Ledger.empty : Ledger ρ := ⟨∅, ∅⟩

def step (R : Rules ρ) (l : Ledger ρ) : Ev ρ → Option (Ledger ρ)
  | .acquire r =>
      if r ∉ l.held ∧ r ∉ l.gone ∧ ∀ x ∈ R.needs r, x ∈ l.held then
        some { l with held := insert r l.held }
      else none
  | .release r =>
      if r ∈ l.held ∧ ∀ x ∈ l.held, r ∉ R.uses x then
        some ⟨l.held.erase r, insert r l.gone⟩
      else none
  | .use r => if r ∈ l.held then some l else none

variable {R : Rules ρ} {held gone : Finset ρ} {l : Ledger ρ} {r : ρ}

theorem step_acquire (hfree : r ∉ held) (hnew : r ∉ gone) (hneeds : ∀ x ∈ R.needs r, x ∈ held) :
    step R ⟨held, gone⟩ (.acquire r) = some ⟨insert r held, gone⟩ := if_pos ⟨hfree, hnew, hneeds⟩

theorem step_release (h : r ∈ held) (huses : ∀ x ∈ held, r ∉ R.uses x) :
    step R ⟨held, gone⟩ (.release r) = some ⟨held.erase r, insert r gone⟩ := if_pos ⟨h, huses⟩

theorem step_use (h : r ∈ l.held) : step R l (.use r) = some l := if_pos h

theorem run_use {rs : List ρ} (h : ∀ r ∈ rs, r ∈ l.held) :
    run (step R) l (rs.map .use) = some l := by
  induction rs with
  | nil => rfl
  | cons r rs ih =>
    obtain ⟨hr, hrs⟩ := List.forall_mem_cons.mp h
    exact run_cons.mpr ⟨l, step_use hr, ih hrs⟩

end Custody

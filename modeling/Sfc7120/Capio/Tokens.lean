import Sfc7120.Capio.Sessions

/-! What the token check accepts. It compares the unsealed token with the capability given to
`CAPIO_ATTACH`; `set_cap_token` seals that capability without looking at its tag, which the mmap
path does look at. -/
namespace Sfc7120.Capio

open Sealing Machine

section
variable {Cap : Type*} [DecidableEq Cap] {C : Ops Cap} {getBufferSize : ℤ → ℕ} {s t : Sys Cap}

/-- The token is a valid capability, sealed with the driver's key, that some `CAPIO_ATTACH`
returned. -/
def KernelSealed (C : Ops Cap) (s : Sys Cap) (capToken : Cap) : Prop :=
  C.tag capToken = true ∧ ∃ u, (u, capToken) ∈ s.granted ∧ capToken = C.sealCap u ∧
    C.tag u = true ∧ C.isSealed u = false

/-- Nothing else passes the check. -/
def OnlyKernelSealed (C : Ops Cap) (s : Sys Cap) : Prop :=
  ∀ capToken, checkCapToken C s.sc capToken = none → KernelSealed C s capToken

/-- An attach that opens a session brings a valid capability, or at least the bits of a sealed
one, which nothing unseals to. -/
def OpensTagged (C : Ops Cap) (s : Sys Cap) : Act Cap → Prop
  | .attach u => C.isNull u = false → C.isNull s.sc.sealedCap = true →
      C.tag u = true ∨ C.isSealed u = true
  | _ => True

instance OpensTagged.decidable (C : Ops Cap) (s : Sys Cap) :
    (a : Act Cap) → Decidable (OpensTagged C s a)
  | .attach u => inferInstanceAs (Decidable (C.isNull u = false → C.isNull s.sc.sealedCap = true →
      C.tag u = true ∨ C.isSealed u = true))
  | .goodbye .. | .goodbyeClear .. | .close .. | .revokeRead .. | .revokeRemove ..
  | .revokeClear .. | .ioctl .. | .ioctlRun .. | .mmap .. | .mmapValidate .. | .mmapScan ..
  | .mmapAlloc .. | .mmapLate .. | .mapInsert .. | .munmap .. | .detachDying | .destroyDev
  | .freeDma | .capioDestroy => inferInstanceAs (Decidable True)

structure VouchedInv (C : Ops Cap) (s : Sys Cap) : Prop where
  token : TokenInv C s
  vouched : ∀ k, s.session = some k →
    C.tag s.sc.originalCap = true ∨ C.isSealed s.sc.originalCap = true

theorem VouchedInv.step (hC : Lawful C) {a : Act Cap} (h : VouchedInv C s)
    (ha : OpensTagged C s a) (hstep : step C getBufferSize s a = some t) : VouchedInv C t := by
  refine ⟨h.token.step hC hstep, fun k hk => ?_⟩
  rcases step_token hstep with hsame | ⟨u, rfl, hu, hopen, horig, -⟩ | ⟨-, -, -, hsession, -⟩
  · rw [hsame.originalCap]
    exact h.vouched k (hsame.session ▸ hk)
  · rw [horig]
    exact ha hu hopen
  · rw [hsession] at hk
    cases hk

theorem checkCapToken_none {sc : Softc Cap} {capToken : Cap}
    (h : checkCapToken C sc capToken = none) :
    C.isNull sc.sealedCap = false ∧ C.unsealCap capToken = sc.originalCap := by
  unfold checkCapToken at h
  split_ifs at h with hsealed hnull hne
  exact ⟨by simpa using hsealed, not_not.mp hne⟩

/-- While the open session's capability is vouched for, only its own token passes. -/
theorem VouchedInv.only (hC : Lawful C) (hbits : UnsealsBits C) (h : VouchedInv C s) :
    OnlyKernelSealed C s := by
  intro capToken hcheck
  obtain ⟨hopen, hunseal⟩ := checkCapToken_none hcheck
  obtain ⟨k, hk⟩ : ∃ k, s.session = some k := by
    cases hsession : s.session with
    | none =>
      rw [h.token.closed hsession] at hopen
      cases hopen
    | some k => exact ⟨k, rfl⟩
  have hunsealed : C.isSealed s.sc.originalCap = false := hunseal ▸ hbits.isSealed_unsealCap _
  have htag : C.tag s.sc.originalCap = true := by
    rcases h.vouched k hk with htag | hsealed
    · exact htag
    · rw [hunsealed] at hsealed
      cases hsealed
  obtain ⟨heq, -⟩ := hC.eq_sealCap_of_tag (hunseal ▸ htag)
  rw [hunseal] at heq
  obtain ⟨-, -, token, hget⟩ := h.token.opened k hk
  have hmem := List.mem_of_getElem? hget
  obtain ⟨rfl, -⟩ := h.token.granted _ _ hmem
  subst heq
  refine ⟨?_, s.sc.originalCap, hmem, rfl, htag, hunsealed⟩
  rw [hC.tag_sealCap, htag, hunsealed]
  rfl

/-- A session opened with an untagged value accepts that very value as a token. -/
theorem untagged_attach_accepts (hC : Lawful C) (hbits : UnsealsBits C) {u : Cap}
    (hnot : ¬ OpensTagged C s (.attach u))
    (hstep : Capio.step C getBufferSize s (.attach u) = some t) : ¬ OnlyKernelSealed C t := by
  simp only [OpensTagged, Classical.not_imp, not_or, Bool.not_eq_true] at hnot
  obtain ⟨hu, hopen, htag, hsealed⟩ := hnot
  intro honly
  have hopened : t.sc.originalCap = u ∧ t.sc.sealedCap = C.sealCap u := by
    simp only [Capio.step, setCapToken, hu, hopen, Bool.not_true, Bool.or_false,
      Bool.false_eq_true, if_false] at hstep
    split_ifs at hstep
    obtain rfl := Option.some.inj hstep
    exact ⟨rfl, rfl⟩
  have hcheck : checkCapToken C t.sc u = none := by
    simp [checkCapToken, hopened.1, hopened.2, hC.isNull_sealCap, hu,
      hbits.unsealCap_of_untagged u htag hsealed]
  have hgood := (honly u hcheck).1
  rw [htag] at hgood
  cases hgood

end

/-- In every run in which each attach that opens a session brings a tagged capability (or sealed
bits), only tokens the kernel sealed and handed out pass the check; and an attach that does not
leaves a state in which a made-up value passes. -/
theorem only_kernel_sealed_accepted {Cap : Type*} [DecidableEq Cap] {C : Ops Cap} (hC : Lawful C)
    (hbits : UnsealsBits C) {getBufferSize : ℤ → ℕ} {regs : List Region} {acts : List (Act Cap)}
    {s : Sys Cap} (hrun : run (step C getBufferSize) (start C regs) acts = some s) :
    (Along (step C getBufferSize) (OpensTagged C) (start C regs) acts → OnlyKernelSealed C s) ∧
      ∀ u t, ¬ OpensTagged C s (.attach u) → step C getBufferSize s (.attach u) = some t →
        ¬ OnlyKernelSealed C t := by
  refine ⟨fun htagged => ?_, fun u t hnot hstep => untagged_attach_accepts hC hbits hnot hstep⟩
  exact (run_invariant_along (fun _ _ _ h ha hstep => h.step hC ha hstep)
    (⟨tokenInv_start hC regs, fun k hk => by cases hk⟩ : VouchedInv C (start C regs)) htagged
    hrun).only hC hbits

/-- An attach with an untagged value: that value then passes as a token. -/
theorem made_up_token_accepted : ¬ ∀ (getBufferSize : ℤ → ℕ) (regs : List Region)
    (acts : List (Act MorelloCap)) (s : Sys MorelloCap),
      run (step (morello 0x1234) getBufferSize) (start (morello 0x1234) regs) acts = some s →
      OnlyKernelSealed (morello 0x1234) s := by
  intro hall
  have hend : (run (step (morello 0x1234) fun _ => 0) (start (morello 0x1234) [])
      [.attach ⟨false, 0, 0x1000⟩]).map
        (fun s => checkCapToken (morello 0x1234) s.sc ⟨false, 0, 0x1000⟩) =
      some none := by decide +kernel
  obtain ⟨s, hs, hcheck⟩ := Option.map_eq_some_iff.mp hend
  exact absurd (hall _ _ _ s hs _ hcheck).1 (by decide)

/-- One session with a tagged capability: its token passes, and nothing but such tokens. -/
theorem only_kernel_sealed_accepted_tagged :
    ∃ s, run (step (morello 0x1234) fun _ => 0) (start (morello 0x1234) [])
        [.attach (userCapAt 0x1000), .ioctl (tokenAt 0x1000)] = some s ∧
      checkCapToken (morello 0x1234) s.sc (tokenAt 0x1000) = none ∧
      OnlyKernelSealed (morello 0x1234) s := by
  have hend : (run (step (morello 0x1234) fun _ => 0) (start (morello 0x1234) [])
      [.attach (userCapAt 0x1000), .ioctl (tokenAt 0x1000)]).map
        (fun s => checkCapToken (morello 0x1234) s.sc (tokenAt 0x1000)) =
      some none := by decide +kernel
  obtain ⟨s, hs, hcheck⟩ := Option.map_eq_some_iff.mp hend
  exact ⟨s, hs, hcheck, (only_kernel_sealed_accepted (morello_lawful 0x1234)
    (morello_unsealsBits 0x1234) hs).1 (by decide +kernel)⟩

end Sfc7120.Capio

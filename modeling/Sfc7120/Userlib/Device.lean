import Sfc7120.Userlib.Handle

/-! The CAPIO state of a device as its one client sees it: the token, which regions are mapped and
the offsets recorded for them. Each CAPIO call takes a state of this form to another. -/
namespace Sfc7120.Capio.Userlib

open Sealing

section
variable {Cap : Type*}

def view (barSize : ℕ) (original sealedCap : Cap) (mp : VmMapType → Bool) (off : VmMapType → ℕ) :
    Softc Cap where
  originalCap := original
  sealedCap := sealedCap
  mapped := VmMapType.all.any mp
  sharedMemRegs :=
    VmMapType.all.map fun t => ⟨t.toInt, off t, getBufferSize barSize t.toInt, mp t⟩

/-- The entry of a region in the table. -/
def slot (t : VmMapType) : ℕ := t.toInt.toNat

variable {barSize : ℕ} {original sealedCap : Cap} {mp : VmMapType → Bool} {off : VmMapType → ℕ}

theorem range_eq_slots : List.range 6 = VmMapType.all.map slot := rfl

theorem start_eq_view (C : Ops Cap) : (Capio.start C (smem barSize)).sc =
    view barSize C.null C.null (fun _ => false) (fun _ => 0) := by
  simp only [Capio.start, view, smem, List.map_map, Softc.mk.injEq, true_and]
  refine ⟨by simp, ?_⟩
  apply List.map_congr_left
  intro t _
  simp [smemLen_eq]

@[simp] theorem view_regs_length :
    (view barSize original sealedCap mp off).sharedMemRegs.length = 6 := rfl

theorem view_getElem? (t : VmMapType) :
    (view barSize original sealedCap mp off).sharedMemRegs[slot t]? =
      some ⟨t.toInt, off t, getBufferSize barSize t.toInt, mp t⟩ := by
  cases t <;> rfl

theorem view_off_inj {mp' : VmMapType → Bool} {off' : VmMapType → ℕ}
    (h : view barSize original sealedCap mp off = view barSize original sealedCap mp' off') :
    off = off' := by
  funext t
  have hget := congrArg (fun sc => sc.sharedMemRegs[slot t]?) h
  simp only [view_getElem?, Option.some.injEq, Region.mk.injEq] at hget
  exact hget.2.1

theorem setMapped_view (t u : VmMapType) (v : Bool) (n len : ℕ) :
    Region.setMapped t.toInt v ⟨u.toInt, n, len, mp u⟩ =
      ⟨u.toInt, n, len, Function.update mp t v u⟩ := by
  by_cases h : u = t
  · subst h
    simp [Region.setMapped]
  · have hne : u.toInt ≠ t.toInt := fun heq => h (toInt_injective heq)
    simp [Region.setMapped, hne, h]

theorem any_update_true (mp : VmMapType → Bool) (t : VmMapType) :
    VmMapType.all.any (Function.update mp t true) = true := by
  rw [List.any_eq_true]
  refine ⟨t, ?_, by simp⟩
  cases t <;> decide

theorem pagerCtor_view (t : VmMapType) :
    pagerCtor (view barSize original sealedCap mp off) t.toInt =
      view barSize original sealedCap (Function.update mp t true) off := by
  simp only [pagerCtor, view, any_update_true, List.map_map, Softc.mk.injEq, true_and]
  apply List.map_congr_left
  intro u _
  exact setMapped_view t u true _ _

theorem pagerDtor_view (t : VmMapType) :
    pagerDtor (view barSize original sealedCap mp off) t.toInt =
      view barSize original sealedCap (Function.update mp t false) off := by
  have hregs : (view barSize original sealedCap mp off).sharedMemRegs.map
      (Region.setMapped t.toInt false) =
      (view barSize original sealedCap (Function.update mp t false) off).sharedMemRegs := by
    simp only [view, List.map_map]
    apply List.map_congr_left
    intro u _
    exact setMapped_view t u false _ _
  have hany : (view barSize original sealedCap (Function.update mp t false) off).sharedMemRegs.any
      Region.mapped = VmMapType.all.any (Function.update mp t false) := by
    simp only [view, List.any_map]
    rfl
  simp only [pagerDtor, hregs, hany]
  simp only [view, Softc.mk.injEq, true_and, and_true]
  -- with a region still mapped the flag was up before
  split_ifs with hmapped
  · obtain ⟨u, hu, hup⟩ := List.any_eq_true.mp hmapped
    have hbefore : mp u = true := by
      by_cases h : u = t
      · subst h
        simp at hup
      · simpa [h] using hup
    rw [hmapped, List.any_eq_true]
    exact ⟨u, hu, hbefore⟩
  · simpa using hmapped

theorem foldl_pagerDtor_view (ts : List VmMapType) (mp : VmMapType → Bool) :
    (ts.map VmMapType.toInt).foldl pagerDtor (view barSize original sealedCap mp off) =
      view barSize original sealedCap (fun t => mp t && !ts.contains t) off := by
  induction ts generalizing mp with
  | nil => simp
  | cons t ts ih =>
    rw [List.map_cons, List.foldl_cons, pagerDtor_view, ih]
    congr 1
    funext u
    by_cases h : u = t
    · subst h
      simp
    · simp [h]

theorem vaddrCallback_view (t : VmMapType) (base : ℕ) :
    vaddrCallback (view barSize original sealedCap mp off) t.toInt base
        (getBufferSize barSize t.toInt) =
      view barSize original sealedCap mp (Function.update off t base) := by
  simp only [vaddrCallback, view, VmMapType.all, List.map_cons, List.map_nil]
  cases t <;> rfl

theorem clearOffset_view (t : VmMapType) :
    clearOffset (view barSize original sealedCap mp off) (slot t) =
      view barSize original sealedCap mp (Function.update off t 0) := by
  simp only [clearOffset, view, VmMapType.all, List.map_cons, List.map_nil]
  cases t <;> rfl

theorem mmapScan_view (t : VmMapType) : mmapScan (view barSize original sealedCap mp off) t.toInt =
    if mp t then some .EINVAL else none := by
  cases t <;> rfl

theorem sliceLengthCallback_view (t : VmMapType) :
    sliceLengthCallback (view barSize original sealedCap mp off) t.toInt =
      ⟨getBufferSize barSize t.toInt, sliceDefLen t.toInt⟩ := by
  cases t <;> rfl

theorem sliceDefLen_of_ne {t : VmMapType} (h : t ≠ .mmioRegion) : sliceDefLen t.toInt = 0 := by
  cases t <;> first | rfl | exact absurd rfl h

theorem getBufferSize_ne_zero (hbar : 0 < barSize) (t : VmMapType) :
    getBufferSize barSize t.toInt ≠ 0 := by
  rw [← smemLen_eq]
  cases t
  case mmioRegion => exact Nat.ne_of_gt hbar
  all_goals exact Nat.succ_ne_zero _

theorem clearCapToken_view (C : Ops Cap) :
    clearCapToken C (view barSize original sealedCap mp off) =
      view barSize C.null C.null mp off := rfl

/-- The CAPIO state while the session of `u` is open. -/
abbrev opened (C : Ops Cap) (barSize : ℕ) (u : Cap) (mp : VmMapType → Bool)
    (off : VmMapType → ℕ) : Softc Cap := view barSize u (C.sealCap u) mp off

/-- The CAPIO state between sessions. -/
abbrev closed (C : Ops Cap) (barSize : ℕ) : Softc Cap :=
  view barSize C.null C.null (fun _ => false) (fun _ => 0)

/-- What `malloc` returns, as far as sealing goes. -/
structure Valid (C : Ops Cap) (u : Cap) : Prop where
  nonnull : C.isNull u = false
  tag : C.tag u = true
  unsealed : C.isSealed u = false

theorem setCapToken_closed {C : Ops Cap} (hC : Lawful C) {u : Cap} (hu : Valid C u) :
    setCapToken C (closed C barSize) u =
      .ok (opened C barSize u (fun _ => false) (fun _ => 0), C.sealCap u) := by
  simp [setCapToken, view, hC.isNull_null, hu.nonnull]

end

section
variable {Cap : Type*} [DecidableEq Cap] {C : Ops Cap} {barSize : ℕ} {mp : VmMapType → Bool}
  {off : VmMapType → ℕ} {u : Cap}

theorem checkCapToken_opened (hC : Lawful C) (hu : Valid C u) :
    checkCapToken C (opened C barSize u mp off) (C.sealCap u) = none := by
  simp [checkCapToken, view, hC.isNull_sealCap, hu.nonnull,
    hC.unsealCap_sealCap u hu.tag hu.unsealed]

theorem checkCapToken_closed (hC : Lawful C) (token : Cap) :
    checkCapToken C (closed C barSize) token = some .EINVAL := by
  simp [checkCapToken, view, hC.isNull_null]

/-- The request of `map_region` for a region that is not mapped is refused for want of memory
only. -/
theorem mmapSingleExtra_opened (barSize : ℕ) (off : VmMapType → ℕ) (hC : Lawful C)
    (hu : Valid C u) {env : MmapEnv}
    (hfirst : env.dyingFirst = false) (hlast : env.dyingLast = false) {t : VmMapType}
    (ht : mp t = false) :
    mmapSingleExtra C (getBufferSize barSize) env ⟨opened C barSize u mp off, false⟩
        (some ⟨C.sealCap u, u, t.toInt, getBufferSize barSize t.toInt, 0, false⟩) =
      if !env.handle then (⟨opened C barSize u mp off, false⟩, some .ENOMEM)
      else if !env.object then (⟨opened C barSize u mp off, false⟩, some Errno.ENXIO)
      else (⟨opened C barSize u (Function.update mp t true) off, false⟩, none) := by
  have htoken : checkCapToken C (opened C barSize u mp off) (C.sealCap u) = none :=
    checkCapToken_opened hC hu
  have hscan : mmapScan (opened C barSize u mp off) t.toInt = none := by
    rw [mmapScan_view, ht]
    rfl
  rw [mmapSingleExtra_some rfl]
  simp only [mmapRefusal, htoken, mmapValidate, hfirst, hu.tag, hscan, hlast, pagerCtor_view]
  cases env.handle <;> cases env.object <;> simp

end

end Sfc7120.Capio.Userlib

import Sfc7120.Capio.System

/-! Pager objects and detach: which steps make and destroy objects, what the `mapped` flags say
about them, and whether any is left when the driver frees the memory they show. -/
namespace Sfc7120.Capio

open Sealing Machine

/-- The part of the region table the pager constructor and destructor write. -/
def flags (regs : List Region) : List (ℤ × Bool) := regs.map fun smem => (smem.type, smem.mapped)

theorem flags_updateFirst (type : ℤ) {f : Region → Region}
    (hf : ∀ smem, (f smem).type = smem.type ∧ (f smem).mapped = smem.mapped) (regs : List Region) :
    flags (updateFirst type f regs) = flags regs := by
  induction regs with
  | nil => rfl
  | cons smem rest ih =>
    unfold updateFirst
    split
    · simp [flags, hf smem]
    · simpa [flags] using ih

theorem flags_modify (i : ℕ) {f : Region → Region}
    (hf : ∀ smem, (f smem).type = smem.type ∧ (f smem).mapped = smem.mapped) (regs : List Region) :
    flags (regs.modify i f) = flags regs := by
  induction regs generalizing i with
  | nil => simp [flags]
  | cons smem rest ih =>
    cases i with
    | zero => simp [flags, hf smem]
    | succ i => simpa [flags] using ih i

theorem flags_vaddrCallback {Cap : Type*} (sc : Softc Cap) (type : ℤ) (vaddr size : ℕ) :
    flags (vaddrCallback sc type vaddr size).sharedMemRegs = flags sc.sharedMemRegs := by
  unfold vaddrCallback
  exact flags_updateFirst type (by simp) _

theorem flags_clearOffset {Cap : Type*} (sc : Softc Cap) (i : ℕ) :
    flags (clearOffset sc i).sharedMemRegs = flags sc.sharedMemRegs := by
  unfold clearOffset
  exact flags_modify i (by simp) _

section
variable {Cap : Type*} {s t : Sys Cap}

/-- A flag that is set is that of a region with a live pager object. -/
def FlagsTrue (s : Sys Cap) : Prop :=
  ∀ type, (type, true) ∈ flags s.sc.sharedMemRegs → ∃ o ∈ s.objects, o.type = type

theorem FlagsTrue.congr (h : FlagsTrue s) (hflags : flags t.sc.sharedMemRegs =
    flags s.sc.sharedMemRegs) (hobj : ∀ o ∈ s.objects, ∃ x ∈ t.objects, x.type = o.type) :
    FlagsTrue t := by
  intro type htype
  rw [hflags] at htype
  obtain ⟨o, ho, rfl⟩ := h type htype
  exact hobj o ho

/-- The flags after the constructor or destructor of a region ran. -/
theorem mem_flags_setMapped {regs : List Region} {type ty : ℤ} {v b : Bool}
    (h : (ty, b) ∈ flags (regs.map (Region.setMapped type v))) :
    (ty = type ∧ b = v) ∨ (ty ≠ type ∧ (ty, b) ∈ flags regs) := by
  simp only [flags, List.mem_map, Prod.mk.injEq] at h ⊢
  obtain ⟨-, ⟨smem, hmem, rfl⟩, htype, hmapped⟩ := h
  unfold Region.setMapped at htype hmapped
  split_ifs at htype hmapped with heq
  · exact .inl ⟨htype ▸ heq, hmapped.symm⟩
  · exact .inr ⟨htype ▸ heq, smem, hmem, htype, hmapped⟩

/-- The scan refuses only a region whose pager object is live. -/
theorem FlagsTrue.objects_of_refused (h : FlagsTrue s) {type : ℤ} {e : Errno}
    (hscan : Capio.mmapScan s.sc type = some e) : s.objects ≠ [] := by
  unfold Capio.mmapScan at hscan
  split at hscan
  next smem hfind =>
    split_ifs at hscan with hmapped
    have hmem : (smem.type, true) ∈ flags s.sc.sharedMemRegs :=
      List.mem_map.mpr ⟨smem, List.mem_of_find?_eq_some hfind, by rw [hmapped]⟩
    obtain ⟨o, ho, -⟩ := h smem.type hmem
    exact List.ne_nil_of_mem ho
  next => cases hscan

theorem FlagsTrue.alloc (h : FlagsTrue s) {type : ℤ} {o : Obj} (ho : o.type = type)
    (hsc : t.sc.sharedMemRegs = (pagerCtor s.sc type).sharedMemRegs)
    (hobj : t.objects = o :: s.objects) : FlagsTrue t := by
  intro type' htype
  rw [hsc] at htype
  rw [hobj]
  rcases mem_flags_setMapped htype with ⟨rfl, -⟩ | ⟨-, hmem⟩
  · exact ⟨o, List.mem_cons_self .., ho⟩
  · obtain ⟨x, hx, hxt⟩ := h type' hmem
    exact ⟨x, List.mem_cons_of_mem _ hx, hxt⟩

/-- The destructor clears the flag of its region; every other region keeps its object. -/
theorem FlagsTrue.destroyObj (h : FlagsTrue s) (o : Obj) : FlagsTrue (s.destroyObj o) := by
  intro type htype
  rcases mem_flags_setMapped htype with ⟨-, hfalse⟩ | ⟨hne, hmem⟩
  · cases hfalse
  · obtain ⟨x, hx, rfl⟩ := h type hmem
    have hxo : x ≠ o := by
      rintro rfl
      exact hne rfl
    exact ⟨x, (List.mem_erase_of_ne hxo).mpr hx, rfl⟩

theorem FlagsTrue.foldl_destroyObj (h : FlagsTrue s) (os : List Obj) :
    FlagsTrue (os.foldl Sys.destroyObj s) :=
  List.foldlRecOn os Sys.destroyObj h fun _ ht o _ => ht.destroyObj o

theorem Obj.own_type (id : ℕ) (o : Obj) : (Obj.own id o).type = o.type := by
  unfold Obj.own
  split <;> rfl

theorem Obj.mapAt_type (id proc vaddr : ℕ) (o : Obj) :
    (Obj.mapAt id proc vaddr o).type = o.type := by
  unfold Obj.mapAt
  split <;> rfl

/-- An mmap between its two tests of `is_dying`, with the pager object still to be made. -/
def Pc.pastDyingCheck : Pc Cap → Bool
  | .mmapValidated .. => true
  | .mmapScanned .. => true
  | _ => false

/-- No pager object is live and no mmap is about to make one. -/
structure Stilled (s : Sys Cap) : Prop where
  objects : s.objects = []
  reqs : ∀ p ∈ s.reqs, p.pastDyingCheck = false

/-- No pager object and no `mapped` flag is left when the DMA buffers are freed or `cap_mtx` is
destroyed, and no destructor runs after that. -/
structure NoDangling (s : Sys Cap) : Prop where
  unmapped : s.phase = .dmaFreed ∨ s.phase = .capioDestroyed →
    s.objects = [] ∧ ∀ smem ∈ s.sc.sharedMemRegs, smem.mapped = false
  dtor : s.dtorOnDestroyed = false

/-- Detach starts only when no pager object is live and no mmap is between its two tests of
`is_dying`. -/
def StilledAtDetach (s : Sys Cap) : Act Cap → Prop
  | .detachDying => Stilled s
  | _ => True

instance Stilled.decidable (s : Sys Cap) : Decidable (Stilled s) :=
  decidable_of_iff (s.objects = [] ∧ ∀ p ∈ s.reqs, p.pastDyingCheck = false)
    ⟨fun h => ⟨h.1, h.2⟩, fun h => ⟨h.objects, h.reqs⟩⟩

instance StilledAtDetach.decidable (s : Sys Cap) : (a : Act Cap) → Decidable (StilledAtDetach s a)
  | .detachDying => Stilled.decidable s
  | .attach .. | .goodbye .. | .goodbyeClear .. | .close .. | .revokeRead .. | .revokeRemove ..
  | .revokeClear .. | .ioctl .. | .ioctlRun .. | .mmap .. | .mmapValidate .. | .mmapScan ..
  | .mmapAlloc .. | .mmapLate .. | .mapInsert .. | .munmap .. | .destroyDev | .freeDma
  | .capioDestroy => inferInstanceAs (Decidable True)

structure LifeInv (s : Sys Cap) : Prop where
  flags : FlagsTrue s
  stilled : s.phase ≠ .attached → Stilled s
  dtor : s.dtorOnDestroyed = false

theorem LifeInv.noDangling (h : LifeInv s) : NoDangling s where
  unmapped hphase := by
    have hstill : Stilled s := h.stilled (by rcases hphase with hp | hp <;> simp [hp])
    refine ⟨hstill.objects, fun smem hmem => ?_⟩
    rw [Bool.eq_false_iff]
    intro hmapped
    obtain ⟨o, ho, -⟩ := h.flags smem.type (List.mem_map.mpr ⟨smem, hmem, by rw [hmapped]⟩)
    rw [hstill.objects] at ho
    cases ho
  dtor := h.dtor

/-- What one step of the system does to objects, flags and detach. -/
structure StepLife (s t : Sys Cap) : Prop where
  flags : FlagsTrue s → FlagsTrue t
  stilled : s.phase ≠ .attached → Stilled s → Stilled t
  phase : t.phase = s.phase
  dtor : (s.phase = .capioDestroyed → s.objects = []) → t.dtorOnDestroyed = s.dtorOnDestroyed

/-- The objects change in where they are mapped at most, the regions in their offsets. -/
theorem StepLife.relabel {f : Obj → Obj} (hf : ∀ o, (f o).type = o.type)
    (hflags : Capio.flags t.sc.sharedMemRegs = Capio.flags s.sc.sharedMemRegs)
    (hobj : t.objects = s.objects.map f) (hreqs : t.reqs = s.reqs) (hphase : t.phase = s.phase)
    (hdtor : t.dtorOnDestroyed = s.dtorOnDestroyed) : StepLife s t where
  flags h := h.congr hflags fun o ho => ⟨f o, hobj ▸ List.mem_map_of_mem ho, hf o⟩
  stilled _ h := ⟨by rw [hobj, h.objects, List.map_nil], by rw [hreqs]; exact h.reqs⟩
  phase := hphase
  dtor _ := hdtor

theorem StepLife.quiet (hflags : Capio.flags t.sc.sharedMemRegs = Capio.flags s.sc.sharedMemRegs)
    (hobj : t.objects = s.objects) (hreqs : t.reqs = s.reqs) (hphase : t.phase = s.phase)
    (hdtor : t.dtorOnDestroyed = s.dtorOnDestroyed) : StepLife s t :=
  .relabel (f := id) (fun _ => rfl) hflags (by rw [hobj, List.map_id]) hreqs hphase hdtor

theorem StepLife.refl (s : Sys Cap) : StepLife s s := .quiet rfl rfl rfl rfl rfl

/-- Objects lose their last reference. -/
theorem StepLife.foldl_destroyObj {os : List Obj} (hos : s.objects = [] → os = []) :
    StepLife s (os.foldl Sys.destroyObj s) where
  flags h := h.foldl_destroyObj os
  stilled _ h := by
    rw [hos h.objects]
    exact h
  phase := (Capio.foldl_destroyObj os s).phase
  dtor h := by
    by_cases hphase : s.phase = .capioDestroyed
    · rw [hos (h hphase)]
      rfl
    · exact (Capio.foldl_destroyObj os s).dtor hphase

/-- Then a request moves on, to a place where it is not about to make an object. -/
theorem StepLife.setReq (h : StepLife s t) {r : ℕ} {p : Pc Cap}
    (hp : s.phase ≠ .attached → Stilled s → p.pastDyingCheck = false) :
    StepLife s (t.setReq r p) where
  flags hflags := h.flags hflags
  stilled hdying hstill := by
    obtain ⟨hobj, hreqs⟩ := h.stilled hdying hstill
    refine ⟨hobj, fun q hq => ?_⟩
    rcases List.mem_or_eq_of_mem_set hq with hmem | rfl
    · exact hreqs q hmem
    · exact hp hdying hstill
  phase := h.phase
  dtor hdtor := h.dtor hdtor

/-- Then a request arrives. -/
theorem StepLife.addReq (h : StepLife s t) {p : Pc Cap} (hp : p.pastDyingCheck = false) :
    StepLife s (t.addReq p) where
  flags hflags := h.flags hflags
  stilled hdying hstill := by
    obtain ⟨hobj, hreqs⟩ := h.stilled hdying hstill
    refine ⟨hobj, fun q hq => ?_⟩
    rcases List.mem_append.mp hq with hmem | hmem
    · exact hreqs q hmem
    · rw [List.mem_singleton.mp hmem]
      exact hp
  phase := h.phase
  dtor hdtor := h.dtor hdtor

/-- A request about to make an object excludes that all is still. -/
theorem Stilled.not_past (h : Stilled s) {r : ℕ} {p : Pc Cap} (hr : s.reqs[r]? = some p) :
    p.pastDyingCheck = false :=
  h.reqs p (List.mem_of_getElem? hr)

/-- A dying device lets no mmap past the checks. -/
theorem mmapValidate_dying (C : Ops Cap) (getBufferSize : ℤ → ℕ) (req : MapReq Cap) :
    ∃ e, Capio.mmapValidate C getBufferSize true req = some e := by
  simp only [Capio.mmapValidate, if_true]
  split_ifs
  · exact ⟨_, rfl⟩
  · exact ⟨_, rfl⟩
  · exact ⟨_, rfl⟩

theorem Phase.isDying_of_ne {p : Phase} (h : p ≠ .attached) : p.isDying = true := by
  cases p with
  | attached => exact absurd rfl h
  | dying | devDestroyed | dmaFreed | capioDestroyed => rfl

/-- Request `r` has moved to `p`, with objects and detach as they were. -/
structure Moved (s t : Sys Cap) (r : ℕ) (p : Pc Cap) : Prop where
  reqs : t.reqs = s.reqs.set r p
  objects : t.objects = s.objects
  phase : t.phase = s.phase

theorem Moved.setReq (s : Sys Cap) (r : ℕ) (p : Pc Cap) : Moved s (s.setReq r p) r p :=
  ⟨rfl, rfl, rfl⟩

theorem Moved.get {r : ℕ} {p q : Pc Cap} (h : Moved s t r p) (hr : s.reqs[r]? = some q) :
    t.reqs[r]? = some p := by
  have hlt := (List.getElem?_eq_some_iff.mp hr).1
  rw [h.reqs, List.getElem?_set_self hlt]

theorem Moved.trans {u : Sys Cap} {r : ℕ} {p q : Pc Cap} (hst : Moved s t r p)
    (htu : Moved t u r q) : Moved s u r q :=
  ⟨by rw [htu.reqs, hst.reqs, List.set_set], htu.objects.trans hst.objects,
    htu.phase.trans hst.phase⟩

end

section
variable {Cap : Type*} [DecidableEq Cap] {C : Ops Cap} {getBufferSize : ℤ → ℕ} {s t : Sys Cap}

/-- Every step is one of a client or the VM system, or moves detach on. -/
theorem step_life {a : Act Cap} (hstep : step C getBufferSize s a = some t) :
    StepLife s t ∨
      ∃ phase, t = { s with phase := phase } ∧ (s.phase = .attached → a = .detachDying) := by
  cases step_moves hstep with
  | refused hasks => exact .inl (.refl s)
  | attach hnull hclosed => exact .inl (.quiet rfl rfl rfl rfl rfl)
  | goodbye hcheck hsession => exact .inl ((StepLife.refl s).addReq rfl)
  | ioctl hcheck hsession => exact .inl ((StepLife.refl s).addReq rfl)
  | mmap hcheck hsession => exact .inl ((StepLife.refl s).addReq rfl)
  | goodbyeClear hr =>
    refine .inl (StepLife.setReq ?_ fun _ _ => rfl)
    exact .quiet rfl rfl rfl rfl rfl
  | close hcdev =>
    refine .inl (StepLife.addReq ?_ rfl)
    exact .quiet rfl rfl rfl rfl rfl
  | @revokeRemove r proc i offset len hr =>
    refine .inl (StepLife.setReq ?_ fun _ _ => rfl)
    refine .foldl_destroyObj fun hobj => ?_
    rw [Sys.mappedIn, hobj, List.filter_nil]
  | @revokeClear r proc i hr =>
    refine .inl (StepLife.setReq ?_ fun _ _ => rfl)
    exact .quiet (flags_clearOffset s.sc i) rfl rfl rfl rfl
  | ioctlRun hr =>
    refine .inl (StepLife.setReq ?_ fun _ _ => rfl)
    exact .quiet rfl rfl rfl rfl rfl
  | @mmapValidate r k proc req hr hvalid =>
    refine .inl ((StepLife.refl s).setReq fun hdying _ => ?_)
    rw [Phase.isDying_of_ne hdying] at hvalid
    obtain ⟨e, he⟩ := mmapValidate_dying C getBufferSize req
    rw [he] at hvalid
    cases hvalid
  | mmapScan hr hscan => exact .inl ((StepLife.refl s).setReq fun _ h => by cases h.not_past hr)
  | mmapAlloc hr =>
    refine .inl ⟨fun h => h.alloc rfl rfl rfl, fun _ h => ?_, rfl, fun _ => rfl⟩
    cases h.not_past hr
  | @mmapLate r proc id req hr hdying =>
    refine .inl (StepLife.setReq ?_ fun _ _ => rfl)
    exact .relabel (Obj.own_type id) rfl rfl rfl rfl rfl
  | @mapInsert id proc vaddr o ho =>
    have hflags := flags_vaddrCallback s.sc o.type vaddr (getBufferSize o.type)
    exact .inl (.relabel (Obj.mapAt_type id proc vaddr) hflags rfl rfl rfl rfl)
  | @munmap id o ho =>
    left
    show StepLife s ([o].foldl Sys.destroyObj s)
    refine .foldl_destroyObj fun hobj => ?_
    rw [hobj] at ho
    cases ho
  | revokeDone | revokeRead | revokeSkip | removeFailed | mmapInvalid | mmapBusy | allocFailed
  | lateDying => exact .inl ((StepLife.refl s).setReq fun _ _ => rfl)
  | detachDying hphase => exact .inr ⟨_, rfl, fun _ => rfl⟩
  | destroyDev hphase hdone => exact .inr ⟨_, rfl, fun h => by cases hphase.symm.trans h⟩
  | freeDma hphase => exact .inr ⟨_, rfl, fun h => by cases hphase.symm.trans h⟩
  | capioDestroy hphase => exact .inr ⟨_, rfl, fun h => by cases hphase.symm.trans h⟩

theorem FlagsTrue.step {a : Act Cap} (h : FlagsTrue s) (hstep : step C getBufferSize s a = some t) :
    FlagsTrue t := by
  rcases step_life hstep with hlife | ⟨phase, rfl, -⟩
  · exact hlife.flags h
  · exact h

theorem LifeInv.step {a : Act Cap} (h : LifeInv s) (hdetach : StilledAtDetach s a)
    (hstep : step C getBufferSize s a = some t) : LifeInv t := by
  rcases step_life hstep with hlife | ⟨phase, rfl, hphase⟩
  · refine ⟨hlife.flags h.flags, fun hdying => ?_, ?_⟩
    · rw [hlife.phase] at hdying
      exact hlife.stilled hdying (h.stilled hdying)
    · rw [hlife.dtor fun hgone => (h.stilled (by simp [hgone])).objects]
      exact h.dtor
  · refine ⟨h.flags, fun _ => ?_, h.dtor⟩
    by_cases hattached : s.phase = .attached
    · obtain rfl := hphase hattached
      exact ⟨hdetach.objects, hdetach.reqs⟩
    · exact ⟨(h.stilled hattached).objects, (h.stilled hattached).reqs⟩

end

section
variable {Cap : Type*} [DecidableEq Cap] (C : Ops Cap) (getBufferSize : ℤ → ℕ)

/-- Request `r` can be run to its end. -/
def CanFinish (s : Sys Cap) (r : ℕ) : Prop :=
  ∃ t, Reaches (step C getBufferSize) s t ∧ Moved s t r .done

variable {C getBufferSize} {s t : Sys Cap} {r : ℕ} {p q : Pc Cap} {a : Act Cap}

theorem CanFinish.last (hstep : step C getBufferSize s a = some t) (hm : Moved s t r .done) :
    CanFinish C getBufferSize s r :=
  ⟨t, .step hstep (.refl _ _), hm⟩

theorem CanFinish.step (hstep : step C getBufferSize s a = some t) (hm : Moved s t r p)
    (h : CanFinish C getBufferSize t r) : CanFinish C getBufferSize s r := by
  obtain ⟨u, hreach, hu⟩ := h
  exact ⟨u, .step hstep hreach, hm.trans hu⟩

/-- Revocation gets through its loop from any region on, also when nothing can be removed. -/
theorem canFinish_revoking {proc i : ℕ} (hr : s.reqs[r]? = some (.revoking proc i)) :
    CanFinish C getBufferSize s r := by
  obtain ⟨n, hn⟩ : ∃ n, s.sc.sharedMemRegs.length - i = n := ⟨_, rfl⟩
  induction n generalizing s i with
  | zero =>
    have hnone : s.sc.sharedMemRegs[i]? = none := List.getElem?_eq_none (by omega)
    apply CanFinish.last (a := .revokeRead r) _ (Moved.setReq s r .done)
    simp only [Capio.step, hr, hnone]
  | succ n ih =>
    have hi : i < s.sc.sharedMemRegs.length := by omega
    have hnext := ih ((Moved.setReq s r (.revoking proc (i + 1))).get hr)
      (by simp only [Sys.setReq]; omega)
    by_cases hoff : s.sc.sharedMemRegs[i].offset = 0
    · apply CanFinish.step (a := .revokeRead r) _ (Moved.setReq s r _) hnext
      simp [Capio.step, hr, List.getElem?_eq_getElem hi, hoff]
    · have hm := Moved.setReq s r
        (.removing proc i s.sc.sharedMemRegs[i].offset s.sc.sharedMemRegs[i].len)
      apply CanFinish.step (a := .revokeRead r) _ hm
      · apply CanFinish.step (a := .revokeRemove r true) _ (Moved.setReq _ r _)
        · simpa [Sys.setReq] using hnext
        · simp [Capio.step, hm.get hr]
      · simp [Capio.step, hr, List.getElem?_eq_getElem hi, hoff]

theorem canFinish_mmapScanned {k proc : ℕ} {req : MapReq Cap}
    (hr : s.reqs[r]? = some (.mmapScanned k proc req)) : CanFinish C getBufferSize s r := by
  apply CanFinish.last (a := .mmapAlloc r true) _ (Moved.setReq s r .done)
  simp [Capio.step, hr]

/-- Once the device is dying every request can come to its end without an object going away. -/
theorem canFinish_of_dying (hphase : s.phase = .dying) (hr : s.reqs[r]? = some p) :
    CanFinish C getBufferSize s r := by
  cases p with
  | done =>
    obtain ⟨hlt, hdone⟩ := List.getElem?_eq_some_iff.mp hr
    refine ⟨s, .refl _ _, ?_, rfl, rfl⟩
    rw [← hdone, List.set_getElem_self]
  | goodbyeChecked k proc =>
    have hm : Moved s (((s.act .goodbye k).clear C).setReq r (.revoking proc 0)) r
        (.revoking proc 0) := ⟨rfl, rfl, rfl⟩
    apply CanFinish.step (a := .goodbyeClear r) _ hm (canFinish_revoking (hm.get hr))
    simp only [Capio.step, hr]
  | revoking proc i => exact canFinish_revoking hr
  | removing proc i offset len =>
    have hm := Moved.setReq s r (.revoking proc (i + 1))
    apply CanFinish.step (a := .revokeRemove r true) _ hm (canFinish_revoking (hm.get hr))
    simp [Capio.step, hr]
  | cleaning proc i =>
    have hm : Moved s ({ s with sc := clearOffset s.sc i }.setReq r (.revoking proc (i + 1))) r
        (.revoking proc (i + 1)) := ⟨rfl, rfl, rfl⟩
    apply CanFinish.step (a := .revokeClear r) _ hm (canFinish_revoking (hm.get hr))
    simp only [Capio.step, hr]
  | ioctlChecked k =>
    have hm : Moved s ((s.act .ioctl k).setReq r .done) r .done := ⟨rfl, rfl, rfl⟩
    apply CanFinish.last (a := .ioctlRun r) _ hm
    simp only [Capio.step, hr]
  | mmapChecked k proc req =>
    obtain ⟨e, he⟩ := mmapValidate_dying C getBufferSize req
    apply CanFinish.last (a := .mmapValidate r) _ (Moved.setReq s r .done)
    simp [Capio.step, hr, hphase, Phase.isDying, he]
  | mmapValidated k proc req =>
    cases hscan : Capio.mmapScan s.sc req.mapType with
    | some e =>
      apply CanFinish.last (a := .mmapScan r) _ (Moved.setReq s r .done)
      simp only [Capio.step, hr, hscan]
    | none =>
      have hm := Moved.setReq s r (.mmapScanned k proc req)
      apply CanFinish.step (a := .mmapScan r) _ hm (canFinish_mmapScanned (hm.get hr))
      simp only [Capio.step, hr, hscan]
  | mmapScanned k proc req => exact canFinish_mmapScanned hr
  | mmapAllocated proc id req =>
    apply CanFinish.last (a := .mmapLate r) _ (Moved.setReq s r .done)
    simp [Capio.step, hr, hphase, Phase.isDying]

/-- So `destroy_dev` can return with every object still there. -/
theorem reaches_drained (C : Ops Cap) (getBufferSize : ℤ → ℕ) (hphase : s.phase = .dying) :
    ∃ t, Reaches (step C getBufferSize) s t ∧ t.objects = s.objects ∧ t.phase = .dying ∧
      ∀ p ∈ t.reqs, p.isDone = true := by
  -- finish the requests one after another; `n` counts those that are done
  have hfirst : ∀ n ≤ s.reqs.length, ∃ t, Reaches (step C getBufferSize) s t ∧
      t.objects = s.objects ∧ t.phase = .dying ∧ t.reqs.length = s.reqs.length ∧
      ∀ j < n, t.reqs[j]? = some .done := by
    intro n
    induction n with
    | zero =>
      intro _
      exact ⟨s, .refl _ _, rfl, hphase, rfl, fun j hj => absurd hj (Nat.not_lt_zero j)⟩
    | succ n ih =>
      intro hn
      obtain ⟨t, hreach, hobj, hdying, hlen, hdone⟩ := ih (by omega)
      have hr : t.reqs[n]? = some t.reqs[n] := List.getElem?_eq_getElem (by omega)
      have hfinish : CanFinish C getBufferSize t n := canFinish_of_dying hdying hr
      obtain ⟨u, htu, hm⟩ := hfinish
      refine ⟨u, hreach.trans htu, hm.objects.trans hobj, hm.phase.trans hdying, ?_, ?_⟩
      · rw [hm.reqs, List.length_set, hlen]
      · intro j hj
        rcases Nat.lt_succ_iff_lt_or_eq.mp hj with hlt | rfl
        · rw [hm.reqs, List.getElem?_set_ne (by omega)]
          exact hdone j hlt
        · exact hm.get hr
  obtain ⟨t, hreach, hobj, hdying, hlen, hdone⟩ := hfirst _ (Nat.le_refl _)
  refine ⟨t, hreach, hobj, hdying, fun p hp => ?_⟩
  obtain ⟨j, hj, rfl⟩ := List.getElem_of_mem hp
  have hget := hdone j (hlen ▸ hj)
  rw [List.getElem?_eq_getElem hj] at hget
  rw [Option.some.inj hget]
  rfl

/-- A pager object that is live while detach is on its way can outlive the memory it shows. -/
theorem reaches_dangling_of_object (hphase : s.phase = .dying) (hobj : s.objects ≠ []) :
    ∃ t, Reaches (step C getBufferSize) s t ∧ ¬ NoDangling t := by
  obtain ⟨t, hreach, htobj, hdying, hdone⟩ := reaches_drained C getBufferSize hphase
  have hdestroy : step C getBufferSize t .destroyDev = some { t with phase := .devDestroyed } := by
    simp only [Capio.step, hdying, List.all_eq_true.mpr hdone, and_self, if_true]
  refine ⟨{ t with phase := .dmaFreed },
    hreach.trans (.step hdestroy (.step (a := .freeDma) rfl (.refl _ _))), fun h => ?_⟩
  exact hobj (htobj ▸ (h.unmapped (.inl rfl)).1)

theorem reaches_object_of_scanned (C : Ops Cap) (getBufferSize : ℤ → ℕ) {k proc : ℕ}
    {req : MapReq Cap} (hr : s.reqs[r]? = some (.mmapScanned k proc req)) :
    ∃ t, Reaches (step C getBufferSize) s t ∧ t.phase = s.phase ∧ t.objects ≠ [] := by
  have halloc : ∃ t, step C getBufferSize s (.mmapAlloc r false) = some t ∧ t.phase = s.phase ∧
      t.objects ≠ [] := by
    simp [Capio.step, hr, Sys.setReq, Sys.act]
  obtain ⟨t, hstep, hphase, hobj⟩ := halloc
  exact ⟨t, .step hstep (.refl _ _), hphase, hobj⟩

/-- An mmap past its first test of `is_dying` still makes its object, unless one is there. -/
theorem reaches_object_of_past (hflags : FlagsTrue s) (hr : s.reqs[r]? = some p)
    (hp : p.pastDyingCheck = true) :
    ∃ t, Reaches (step C getBufferSize) s t ∧ t.phase = s.phase ∧ t.objects ≠ [] := by
  cases p with
  | mmapScanned k proc req => exact reaches_object_of_scanned C getBufferSize hr
  | mmapValidated k proc req =>
    cases hscan : Capio.mmapScan s.sc req.mapType with
    | some e => exact ⟨s, .refl _ _, rfl, hflags.objects_of_refused hscan⟩
    | none =>
      have hm := Moved.setReq s r (.mmapScanned k proc req)
      have hstep : step C getBufferSize s (.mmapScan r) =
          some (s.setReq r (.mmapScanned k proc req)) := by
        simp only [Capio.step, hr, hscan]
      obtain ⟨t, hreach, hphase, hobj⟩ :=
        reaches_object_of_scanned C getBufferSize (hm.get hr)
      exact ⟨t, .step hstep hreach, hphase, hobj⟩
  | _ => cases hp

/-- Detach started at any other moment can leave a client with freed memory. -/
theorem reaches_dangling (hflags : FlagsTrue s) (hphase : s.phase = .attached)
    (hstill : ¬ Stilled s) :
    ∃ acts t, run (step C getBufferSize) s (.detachDying :: acts) = some t ∧ ¬ NoDangling t := by
  have hdetach : step C getBufferSize s .detachDying = some { s with phase := .dying } := by
    simp only [Capio.step, hphase, if_true]
  obtain ⟨u, hu, hdying, hobj⟩ : ∃ u, Reaches (step C getBufferSize) { s with phase := .dying } u ∧
      u.phase = .dying ∧ u.objects ≠ [] := by
    by_cases hobj : s.objects = []
    · obtain ⟨p, hp, hpast⟩ : ∃ p ∈ s.reqs, p.pastDyingCheck = true := by
        by_contra hnone
        exact hstill ⟨hobj, fun p hp => by simpa using fun hpast => hnone ⟨p, hp, hpast⟩⟩
      obtain ⟨r, hr⟩ := List.getElem?_of_mem hp
      have hflags' : FlagsTrue { s with phase := .dying } := hflags
      exact reaches_object_of_past hflags' hr hpast
    · exact ⟨_, .refl _ _, rfl, hobj⟩
  obtain ⟨t, ht, hdangling⟩ := reaches_dangling_of_object (C := C) hdying hobj
  obtain ⟨acts, hacts⟩ := hu.trans ht
  exact ⟨acts, t, run_cons.mpr ⟨_, hdetach, hacts⟩, hdangling⟩

end

theorem lifeInv_start {Cap : Type*} (C : Ops Cap) (regs : List Region) :
    LifeInv (start C regs) where
  flags type htype := by
    simp [start, flags] at htype
  stilled hdying := absurd rfl hdying
  dtor := rfl

/-- In every run of clients and detach in which detach starts only when no pager object is live
and no mmap is between its two tests of `is_dying`, no object is left when the memory behind it is
freed, and no destructor runs on a destroyed softc. Started at any other moment, detach can be
followed by steps that break this. -/
theorem detach_no_dangling {Cap : Type*} [DecidableEq Cap] {C : Ops Cap} {getBufferSize : ℤ → ℕ}
    {regs : List Region} {acts : List (Act Cap)} {s : Sys Cap}
    (hrun : run (step C getBufferSize) (start C regs) acts = some s) :
    (Along (step C getBufferSize) StilledAtDetach (start C regs) acts → NoDangling s) ∧
      (s.phase = .attached → ¬ StilledAtDetach s .detachDying →
        ∃ acts' t, run (step C getBufferSize) s (.detachDying :: acts') = some t ∧
          ¬ NoDangling t) := by
  constructor
  · intro hstill
    have hinv : LifeInv s := run_invariant_along (fun _ _ _ h ha hstep => h.step ha hstep)
      (lifeInv_start C regs) hstill hrun
    exact hinv.noDangling
  · intro hphase hstill
    have hflags : FlagsTrue s :=
      run_invariant (fun _ _ _ h hstep => h.step hstep) (lifeInv_start C regs).flags hrun
    exact reaches_dangling hflags hphase hstill

/-- One region of one page. -/
def onePage : List Region := [⟨0, 0, 4096, false⟩]

def pageSize (_ : ℤ) : ℕ := 4096

/-- A client maps the region. -/
def mapOne : List (Act MorelloCap) :=
  let cap : MorelloCap := ⟨true, 0, 0x1000⟩
  let token := (morello 0x1234).sealCap cap
  [.attach cap, .mmap 1 ⟨token, cap, 0, 4096, 0, false⟩, .mmapValidate 0, .mmapScan 0,
   .mmapAlloc 0 false, .mmapLate 0, .mapInsert 0 1 0x40000000]

def detachAll : List (Act MorelloCap) := [.detachDying, .destroyDev, .freeDma, .capioDestroy]

theorem detach_leaves_mapping : ¬ ∀ (getBufferSize : ℤ → ℕ) (regs : List Region)
    (acts : List (Act MorelloCap)) (s : Sys MorelloCap),
      run (step (morello 0x1234) getBufferSize) (start (morello 0x1234) regs) acts = some s →
      NoDangling s := by
  intro hall
  have hend : (run (step (morello 0x1234) pageSize) (start (morello 0x1234) onePage)
      (mapOne ++ detachAll)).map (fun s => (s.phase, s.objects.length)) =
      some (.capioDestroyed, 1) := by decide +kernel
  obtain ⟨s, hs, hd⟩ := Option.map_eq_some_iff.mp hend
  obtain ⟨hphase, hlen⟩ : s.phase = .capioDestroyed ∧ s.objects.length = 1 := by simpa using hd
  have hnone := ((hall _ _ _ s hs).unmapped (.inr hphase)).1
  rw [hnone] at hlen
  cases hlen

theorem detach_no_dangling_after_munmap :
    ∃ s, run (step (morello 0x1234) pageSize) (start (morello 0x1234) onePage)
        (mapOne ++ [.munmap 0] ++ detachAll) = some s ∧ s.phase = .capioDestroyed ∧
      NoDangling s := by
  have hend : (run (step (morello 0x1234) pageSize) (start (morello 0x1234) onePage)
      (mapOne ++ [.munmap 0] ++ detachAll)).map Sys.phase = some .capioDestroyed := by
    decide +kernel
  obtain ⟨s, hs, hphase⟩ := Option.map_eq_some_iff.mp hend
  exact ⟨s, hs, hphase, (detach_no_dangling hs).1 (by decide +kernel)⟩

end Sfc7120.Capio

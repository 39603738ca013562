import Sfc7120.Capio.Sessions
import Sfc7120.Capio.Mapping

/-! Sessions one after another. The token is cleared by revocation, the recorded offsets by the
revocation loop, the flags by the pager destructors, in whatever order unmapping and revocation
come; `len` is written at every map. When a session is over the CAPIO state is the one attach
left. -/
namespace Sfc7120.Capio

open Sealing Machine

section
variable {Cap : Type*}

/-- The region a revocation loop is at. -/
def Pc.loopAt : Pc Cap → Option ℕ
  | .revoking _ i => some i
  | .removing _ i _ _ => some i
  | .cleaning _ i => some i
  | _ => none

/-- Some revocation loop has yet to visit region `i`. -/
def Sys.loopBefore (s : Sys Cap) (i : ℕ) : Prop := ∃ p ∈ s.reqs, ∃ j ∈ p.loopAt, j ≤ i

/-- The types and lengths in the table. Only `offset` and `mapped` change for good. -/
def layout (regs : List Region) : List (ℤ × ℕ) := regs.map fun smem => (smem.type, smem.len)

/-- The steps of consecutive sessions: a session is opened when the previous one is over, maps
only while it is open, and ends with GOODBYE or close; unmapping may come before, during and
after revocation. Removal from an address space never fails, and nothing detaches. -/
def InTurn (s : Sys Cap) : Act Cap → Prop
  | .attach _ => s.objects = [] ∧ s.reqs.all Pc.isDone = true
  | .mmap .. | .mmapValidate .. | .mmapScan .. | .mmapAlloc .. | .mmapLate .. | .mapInsert .. =>
      s.session.isSome = true
  | .revokeRemove _ fails => fails = false
  | .detachDying | .destroyDev | .freeDma | .capioDestroy => False
  | _ => True

instance InTurn.decidable (s : Sys Cap) : (a : Act Cap) → Decidable (InTurn s a)
  | .attach _ => inferInstanceAs (Decidable (s.objects = [] ∧ s.reqs.all Pc.isDone = true))
  | .mmap .. | .mmapValidate .. | .mmapScan .. | .mmapAlloc .. | .mmapLate .. | .mapInsert .. =>
      inferInstanceAs (Decidable (s.session.isSome = true))
  | .revokeRemove _ fails => inferInstanceAs (Decidable (fails = false))
  | .detachDying | .destroyDev | .freeDma | .capioDestroy => inferInstanceAs (Decidable False)
  | .goodbye .. | .goodbyeClear .. | .close .. | .revokeRead .. | .revokeClear .. | .ioctl ..
  | .ioctlRun .. | .munmap .. => inferInstanceAs (Decidable True)

/-- A session is over: its token is revoked, its mappings are gone, no request is running. -/
structure Over (s : Sys Cap) : Prop where
  session : s.session = none
  objects : s.objects = []
  reqs : s.reqs.all Pc.isDone = true

/-- A recorded offset belongs to the open session, or a revocation loop will come to it. -/
def OffsetsOwed (s : Sys Cap) : Prop :=
  ∀ i x, (ranges s.sc.sharedMemRegs)[i]? = some x → x.2.1 ≠ 0 →
    s.session.isSome = true ∨ s.loopBefore i

structure RestartInv (C : Ops Cap) (barSize : ℕ) (s : Sys Cap) : Prop where
  token : TokenInv C s
  cleared : s.session = none → s.sc.originalCap = C.null ∧ s.sc.sealedCap = C.null
  flags : FlagsTrue s
  mapped : s.sc.mapped = true → s.objects ≠ []
  table : layout s.sc.sharedMemRegs = layout (smem barSize)
  offsets : OffsetsOwed s
  phase : s.phase = .attached

theorem layout_smem (barSize : ℕ) :
    ∀ x ∈ layout (smem barSize), x.2 = getBufferSize barSize x.1 := by
  intro x hx
  simp only [layout, smem, List.map_map, List.mem_map, Function.comp_apply] at hx
  obtain ⟨t, -, rfl⟩ := hx
  exact smemLen_eq barSize t

theorem restartInv_start {C : Ops Cap} (hC : Lawful C) (barSize : ℕ) :
    RestartInv C barSize (start C (smem barSize)) where
  token := tokenInv_start hC _
  cleared _ := ⟨rfl, rfl⟩
  flags type h := by
    simp only [start, flags, List.map_map, List.mem_map, Function.comp_apply, Prod.mk.injEq] at h
    obtain ⟨smem, -, -, hfalse⟩ := h
    cases hfalse
  mapped h := by simp [start] at h
  table := by simp [start, layout, Function.comp_def]
  offsets i x hx hne := by
    have hmem := List.mem_of_getElem? hx
    simp only [start, ranges, List.map_map, List.mem_map, Function.comp_apply] at hmem
    obtain ⟨smem, -, rfl⟩ := hmem
    exact absurd rfl hne
  phase := rfl

/-- When a session is over the CAPIO state is the one after attach. -/
theorem RestartInv.over {C : Ops Cap} {barSize : ℕ} {s : Sys Cap} (h : RestartInv C barSize s)
    (hover : Over s) : s.sc = (start C (smem barSize)).sc := by
  obtain ⟨horig, hsealed⟩ := h.cleared hover.session
  have hmapped : s.sc.mapped = false := by
    cases hm : s.sc.mapped with
    | false => rfl
    | true => exact absurd hover.objects (h.mapped hm)
  have hnoLoop : ∀ i, ¬ s.loopBefore i := by
    rintro i ⟨p, hp, j, hj, -⟩
    have hdone := List.all_eq_true.mp hover.reqs p hp
    cases p <;> simp [Pc.isDone, Pc.loopAt] at hdone hj
  have hregion : ∀ smem ∈ s.sc.sharedMemRegs,
      smem = ⟨smem.type, 0, getBufferSize barSize smem.type, false⟩ := by
    intro r hr
    have hrange : (r.type, r.offset, r.len) ∈ ranges s.sc.sharedMemRegs :=
      List.mem_map.mpr ⟨r, hr, rfl⟩
    have hlen : r.len = getBufferSize barSize r.type := by
      have hmem : (r.type, r.len) ∈ layout s.sc.sharedMemRegs := List.mem_map.mpr ⟨r, hr, rfl⟩
      rw [h.table] at hmem
      exact layout_smem barSize _ hmem
    have hoffset : r.offset = 0 := by
      by_contra hne
      obtain ⟨i, hi⟩ := List.mem_iff_getElem?.mp hrange
      rcases h.offsets i _ hi hne with hopen | hloop
      · simp [hover.session] at hopen
      · exact hnoLoop i hloop
    have hflag : r.mapped = false := by
      cases hm : r.mapped with
      | false => rfl
      | true =>
        obtain ⟨o, ho, -⟩ := h.flags r.type (List.mem_map.mpr ⟨r, hr, by rw [hm]⟩)
        rw [hover.objects] at ho
        cases ho
    cases r
    simp_all
  have hregs : s.sc.sharedMemRegs = (start C (smem barSize)).sc.sharedMemRegs := by
    have hfresh : ∀ regs : List Region,
        (∀ r ∈ regs, r = ⟨r.type, 0, getBufferSize barSize r.type, false⟩) →
        regs = (regs.map Region.type).map fun ty => ⟨ty, 0, getBufferSize barSize ty, false⟩ := by
      intro regs hall
      rw [List.map_map]
      conv_lhs => rw [← List.map_id regs]
      exact List.map_congr_left fun r hr => hall r hr
    have htypes : s.sc.sharedMemRegs.map Region.type = (smem barSize).map Region.type := by
      have hfst := congrArg (List.map Prod.fst) h.table
      simpa [layout, Function.comp_def] using hfst
    rw [hfresh _ hregion, htypes]
    simp only [start, smem, List.map_map]
    refine List.map_congr_left fun t _ => ?_
    simp [smemLen_eq]
  cases hsc : s.sc
  rw [hsc] at horig hsealed hmapped hregs
  simp only at horig hsealed hmapped hregs
  rw [horig, hsealed, hmapped, hregs]
  rfl

section
variable {s t : Sys Cap}

/-- The device counts as mapped only while some object is left. -/
theorem FlagsTrue.mapped_destroyObj (hflags : FlagsTrue s) {o : Obj}
    (hmapped : (s.destroyObj o).sc.mapped = true) : (s.destroyObj o).objects ≠ [] := by
  simp only [Sys.destroyObj, pagerDtor] at hmapped
  split_ifs at hmapped with hany
  obtain ⟨smem, hsmem, hm⟩ := List.any_eq_true.mp hany
  obtain ⟨x, hx, -⟩ := hflags.destroyObj o smem.type (List.mem_map.mpr ⟨smem, hsmem, by rw [hm]⟩)
  exact List.ne_nil_of_mem hx

theorem mapped_foldl_destroyObj (os : List Obj) (hflags : FlagsTrue s)
    (h : s.sc.mapped = true → s.objects ≠ []) :
    (os.foldl Sys.destroyObj s).sc.mapped = true → (os.foldl Sys.destroyObj s).objects ≠ [] := by
  let I (t : Sys Cap) : Prop := FlagsTrue t ∧ (t.sc.mapped = true → t.objects ≠ [])
  have hall : I (os.foldl Sys.destroyObj s) := by
    have hstart : I s := ⟨hflags, h⟩
    apply List.foldlRecOn os Sys.destroyObj hstart
    exact fun t ht o _ => ⟨ht.1.destroyObj o, ht.1.mapped_destroyObj⟩
  exact hall.2

/-- A request moves on; if it was a revocation loop, it is past no region it still owes. -/
theorem loopBefore_setReq {r k : ℕ} {q p : Pc Cap} (hr : s.reqs[r]? = some q)
    (hmove : ∀ i ∈ q.loopAt, i ≤ k → ∃ j ∈ p.loopAt, j ≤ k) (h : s.loopBefore k) :
    (s.setReq r p).loopBefore k := by
  obtain ⟨x, hx, i, hi, hik⟩ := h
  obtain ⟨m, hm⟩ := List.mem_iff_getElem?.mp hx
  by_cases hmr : m = r
  · subst hmr
    obtain rfl : q = x := Option.some.inj (hr.symm.trans hm)
    exact ⟨p, List.mem_set (List.getElem?_eq_some_iff.mp hr).1 p, hmove i hi hik⟩
  · refine ⟨x, ?_, i, hi, hik⟩
    exact List.mem_of_getElem? ((List.getElem?_set_ne (Ne.symm hmr)).trans hm)

theorem loopBefore_addReq {k : ℕ} {p : Pc Cap} (h : s.loopBefore k) :
    (s.addReq p).loopBefore k := by
  obtain ⟨x, hx, hrest⟩ := h
  exact ⟨x, List.mem_append_left _ hx, hrest⟩

/-- The recorded ranges stay and every offset is still owed. -/
theorem OffsetsOwed.congr (h : OffsetsOwed s)
    (hranges : ranges t.sc.sharedMemRegs = ranges s.sc.sharedMemRegs)
    (hsession : s.session.isSome = true → t.session.isSome = true)
    (hloop : ∀ i, s.loopBefore i → t.loopBefore i) : OffsetsOwed t := by
  intro i x hx hne
  rw [hranges] at hx
  rcases h i x hx hne with hopen | hbefore
  · exact .inl (hsession hopen)
  · exact .inr (hloop i hbefore)

theorem OffsetsOwed.opened (h : t.session.isSome = true) : OffsetsOwed t := fun _ _ _ _ => .inl h

theorem OffsetsOwed.revoked {p : Pc Cap} (hp : p ∈ t.reqs) (hloop : p.loopAt = some 0) :
    OffsetsOwed t := fun i _ _ _ => .inr ⟨p, hp, 0, hloop, Nat.zero_le i⟩

/-- A region's offset is cleared, and the loop goes on to the next region. -/
theorem OffsetsOwed.clear (h : OffsetsOwed s) {r proc i : ℕ}
    (hr : s.reqs[r]? = some (.cleaning proc i)) :
    OffsetsOwed ({ s with sc := clearOffset s.sc i }.setReq r (.revoking proc (i + 1))) := by
  intro k x hx hne
  have hrange : (ranges s.sc.sharedMemRegs)[k]? = some x ∧ k ≠ i := by
    simp only [Sys.setReq, clearOffset, ranges, List.getElem?_map, List.getElem?_modify] at hx ⊢
    obtain ⟨smem, hsmem, rfl⟩ := Option.map_eq_some_iff.mp hx
    obtain ⟨y, hy, rfl⟩ := Option.map_eq_some_iff.mp hsmem
    by_cases hik : i = k
    · simp [hik] at hne
    · simp only [hik, if_false, hy, Option.map_some]
      exact ⟨trivial, Ne.symm hik⟩
  rcases h k x hrange.1 hne with hopen | hloop
  · exact .inl hopen
  · refine .inr (loopBefore_setReq (s := { s with sc := clearOffset s.sc i }) hr ?_ hloop)
    intro j hj hjk
    obtain rfl : i = j := Option.some.inj hj
    exact ⟨i + 1, rfl, by have := hrange.2; omega⟩

/-- The read of a revocation loop: it goes on past a region only when its offset is zero. -/
theorem OffsetsOwed.read (h : OffsetsOwed s) {r proc i : ℕ} {p : Pc Cap}
    (hr : s.reqs[r]? = some (.revoking proc i))
    (hp : ∀ smem, s.sc.sharedMemRegs[i]? = some smem → smem.offset ≠ 0 → p.loopAt = some i)
    (hnext : i < s.sc.sharedMemRegs.length → p.loopAt = some i ∨ p.loopAt = some (i + 1)) :
    OffsetsOwed (s.setReq r p) := by
  intro k x hx hne
  rcases h k x hx hne with hopen | hloop
  · exact .inl hopen
  · refine .inr (loopBefore_setReq hr ?_ hloop)
    intro j hj hjk
    obtain rfl : i = j := Option.some.inj hj
    simp only [ranges, List.getElem?_map] at hx
    obtain ⟨smem, hsmem, rfl⟩ := Option.map_eq_some_iff.mp hx
    have hk : k < s.sc.sharedMemRegs.length := (List.getElem?_eq_some_iff.mp hsmem).1
    rcases Nat.eq_or_lt_of_le hjk with rfl | hlt
    · exact ⟨i, hp smem hsmem hne, Nat.le_refl i⟩
    · rcases hnext (by omega) with hat | hat
      · exact ⟨i, hat, hjk⟩
      · exact ⟨i + 1, hat, hlt⟩

theorem layout_of_ranges {regs regs' : List Region} (h : ranges regs = ranges regs') :
    layout regs = layout regs' := by
  have hmap : ∀ rs : List Region, layout rs = (ranges rs).map fun x => (x.1, x.2.2) := by
    intro rs
    simp [layout, ranges, Function.comp_def]
  rw [hmap, hmap, h]

theorem layout_clearOffset (sc : Softc Cap) (i : ℕ) :
    layout (clearOffset sc i).sharedMemRegs = layout sc.sharedMemRegs := by
  unfold clearOffset
  generalize sc.sharedMemRegs = regs
  induction regs generalizing i with
  | nil => simp [layout]
  | cons smem rest ih =>
    cases i with
    | zero => simp [layout]
    | succ i => simpa [layout] using ih i

/-- modmap reports the size that was accepted, which is the one the table had. -/
theorem layout_vaddrCallback {barSize : ℕ} (sc : Softc Cap) (type : ℤ) (vaddr : ℕ)
    (h : ∀ x ∈ layout sc.sharedMemRegs, x.2 = getBufferSize barSize x.1) :
    layout (vaddrCallback sc type vaddr (getBufferSize barSize type)).sharedMemRegs =
      layout sc.sharedMemRegs := by
  unfold vaddrCallback
  generalize hregs : sc.sharedMemRegs = regs at h
  clear hregs
  induction regs with
  | nil => rfl
  | cons smem rest ih =>
    obtain ⟨hhead, hrest⟩ := List.forall_mem_cons.mp h
    unfold updateFirst
    split
    next heq =>
      have hlen : getBufferSize barSize type = smem.len := heq ▸ hhead.symm
      simp [layout, hlen]
    next => exact congrArg ((smem.type, smem.len) :: ·) (ih hrest)

/-- The sizes userspace is told depend on the types and lengths only. -/
theorem sliceLengthCallback_of_layout {sc sc' : Softc Cap}
    (h : layout sc.sharedMemRegs = layout sc'.sharedMemRegs) (type : ℤ) :
    sliceLengthCallback sc type = sliceLengthCallback sc' type := by
  have hfind : ∀ sc : Softc Cap, sliceLengthCallback sc type =
      match (layout sc.sharedMemRegs).find? (fun x => x.1 = type) with
      | some x => ⟨x.2, sliceDefLen x.1⟩
      | none => ⟨0, 0⟩ := by
    intro sc
    unfold sliceLengthCallback layout
    rw [List.find?_map]
    simp only [Function.comp_def]
    cases sc.sharedMemRegs.find? fun smem => decide (smem.type = type) <;> rfl
  rw [hfind sc, hfind sc', h]

end

end

section
variable {Cap : Type*} {barSize : ℕ} {s t u : Sys Cap}

/-- What one step does to the region table and the recorded offsets. -/
structure StepRegs (barSize : ℕ) (s t : Sys Cap) : Prop where
  mapped : FlagsTrue s → (s.sc.mapped = true → s.objects ≠ []) →
    t.sc.mapped = true → t.objects ≠ []
  table : layout s.sc.sharedMemRegs = layout (smem barSize) →
    layout t.sc.sharedMemRegs = layout (smem barSize)
  offsets : OffsetsOwed s → OffsetsOwed t

/-- The regions and objects stay as they are, up to where objects are mapped. -/
theorem StepRegs.quiet (hregs : ranges t.sc.sharedMemRegs = ranges s.sc.sharedMemRegs)
    (hmapped : t.sc.mapped = s.sc.mapped) (hobj : t.objects = [] → s.objects = [])
    (hsession : s.session.isSome = true → t.session.isSome = true)
    (hloop : ∀ i, s.loopBefore i → t.loopBefore i) : StepRegs barSize s t where
  mapped _ h hm := fun hnil => h (hmapped ▸ hm) (hobj hnil)
  table h := (layout_of_ranges hregs).trans h
  offsets h := h.congr hregs hsession hloop

theorem StepRegs.refl (s : Sys Cap) : StepRegs barSize s s :=
  .quiet rfl rfl id id fun _ => id

theorem StepRegs.setReq {r : ℕ} {q p : Pc Cap} (hr : s.reqs[r]? = some q)
    (hloop : q.loopAt = none ∨ p.loopAt = q.loopAt) : StepRegs barSize s (s.setReq r p) := by
  refine .quiet rfl rfl id id fun i => loopBefore_setReq hr fun j hj hji => ?_
  rcases hloop with hnone | hsame
  · rw [hnone] at hj
    cases hj
  · exact ⟨j, hsame ▸ hj, hji⟩

/-- The revocation loop has looked at its region. -/
theorem StepRegs.read {r proc i : ℕ} {p : Pc Cap} (hr : s.reqs[r]? = some (.revoking proc i))
    (hp : ∀ smem, s.sc.sharedMemRegs[i]? = some smem → smem.offset ≠ 0 → p.loopAt = some i)
    (hnext : i < s.sc.sharedMemRegs.length → p.loopAt = some i ∨ p.loopAt = some (i + 1)) :
    StepRegs barSize s (s.setReq r p) :=
  ⟨fun _ h => h, fun h => h, fun h => h.read hr hp hnext⟩

/-- A step that also opens a session, or acts while one is open. -/
theorem StepRegs.opened (hmapped : FlagsTrue s → (s.sc.mapped = true → s.objects ≠ []) →
      t.sc.mapped = true → t.objects ≠ [])
    (htable : layout s.sc.sharedMemRegs = layout (smem barSize) →
      layout t.sc.sharedMemRegs = layout (smem barSize))
    (hsession : t.session.isSome = true) : StepRegs barSize s t :=
  ⟨hmapped, htable, fun _ => .opened hsession⟩

/-- Revocation starts: whatever is recorded is now owed to its loop. -/
theorem StepRegs.revoked {p : Pc Cap} (hsc : t.sc.sharedMemRegs = s.sc.sharedMemRegs)
    (hmapped : t.sc.mapped = s.sc.mapped) (hobj : t.objects = s.objects) (hp : p ∈ t.reqs)
    (hloop : p.loopAt = some 0) : StepRegs barSize s t where
  mapped _ h hm := hobj ▸ h (hmapped ▸ hm)
  table h := by
    rw [hsc]
    exact h
  offsets _ := .revoked hp hloop

theorem StepRegs.destroy (os : List Obj) : StepRegs barSize s (os.foldl Sys.destroyObj s) where
  mapped hflags h := mapped_foldl_destroyObj os hflags h
  table h := (layout_of_ranges (foldl_destroyObj os s).ranges).trans h
  offsets h := by
    have hframe := foldl_destroyObj os s
    refine h.congr hframe.ranges (fun hs => by rw [hframe.session]; exact hs) ?_
    rintro i ⟨p, hp, hrest⟩
    exact ⟨p, hframe.reqs ▸ hp, hrest⟩

theorem StepRegs.trans (hst : StepRegs barSize s t) (htu : StepRegs barSize t u)
    (hflags : FlagsTrue s → FlagsTrue t) : StepRegs barSize s u where
  mapped hf h := htu.mapped (hflags hf) (hst.mapped hf h)
  table h := htu.table (hst.table h)
  offsets h := htu.offsets (hst.offsets h)

end

section
variable {Cap : Type*} [DecidableEq Cap] {C : Ops Cap} {barSize : ℕ} {s t : Sys Cap}

theorem step_regs {a : Act Cap} (ha : InTurn s a)
    (hstep : step C (getBufferSize barSize) s a = some t) : StepRegs barSize s t := by
  cases step_moves hstep with
  | refused hasks => exact .refl s
  | attach hnull hclosed => exact .opened (fun _ h => h) (fun h => h) rfl
  | goodbye hcheck hsession => exact .quiet rfl rfl id id fun _ => loopBefore_addReq
  | ioctl hcheck hsession => exact .quiet rfl rfl id id fun _ => loopBefore_addReq
  | mmap hcheck hsession => exact .quiet rfl rfl id id fun _ => loopBefore_addReq
  | @goodbyeClear r k proc hr =>
    exact .revoked (p := .revoking proc 0) rfl rfl rfl
      (List.mem_set (List.getElem?_eq_some_iff.mp hr).1 _) rfl
  | @close proc hcdev =>
    exact .revoked (p := .revoking proc 0) rfl rfl rfl
      (List.mem_append_right _ (List.mem_singleton_self _)) rfl
  | revokeDone hr hend =>
    have hge := List.getElem?_eq_none_iff.mp hend
    refine .read hr (fun smem hsmem => ?_) fun hlt => absurd hlt (by omega)
    rw [hend] at hsmem
    cases hsmem
  | revokeRead hr hsmem hoffset => exact .read hr (fun _ _ _ => rfl) fun _ => .inl rfl
  | @revokeSkip r proc i smem hr hsmem hoffset =>
    refine .read hr (fun smem' hsmem' hne => ?_) fun _ => .inr rfl
    obtain rfl : smem = smem' := Option.some.inj (hsmem.symm.trans hsmem')
    exact absurd hoffset hne
  | removeFailed hr => cases ha
  | @revokeRemove r proc i offset len hr =>
    have hreqs := (foldl_destroyObj (s.mappedIn proc offset len) s).reqs
    refine (StepRegs.destroy (s.mappedIn proc offset len)).trans
      (.setReq (q := .removing proc i offset len) (hreqs ▸ hr) (.inr rfl)) fun hflags => ?_
    exact hflags.foldl_destroyObj _
  | @revokeClear r proc i hr =>
    exact ⟨fun _ h => h, fun h => (layout_clearOffset s.sc i).trans h, fun h => h.clear hr⟩
  | @ioctlRun r k hr =>
    have hact : StepRegs barSize s (s.act .ioctl k) := .quiet rfl rfl id id fun _ => id
    exact hact.trans (.setReq (s := s.act .ioctl k) hr (.inl rfl)) id
  | mmapInvalid hr hvalid => exact .setReq hr (.inl rfl)
  | mmapValidate hr hvalid => exact .setReq hr (.inl rfl)
  | mmapBusy hr hscan => exact .setReq hr (.inl rfl)
  | mmapScan hr hscan => exact .setReq hr (.inl rfl)
  | allocFailed hr => exact .setReq hr (.inl rfl)
  | mmapAlloc hr =>
    exact .opened (fun _ _ _ => by simp [Sys.setReq])
      (fun h => (layout_of_ranges (ranges_setMapped _ _ _)).trans h) ha
  | lateDying hr hdying => exact .setReq hr (.inl rfl)
  | mmapLate hr hdying =>
    exact .opened (fun _ h hm => by simpa [Sys.setReq] using h hm) (fun h => h) ha
  | @mapInsert id proc vaddr o ho =>
    refine .opened (fun _ h hm => by simpa using h hm) (fun h => ?_) ha
    refine (layout_vaddrCallback s.sc o.type vaddr ?_).trans h
    rw [h]
    exact layout_smem barSize
  | @munmap id o ho => exact StepRegs.destroy [o]
  | detachDying hphase => exact ha.elim
  | destroyDev hphase hdone => exact ha.elim
  | freeDma hphase => exact ha.elim
  | capioDestroy hphase => exact ha.elim

theorem step_phase {a : Act Cap} (ha : InTurn s a) (hphase : s.phase = .attached)
    (hstep : step C (getBufferSize barSize) s a = some t) : t.phase = .attached := by
  rcases step_life hstep with hlife | ⟨phase, -, hdetach⟩
  · exact hlife.phase.trans hphase
  · rw [hdetach hphase] at ha
    exact ha.elim

/-- With no session open both halves of the token state are null. -/
theorem step_cleared {a : Act Cap}
    (h : s.session = none → s.sc.originalCap = C.null ∧ s.sc.sealedCap = C.null)
    (hstep : step C (getBufferSize barSize) s a = some t) :
    t.session = none → t.sc.originalCap = C.null ∧ t.sc.sealedCap = C.null := by
  intro hnone
  rcases step_token hstep with hsame | ⟨u, -, -, -, -, -, -, hsession⟩ |
    ⟨-, horiginal, hsealed, -, -⟩
  · rw [hsame.originalCap, hsame.sealedCap]
    exact h (hsame.session ▸ hnone)
  · rw [hsession] at hnone
    cases hnone
  · exact ⟨horiginal, hsealed⟩

theorem RestartInv.step (hC : Lawful C) {a : Act Cap} (h : RestartInv C barSize s)
    (ha : InTurn s a) (hstep : step C (getBufferSize barSize) s a = some t) :
    RestartInv C barSize t := by
  have hregs := step_regs ha hstep
  exact ⟨h.token.step hC hstep, step_cleared h.cleared hstep, h.flags.step hstep,
    hregs.mapped h.flags h.mapped, hregs.table h.table, hregs.offsets h.offsets,
    step_phase ha h.phase hstep⟩

/-- The client's session is open, and objects are numbered below `nextId`. -/
structure Mappable (C : Ops Cap) (capToken : Cap) (s : Sys Cap) : Prop where
  phase : s.phase = .attached
  session : ∃ k, s.session = some k
  token : checkCapToken C s.sc capToken = none
  flags : FlagsExact (VmMapType.all.map VmMapType.toInt) s
  ids : ∀ o ∈ s.objects, o.id < s.nextId

/-- One mmap from the call to the return: the request it makes, its locked sections and modmap's
insertion. -/
def mapRegion (barSize : ℕ) (s : Sys Cap) (capToken userCap : Cap) (proc : ℕ)
    (type : VmMapType) (vaddr : ℕ) : List (Act Cap) :=
  let r := s.reqs.length
  [.mmap proc ⟨capToken, userCap, type.toInt, getBufferSize barSize type.toInt, 0, false⟩,
    .mmapValidate r, .mmapScan r, .mmapAlloc r false, .mmapLate r, .mapInsert s.nextId proc vaddr]

theorem Obj.own_of_ne {id : ℕ} {o : Obj} (h : o.id < id) : Obj.own id o = o := by
  simp [Obj.own, Nat.ne_of_lt h]

theorem Obj.mapAt_of_ne {id proc vaddr : ℕ} {o : Obj} (h : o.id < id) :
    Obj.mapAt id proc vaddr o = o := by
  simp [Obj.mapAt, Nat.ne_of_lt h]

theorem Mappable.mapRegion {capToken u : Cap} (h : Mappable C capToken s) (hu : C.tag u = true)
    (barSize proc vaddr : ℕ) {type : VmMapType} (hfree : type.toInt ∉ s.objects.map Obj.type) :
    ∃ t, run (step C (getBufferSize barSize)) s
        (mapRegion barSize s capToken u proc type vaddr) = some t ∧
      Along (step C (getBufferSize barSize)) InTurn s
        (mapRegion barSize s capToken u proc type vaddr) ∧
      Mappable C capToken t ∧
      t.objects = ⟨s.nextId, type.toInt, true, some (proc, vaddr)⟩ :: s.objects := by
  obtain ⟨k, hk⟩ := h.session
  have hscan := h.flags.mmapScan_iff.mpr hfree
  have hopen : s.session.isSome = true := by rw [hk, Option.isSome_some]
  -- the states the request takes the system through
  let r := s.reqs.length
  let req : MapReq Cap := ⟨capToken, u, type.toInt, getBufferSize barSize type.toInt, 0, false⟩
  let s₁ := s.addReq (.mmapChecked k proc req)
  let s₂ := s₁.setReq r (.mmapValidated k proc req)
  let s₃ := s₂.setReq r (.mmapScanned k proc req)
  let o : Obj := ⟨s.nextId, type.toInt, false, none⟩
  let s₄ := { s₃.act .mmap k with
    sc := pagerCtor s.sc type.toInt
    objects := o :: s.objects
    nextId := s.nextId + 1 }.setReq r (.mmapAllocated proc s.nextId req)
  let s₅ := { s₄ with objects := s₄.objects.map (Obj.own s.nextId) }.setReq r .done
  have hr₁ : s₁.reqs[r]? = some (.mmapChecked k proc req) := List.getElem?_concat_length
  have hr₂ : s₂.reqs[r]? = _ := (Moved.setReq s₁ r _).get hr₁
  have hr₃ : s₃.reqs[r]? = _ := (Moved.setReq s₂ r _).get hr₂
  have hr₄ : s₄.reqs[r]? = _ := (Moved.setReq s₃ r (.mmapAllocated proc s.nextId req)).get hr₃
  have hmmap : Capio.step C (getBufferSize barSize) s (.mmap proc req) = some s₁ := by
    simp [Capio.step, Sys.authorise, h.phase, Phase.hasCdev, req, h.token, hk, s₁]
  have hvalidate : Capio.step C (getBufferSize barSize) s₁ (.mmapValidate r) = some s₂ := by
    have hattached : s₁.phase = .attached := h.phase
    simp [Capio.step, hr₁, hattached, Phase.isDying, Capio.mmapValidate, req, hu, s₂]
  have hscanned : Capio.step C (getBufferSize barSize) s₂ (.mmapScan r) = some s₃ := by
    have hfound : Capio.mmapScan s₂.sc req.mapType = none := hscan
    simp [Capio.step, hr₂, hfound, s₃]
  have halloc : Capio.step C (getBufferSize barSize) s₃ (.mmapAlloc r false) = some s₄ := by
    simp only [Capio.step, hr₃]
    rfl
  have hlate : Capio.step C (getBufferSize barSize) s₄ (.mmapLate r) = some s₅ := by
    have hattached : s₄.phase = .attached := h.phase
    simp [Capio.step, hr₄, hattached, Phase.isDying, s₅]
  -- the new object is the one modmap inserts, and the others stay as they are
  have hobj₅ : s₅.objects = ⟨s.nextId, type.toInt, true, none⟩ :: s.objects := by
    have hown : s.objects.map (Obj.own s.nextId) = s.objects :=
      (List.map_congr_left fun o ho => Obj.own_of_ne (h.ids o ho)).trans (List.map_id _)
    simp [s₅, s₄, Sys.setReq, o, Obj.own, hown]
  have hmapAt : s₅.objects.map (Obj.mapAt s.nextId proc vaddr) =
      ⟨s.nextId, type.toInt, true, some (proc, vaddr)⟩ :: s.objects := by
    have hothers : s.objects.map (Obj.mapAt s.nextId proc vaddr) = s.objects :=
      (List.map_congr_left fun o ho => Obj.mapAt_of_ne (h.ids o ho)).trans (List.map_id _)
    simp [hobj₅, Obj.mapAt, hothers]
  have hinsert : Capio.step C (getBufferSize barSize) s₅ (.mapInsert s.nextId proc vaddr) =
      some { s₅ with
        sc := vaddrCallback s₅.sc type.toInt vaddr (getBufferSize barSize type.toInt)
        objects := s₅.objects.map (Obj.mapAt s.nextId proc vaddr) } := by
    simp [Capio.step, hobj₅]
  have hrun : run (Capio.step C (getBufferSize barSize)) s
      (Capio.mapRegion barSize s capToken u proc type vaddr) = some { s₅ with
        sc := vaddrCallback s₅.sc type.toInt vaddr (getBufferSize barSize type.toInt)
        objects := s₅.objects.map (Obj.mapAt s.nextId proc vaddr) } :=
    run_cons.mpr ⟨_, hmmap, run_cons.mpr ⟨_, hvalidate, run_cons.mpr ⟨_, hscanned,
      run_cons.mpr ⟨_, halloc, run_cons.mpr ⟨_, hlate, run_cons.mpr ⟨_, hinsert, rfl⟩⟩⟩⟩⟩⟩
  refine ⟨_, hrun, ?_, ⟨h.phase, ⟨k, hk⟩, h.token, ?_, ?_⟩, hmapAt⟩
  · exact .cons hopen hmmap (.cons hopen hvalidate (.cons hopen hscanned
      (.cons hopen halloc (.cons hopen hlate (.cons hopen hinsert trivial)))))
  · have hknown : type.toInt ∈ VmMapType.all.map VmMapType.toInt :=
      List.mem_map_of_mem (by cases type <;> decide)
    have halloc : FlagsExact _ s₄ := h.flags.alloc (o := o) hknown rfl rfl
    refine halloc.congr (flags_vaddrCallback _ _ _ _) ?_
    rw [hmapAt]
    rfl
  · intro o ho
    rw [hmapAt] at ho
    rcases List.mem_cons.mp ho with rfl | ho
    · exact Nat.lt_succ_self _
    · exact Nat.lt_succ_of_lt (h.ids o ho)

/-- Distinct regions that nobody has mapped can be mapped one after another, in any order. -/
theorem Mappable.mapAll {capToken u : Cap} (hu : C.tag u = true) (barSize proc : ℕ)
    (maps : List (VmMapType × ℕ)) {s : Sys Cap} (h : Mappable C capToken s)
    (hdistinct : (maps.map Prod.fst).Nodup)
    (hfree : ∀ m ∈ maps, m.1.toInt ∉ s.objects.map Obj.type) :
    ∃ acts t, run (step C (getBufferSize barSize)) s acts = some t ∧
      Along (step C (getBufferSize barSize)) InTurn s acts ∧
      t.objects.map (fun o => (o.type, o.place)) =
        (maps.map fun m => (m.1.toInt, some (proc, m.2))).reverse ++
          s.objects.map fun o => (o.type, o.place) := by
  induction maps generalizing s with
  | nil => exact ⟨[], s, rfl, trivial, rfl⟩
  | cons m maps ih =>
    obtain ⟨hnot, hrest⟩ := List.nodup_cons.mp hdistinct
    obtain ⟨hm, hms⟩ := List.forall_mem_cons.mp hfree
    obtain ⟨v, hv, hvturn, hvmap, hvobj⟩ := h.mapRegion hu barSize proc m.2 hm
    have hfreev : ∀ m' ∈ maps, m'.1.toInt ∉ v.objects.map Obj.type := by
      intro m' hm'
      rw [hvobj, List.map_cons, List.mem_cons, not_or]
      refine ⟨fun heq => hnot ?_, hms m' hm'⟩
      rw [← toInt_injective heq]
      exact List.mem_map_of_mem hm'
    obtain ⟨acts, t, ht, hturn, hobj⟩ := ih hvmap hrest hfreev
    refine ⟨_, t, run_append hv ht, hvturn.append hv hturn, ?_⟩
    rw [hobj, hvobj]
    simp

/-- A non-null capability opens a session when the token state is clear. -/
theorem step_attach_of_clear (barSize : ℕ) (hphase : s.phase = .attached)
    (hclear : C.isNull s.sc.sealedCap = true) {u : Cap} (hu : C.isNull u = false) :
    step C (getBufferSize barSize) s (.attach u) = some { s with
      sc := { s.sc with originalCap := u, sealedCap := C.sealCap u }
      granted := s.granted ++ [(u, C.sealCap u)]
      session := some s.granted.length } := by
  simp [Capio.step, hphase, Phase.hasCdev, setCapToken, hu, hclear]

end

/-- What the next session finds: the state after attach, an attach that succeeds, and regions
that can all be mapped again, any of them and in any order. -/
structure Restartable {Cap : Type*} [DecidableEq Cap] (C : Ops Cap) (barSize : ℕ)
    (s : Sys Cap) : Prop where
  token : s.sc.originalCap = C.null ∧ s.sc.sealedCap = C.null
  table : s.sc.sharedMemRegs.map Region.type = VmMapType.all.map VmMapType.toInt
  regions : ∀ smem ∈ s.sc.sharedMemRegs,
    smem.offset = 0 ∧ smem.mapped = false ∧ smem.len = getBufferSize barSize smem.type
  attach : ∀ u, C.isNull u = false → ∃ t,
    step C (getBufferSize barSize) s (.attach u) = some t ∧
    t.session = some s.granted.length ∧ t.granted = s.granted ++ [(u, C.sealCap u)]
  remap : ∀ u proc (maps : List (VmMapType × ℕ)), C.isNull u = false → C.tag u = true →
    C.isSealed u = false → (maps.map Prod.fst).Nodup → ∃ acts t,
      run (step C (getBufferSize barSize)) s (.attach u :: acts) = some t ∧
      Along (step C (getBufferSize barSize)) InTurn s (.attach u :: acts) ∧
      t.objects.map (fun o => (o.type, o.place)) =
        (maps.map fun m => (m.1.toInt, some (proc, m.2))).reverse

theorem RestartInv.restartable {Cap : Type*} [DecidableEq Cap] {C : Ops Cap} (hC : Lawful C)
    {barSize : ℕ} {s : Sys Cap} (h : RestartInv C barSize s) (hover : Over s) :
    Restartable C barSize s := by
  have hsc := h.over hover
  have hclear : C.isNull s.sc.sealedCap = true := h.token.closed hover.session
  have htypes : (Capio.flags s.sc.sharedMemRegs).map Prod.fst =
      VmMapType.all.map VmMapType.toInt := by
    rw [hsc]
    rfl
  refine ⟨h.cleared hover.session, ?_, ?_, fun u hu => ?_, fun u proc maps hu htag hsealed hd => ?_⟩
  · simpa [Capio.flags, Function.comp_def] using htypes
  · rw [hsc]
    simp only [start, smem, List.map_map, List.mem_map, Function.comp_apply]
    rintro smem ⟨t, -, rfl⟩
    exact ⟨rfl, rfl, smemLen_eq barSize t⟩
  · exact ⟨_, step_attach_of_clear barSize h.phase hclear hu, rfl, rfl⟩
  · have hattach := step_attach_of_clear barSize h.phase hclear hu
    have hmap : Mappable C (C.sealCap u) { s with
        sc := { s.sc with originalCap := u, sealedCap := C.sealCap u }
        granted := s.granted ++ [(u, C.sealCap u)]
        session := some s.granted.length } := by
      refine ⟨h.phase, ⟨_, rfl⟩, ?_, ⟨?_, fun ty v hty => ?_, ?_⟩, ?_⟩
      · simp [checkCapToken, hC.isNull_sealCap, hu, hC.unsealCap_sealCap u htag hsealed]
      · exact htypes
      · -- no object is left, so no flag is set
        rw [hover.objects]
        refine iff_of_false (fun hv => ?_) (List.not_mem_nil)
        obtain ⟨o, ho, -⟩ := h.flags ty (hv ▸ hty)
        rw [hover.objects] at ho
        cases ho
      · simp [hover.objects]
      · simp [hover.objects]
    obtain ⟨acts, t, hrun, hturn, hobj⟩ := hmap.mapAll htag barSize proc maps hd
      (by simp [hover.objects])
    refine ⟨acts, t, run_cons.mpr ⟨_, hattach, hrun⟩, ⟨⟨hover.objects, hover.reqs⟩, ?_⟩, ?_⟩
    · intro v hv
      obtain rfl := Option.some.inj (hattach.symm.trans hv)
      exact hturn
    · simpa [hover.objects] using hobj

/-- Sessions one after another: the sizes reported never change, and whenever a session is over
the CAPIO state is the one after attach, so the next session can do all the first one could. -/
theorem sessions_restartable {Cap : Type*} [DecidableEq Cap] {C : Ops Cap} (hC : Lawful C)
    {barSize : ℕ} {acts : List (Act Cap)} {s : Sys Cap}
    (hturn : Along (step C (getBufferSize barSize)) InTurn (start C (smem barSize)) acts)
    (hrun : run (step C (getBufferSize barSize)) (start C (smem barSize)) acts = some s) :
    (∀ type, sliceLengthCallback s.sc type =
        sliceLengthCallback (start C (smem barSize)).sc type) ∧
      (Over s → s.sc = (start C (smem barSize)).sc ∧ Restartable C barSize s) := by
  have hinv : RestartInv C barSize s :=
    run_invariant_along (fun _ _ _ h ha hstep => h.step hC ha hstep) (restartInv_start hC barSize)
      hturn hrun
  have htable := hinv.table.trans (restartInv_start hC barSize).table.symm
  exact ⟨sliceLengthCallback_of_layout htable, fun hover => ⟨hinv.over hover,
    hinv.restartable hC hover⟩⟩

/-- Two sessions on one open device: the first unmaps both its regions and says goodbye, the
second is closed first and unmaps what revocation, run by another process, left. -/
def twoSessions : List (Act MorelloCap) :=
  [.attach (userCapAt 0x1000), .mmap 1 txMapReq, .mmapValidate 0, .mmapScan 0, .mmapAlloc 0 false,
    .mmapLate 0, .mapInsert 0 1 0x5000, .munmap 0, .goodbye 1 (tokenAt 0x1000), .goodbyeClear 1,
    .revokeRead 1, .revokeRemove 1 false, .revokeClear 1, .revokeRead 1, .revokeRead 1,
    .revokeRead 1, .revokeRead 1, .revokeRead 1, .revokeRead 1,
    .attach (userCapAt 0x1000), .mmap 1 txMapReq, .mmapValidate 2, .mmapScan 2,
    .mmapAlloc 2 false, .mmapLate 2, .mapInsert 1 1 0x7000, .close 2,
    .revokeRead 3, .revokeRemove 3 false, .revokeClear 3, .revokeRead 3, .revokeRead 3,
    .revokeRead 3, .revokeRead 3, .revokeRead 3, .revokeRead 3, .munmap 1]

theorem sessions_restartable_twice :
    ∃ s, run (step (morello 0x1234) (getBufferSize 4096)) (start (morello 0x1234) (smem 4096))
        twoSessions = some s ∧
      s.granted.length = 2 ∧ s.sc = (start (morello 0x1234) (smem 4096)).sc ∧
      Restartable (morello 0x1234) 4096 s := by
  have hend : (run (step (morello 0x1234) (getBufferSize 4096))
      (start (morello 0x1234) (smem 4096)) twoSessions).map
        (fun s => (s.granted.length, s.session, s.objects, s.reqs.all Pc.isDone)) =
      some (2, none, [], true) := by decide +kernel
  obtain ⟨s, hs, hfacts⟩ := Option.map_eq_some_iff.mp hend
  simp only [Prod.mk.injEq] at hfacts
  obtain ⟨hgranted, hsession, hobjects, hreqs⟩ := hfacts
  obtain ⟨hsc, hrestart⟩ := (sessions_restartable (morello_lawful 0x1234) (by decide +kernel)
    hs).2 ⟨hsession, hobjects, hreqs⟩
  exact ⟨s, hs, hgranted, hsc, hrestart⟩

end Sfc7120.Capio

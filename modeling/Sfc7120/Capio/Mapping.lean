import Mathlib.Data.List.Nodup
import Sfc7120.Capio.Regions
import Sfc7120.Capio.Lifetime

/-! One mapping per region. The scan that refuses a second mapping and the constructor that
records the first are separate critical sections of `capio_mmap_single_extra`, so what the scan
saw can be out of date when the constructor runs. -/
namespace Sfc7120.Capio

open Sealing Machine

section
variable {Cap : Type*}

/-- No region has two pager objects, and the flags say exactly which have one. -/
structure OneMapping (s : Sys Cap) : Prop where
  once : (s.objects.map Obj.type).Nodup
  flag : ∀ smem ∈ s.sc.sharedMemRegs,
    smem.mapped = true ↔ smem.type ∈ s.objects.map Obj.type
  mapped : s.sc.mapped = true ↔
    ∃ smem ∈ s.sc.sharedMemRegs, smem.type ∈ s.objects.map Obj.type

/-- The region an mmap request is about to scan for. -/
def Pc.scanning : Pc Cap → Option ℤ
  | .mmapValidated _ _ req => some req.mapType
  | _ => none

/-- The region an mmap request found free and has no pager object for yet. -/
def Pc.scanned : Pc Cap → Option ℤ
  | .mmapScanned _ _ req => some req.mapType
  | _ => none

def Sys.scanningAt (s : Sys Cap) (r : ℕ) : Option ℤ := s.reqs[r]?.bind Pc.scanning

def Sys.scannedAt (s : Sys Cap) (r : ℕ) : Option ℤ := s.reqs[r]?.bind Pc.scanned

/-- No scan finds a region free while another request that found it free has yet to make its
pager object. -/
def ScansAlone (s : Sys Cap) : Act Cap → Prop
  | .mmapScan r => ∀ ty ∈ s.scanningAt r, Capio.mmapScan s.sc ty = none →
      ∀ j < s.reqs.length, s.scannedAt j ≠ some ty
  | _ => True

instance ScansAlone.decidable (s : Sys Cap) : (a : Act Cap) → Decidable (ScansAlone s a)
  | .mmapScan r => inferInstanceAs (Decidable (∀ ty ∈ s.scanningAt r,
      Capio.mmapScan s.sc ty = none → ∀ j < s.reqs.length, s.scannedAt j ≠ some ty))
  | .attach .. | .goodbye .. | .goodbyeClear .. | .close .. | .revokeRead .. | .revokeRemove ..
  | .revokeClear .. | .ioctl .. | .ioctlRun .. | .mmap .. | .mmapValidate ..
  | .mmapAlloc .. | .mmapLate .. | .mapInsert .. | .munmap .. | .detachDying | .destroyDev
  | .freeDma | .capioDestroy => inferInstanceAs (Decidable True)

/-- The request asks for at least one byte: `kern_mmap` lets no other through. -/
def Act.sized : Act Cap → Bool
  | .mmap _ req => decide (0 < req.size)
  | _ => true

/-- What the checks a request has passed say about it. -/
def Pc.Checked (types : List ℤ) : Pc Cap → Prop
  | .mmapChecked _ _ req => 0 < req.size
  | .mmapValidated _ _ req => req.mapType ∈ types
  | .mmapScanned _ _ req => req.mapType ∈ types
  | _ => True

/-- The table has the regions `types`, each flag says whether its region has a pager object, and
objects are of these regions only. -/
structure FlagsExact (types : List ℤ) (s : Sys Cap) : Prop where
  table : (flags s.sc.sharedMemRegs).map Prod.fst = types
  flag : ∀ ty v, (ty, v) ∈ flags s.sc.sharedMemRegs → (v = true ↔ ty ∈ s.objects.map Obj.type)
  known : ∀ ty ∈ s.objects.map Obj.type, ty ∈ types

structure MapInv (types : List ℤ) (s : Sys Cap) : Prop extends FlagsExact types s where
  mapped : s.sc.mapped = true ↔ s.objects ≠ []
  once : (s.objects.map Obj.type).Nodup
  checked : ∀ p ∈ s.reqs, p.Checked types
  /-- Two requests never both hold one region for free. -/
  scannedOnce : ∀ i j ty, s.scannedAt i = some ty → s.scannedAt j = some ty → i = j
  scannedFree : ∀ p ∈ s.reqs, ∀ ty, p.scanned = some ty → ty ∉ s.objects.map Obj.type

theorem mapInv_start (C : Ops Cap) (regs : List Region) :
    MapInv (regs.map Region.type) (start C regs) where
  table := by simp [start, flags, Function.comp_def]
  flag ty v h := by
    simp only [start, flags, List.map_map, List.mem_map, Function.comp_apply, Prod.mk.injEq] at h
    obtain ⟨smem, -, -, rfl⟩ := h
    simp [start]
  mapped := by simp [start]
  known := by simp [start]
  once := by simp [start]
  checked := by simp [start]
  scannedOnce i j ty hi := by simp [start, Sys.scannedAt] at hi
  scannedFree := by simp [start]

theorem MapInv.oneMapping {types : List ℤ} {s : Sys Cap} (h : MapInv types s) : OneMapping s where
  once := h.once
  flag smem hsmem := h.flag smem.type smem.mapped (List.mem_map.mpr ⟨smem, hsmem, rfl⟩)
  mapped := by
    rw [h.mapped]
    constructor
    · intro hne
      obtain ⟨o, rest, hobj⟩ := List.exists_cons_of_ne_nil hne
      have ho : o.type ∈ s.objects.map Obj.type := List.mem_map.mpr ⟨o, by simp [hobj], rfl⟩
      have htype := h.known _ ho
      rw [← h.table, flags, List.map_map] at htype
      obtain ⟨smem, hsmem, heq⟩ := List.mem_map.mp htype
      exact ⟨smem, hsmem, (show smem.type = o.type from heq) ▸ ho⟩
    · rintro ⟨smem, -, hty⟩ hnil
      rw [hnil] at hty
      cases hty

section
variable {types : List ℤ} {s t : Sys Cap}

theorem FlagsExact.congr (h : FlagsExact types s)
    (hflags : flags t.sc.sharedMemRegs = flags s.sc.sharedMemRegs)
    (hobj : t.objects.map Obj.type = s.objects.map Obj.type) : FlagsExact types t := by
  refine ⟨hflags ▸ h.table, ?_, hobj ▸ h.known⟩
  rw [hflags, hobj]
  exact h.flag

theorem flags_setMapped_fst (regs : List Region) (type : ℤ) (v : Bool) :
    (flags (regs.map (Region.setMapped type v))).map Prod.fst = (flags regs).map Prod.fst := by
  simp only [flags, List.map_map]
  apply List.map_congr_left
  intro smem _
  simp only [Function.comp_apply, Region.setMapped]
  split <;> rfl

theorem FlagsExact.alloc (h : FlagsExact types s) {o : Obj} (hknown : o.type ∈ types)
    (hsc : t.sc = pagerCtor s.sc o.type) (hobj : t.objects = o :: s.objects) :
    FlagsExact types t := by
  constructor
  case table =>
    rw [hsc, pagerCtor, flags_setMapped_fst]
    exact h.table
  case flag =>
    intro ty v hmem
    rw [hsc] at hmem
    rw [hobj, List.map_cons, List.mem_cons]
    rcases mem_flags_setMapped hmem with ⟨rfl, rfl⟩ | ⟨hne, hmem⟩
    · simp
    · rw [h.flag ty v hmem]
      simp [hne]
  case known =>
    rw [hobj]
    intro ty hty
    rcases List.mem_cons.mp hty with rfl | hty
    · exact hknown
    · exact h.known ty hty

/-- The scan finds a region free exactly when it has no pager object. -/
theorem FlagsExact.mmapScan_iff (h : FlagsExact types s) {ty : ℤ} :
    Capio.mmapScan s.sc ty = none ↔ ty ∉ s.objects.map Obj.type := by
  unfold Capio.mmapScan
  split
  next smem hfind =>
    have htype : smem.type = ty := by simpa using List.find?_some hfind
    have hmem : (ty, smem.mapped) ∈ flags s.sc.sharedMemRegs :=
      List.mem_map.mpr ⟨smem, List.mem_of_find?_eq_some hfind, by rw [htype]⟩
    rw [← h.flag ty _ hmem]
    cases smem.mapped <;> simp
  next hfind =>
    refine iff_of_true rfl fun hin => ?_
    have hty := h.known ty hin
    rw [← h.table, flags, List.map_map] at hty
    obtain ⟨smem, hsmem, heq⟩ := List.mem_map.mp hty
    exact List.find?_eq_none.mp hfind smem hsmem (decide_eq_true heq)

/-- Only the flags, the objects' regions and the requests matter. -/
theorem MapInv.congr (h : MapInv types s)
    (hflags : flags t.sc.sharedMemRegs = flags s.sc.sharedMemRegs)
    (hmapped : t.sc.mapped = s.sc.mapped)
    (hobj : t.objects.map Obj.type = s.objects.map Obj.type) (hreqs : t.reqs = s.reqs) :
    MapInv types t := by
  have hnil : t.objects = [] ↔ s.objects = [] := by
    rw [← List.map_eq_nil_iff (f := Obj.type), hobj, List.map_eq_nil_iff]
  refine ⟨h.toFlagsExact.congr hflags hobj, ?_, hobj ▸ h.once, hreqs ▸ h.checked, ?_, ?_⟩
  · rw [hmapped, h.mapped, Ne, Ne, hnil]
  · unfold Sys.scannedAt
    rw [hreqs]
    exact h.scannedOnce
  · rw [hreqs, hobj]
    exact h.scannedFree

theorem scannedAt_set (s : Sys Cap) {r : ℕ} {p : Pc Cap} (j : ℕ) {ty : ℤ}
    (h : (s.setReq r p).scannedAt j = some ty) :
    (j = r ∧ p.scanned = some ty) ∨ (j ≠ r ∧ s.scannedAt j = some ty) := by
  simp only [Sys.scannedAt, Sys.setReq, List.getElem?_set] at h
  split_ifs at h with heq hlt
  · exact .inl ⟨heq.symm, h⟩
  · cases h
  · exact .inr ⟨Ne.symm heq, h⟩

/-- A request moves on to a place at which it holds no region for free. -/
theorem MapInv.setReq (h : MapInv types s) {r : ℕ} {p : Pc Cap} (hp : p.Checked types)
    (hscan : p.scanned = none) : MapInv types (s.setReq r p) := by
  refine ⟨h.toFlagsExact.congr rfl rfl, h.mapped, h.once, fun q hq => ?_, fun i j ty hi hj => ?_,
    fun q hq ty hty => ?_⟩
  · rcases List.mem_or_eq_of_mem_set hq with hq | rfl
    · exact h.checked q hq
    · exact hp
  · rcases scannedAt_set s i hi with ⟨-, hi⟩ | ⟨-, hi⟩
    · simp [hscan] at hi
    · rcases scannedAt_set s j hj with ⟨-, hj⟩ | ⟨-, hj⟩
      · simp [hscan] at hj
      · exact h.scannedOnce i j ty hi hj
  · rcases List.mem_or_eq_of_mem_set hq with hq | rfl
    · exact h.scannedFree q hq ty hty
    · simp [hscan] at hty

theorem MapInv.addReq (h : MapInv types s) {p : Pc Cap} (hp : p.Checked types)
    (hscan : p.scanned = none) : MapInv types (s.addReq p) := by
  have hat : ∀ j ty, (s.addReq p).scannedAt j = some ty → s.scannedAt j = some ty := by
    intro j ty hj
    simp only [Sys.scannedAt, Sys.addReq, List.getElem?_append] at hj
    split_ifs at hj with hlt
    · exact hj
    · obtain ⟨q, hq, hty⟩ := Option.bind_eq_some_iff.mp hj
      obtain rfl : q = p := by simpa using List.mem_of_getElem? hq
      rw [hscan] at hty
      cases hty
  refine ⟨h.toFlagsExact.congr rfl rfl, h.mapped, h.once, fun q hq => ?_,
    fun i j ty hi hj => h.scannedOnce i j ty (hat i ty hi) (hat j ty hj), fun q hq ty hty => ?_⟩
  · rcases List.mem_append.mp hq with hq | hq
    · exact h.checked q hq
    · exact List.mem_singleton.mp hq ▸ hp
  · rcases List.mem_append.mp hq with hq | hq
    · exact h.scannedFree q hq ty hty
    · rw [List.mem_singleton.mp hq, hscan] at hty
      cases hty

/-- A scan that finds the region free while nobody else holds it. -/
theorem MapInv.scan (h : MapInv types s) {r : ℕ} {p : Pc Cap} {ty : ℤ} (hp : p.Checked types)
    (hscan : p.scanned = some ty) (hfree : ty ∉ s.objects.map Obj.type)
    (halone : ∀ j < s.reqs.length, s.scannedAt j ≠ some ty) : MapInv types (s.setReq r p) := by
  have hnone : ∀ j, s.scannedAt j ≠ some ty := by
    intro j hj
    refine halone j ?_ hj
    obtain ⟨q, hq, -⟩ := Option.bind_eq_some_iff.mp hj
    exact (List.getElem?_eq_some_iff.mp hq).1
  refine ⟨h.toFlagsExact.congr rfl rfl, h.mapped, h.once, fun q hq => ?_, fun i j ty' hi hj => ?_,
    fun q hq ty' hty => ?_⟩
  · rcases List.mem_or_eq_of_mem_set hq with hq | rfl
    · exact h.checked q hq
    · exact hp
  · rcases scannedAt_set s i hi with ⟨hir, hpi⟩ | ⟨-, hsi⟩ <;>
      rcases scannedAt_set s j hj with ⟨hjr, hpj⟩ | ⟨-, hsj⟩
    · exact hir.trans hjr.symm
    · exact absurd (hsj.trans (hpi.symm.trans hscan)) (hnone j)
    · exact absurd (hsi.trans (hpj.symm.trans hscan)) (hnone i)
    · exact h.scannedOnce i j ty' hsi hsj
  · rcases List.mem_or_eq_of_mem_set hq with hq | rfl
    · exact h.scannedFree q hq ty' hty
    · rw [hscan] at hty
      exact Option.some.inj hty ▸ hfree

/-- A pager object is made for a region nobody has or holds. -/
theorem MapInv.alloc (h : MapInv types s) {o : Obj} (hknown : o.type ∈ types)
    (hfree : o.type ∉ s.objects.map Obj.type)
    (hnone : ∀ p ∈ s.reqs, p.scanned ≠ some o.type) (hsc : t.sc = pagerCtor s.sc o.type)
    (hobj : t.objects = o :: s.objects) (hreqs : t.reqs = s.reqs) : MapInv types t := by
  refine ⟨h.toFlagsExact.alloc hknown hsc hobj, ?_, ?_, hreqs ▸ h.checked, ?_, ?_⟩
  · simp [hsc, pagerCtor, hobj]
  · rw [hobj]
    exact List.nodup_cons.mpr ⟨hfree, h.once⟩
  · unfold Sys.scannedAt
    rw [hreqs]
    exact h.scannedOnce
  · intro p hp ty hty
    rw [hreqs] at hp
    rw [hobj, List.map_cons, List.mem_cons, not_or]
    refine ⟨?_, h.scannedFree p hp ty hty⟩
    rintro rfl
    exact hnone p hp hty

/-- The destructor of a live object: its region is free again, every other is as before. -/
theorem MapInv.destroyObj (h : MapInv types s) {o : Obj} (ho : o ∈ s.objects) :
    MapInv types (s.destroyObj o) := by
  have hsub : ((s.objects.erase o).map Obj.type).Sublist (s.objects.map Obj.type) :=
    List.erase_sublist.map _
  have hgone : o.type ∉ (s.objects.erase o).map Obj.type := by
    have hperm := (List.perm_cons_erase ho).map Obj.type
    have hnd := hperm.nodup_iff.mp h.once
    exact (List.nodup_cons.mp hnd).1
  have hkeep : ∀ ty, ty ≠ o.type →
      (ty ∈ (s.objects.erase o).map Obj.type ↔ ty ∈ s.objects.map Obj.type) := by
    intro ty hne
    have hperm := (List.perm_cons_erase ho).map Obj.type
    rw [hperm.mem_iff, List.map_cons, List.mem_cons]
    simp [hne]
  have hflag : ∀ ty v, (ty, v) ∈ flags (s.sc.sharedMemRegs.map (Region.setMapped o.type false)) →
      (v = true ↔ ty ∈ (s.objects.erase o).map Obj.type) := by
    intro ty v hmem
    rcases mem_flags_setMapped hmem with ⟨rfl, rfl⟩ | ⟨hne, hmem⟩
    · simpa using hgone
    · rw [hkeep ty hne]
      exact h.flag ty v hmem
  have htable : (flags (s.sc.sharedMemRegs.map (Region.setMapped o.type false))).map Prod.fst =
      types := (flags_setMapped_fst _ _ _).trans h.table
  refine ⟨⟨htable, hflag, fun ty hty => h.known ty (hsub.subset hty)⟩, ?_, h.once.sublist hsub,
    h.checked, h.scannedOnce, fun p hp ty hty hmem => h.scannedFree p hp ty hty (hsub.subset hmem)⟩
  simp only [Sys.destroyObj, pagerDtor]
  split_ifs with hany
  · -- some flag is still set: its region has an object, so the device was and stays mapped
    obtain ⟨smem, hsmem, hmapped⟩ := List.any_eq_true.mp hany
    have hty := (hflag smem.type smem.mapped (List.mem_map.mpr ⟨smem, hsmem, rfl⟩)).mp hmapped
    obtain ⟨x, hx, -⟩ := List.mem_map.mp hty
    exact iff_of_true (h.mapped.mpr (List.ne_nil_of_mem ho)) (List.ne_nil_of_mem hx)
  · -- no flag is set, and every object's region is in the table
    refine iff_of_false (by simp) fun hne => hany ?_
    obtain ⟨x, rest, hx⟩ := List.exists_cons_of_ne_nil hne
    have hxt : x.type ∈ (s.objects.erase o).map Obj.type := List.mem_map.mpr ⟨x, by simp [hx], rfl⟩
    have hin := h.known _ (hsub.subset hxt)
    rw [← htable, flags, List.map_map] at hin
    obtain ⟨smem, hsmem, heq⟩ := List.mem_map.mp hin
    have htype : smem.type = x.type := heq
    refine List.any_eq_true.mpr ⟨smem, hsmem, ?_⟩
    exact (hflag smem.type smem.mapped (List.mem_map.mpr ⟨smem, hsmem, rfl⟩)).mpr (htype ▸ hxt)

theorem MapInv.foldl_destroyObj {os : List Obj} (h : MapInv types s) (hnodup : os.Nodup)
    (hos : ∀ o ∈ os, o ∈ s.objects) : MapInv types (os.foldl Sys.destroyObj s) := by
  induction os generalizing s with
  | nil => exact h
  | cons o os ih =>
    obtain ⟨hnot, hrest⟩ := List.nodup_cons.mp hnodup
    refine ih (h.destroyObj (hos o (List.mem_cons_self ..))) hrest fun x hx => ?_
    have hne : x ≠ o := by
      rintro rfl
      exact hnot hx
    exact (List.mem_erase_of_ne hne).mpr (hos x (List.mem_cons_of_mem _ hx))

end

end

section
variable {Cap : Type*} {C : Ops Cap} {getBufferSize : ℤ → ℕ} {types : List ℤ} {s t : Sys Cap}

theorem mmapValidate_none {dying : Bool} {req : MapReq Cap}
    (h : Capio.mmapValidate C getBufferSize dying req = none) :
    req.size = getBufferSize req.mapType := by
  unfold Capio.mmapValidate at h
  split_ifs at h with hcap hoff hdying htag hsize
  exact not_not.mp hsize

end

section
variable {Cap : Type*} [DecidableEq Cap] {C : Ops Cap} {getBufferSize : ℤ → ℕ} {types : List ℤ}
  {s t : Sys Cap}

theorem MapInv.step (hsizes : ∀ ty, 0 < getBufferSize ty → ty ∈ types) {a : Act Cap}
    (h : MapInv types s) (hsized : a.sized = true) (halone : ScansAlone s a)
    (hstep : step C getBufferSize s a = some t) : MapInv types t := by
  cases step_moves hstep with
  | refused hasks => exact h
  | attach hnull hclosed => exact h.congr rfl rfl rfl rfl
  | goodbye hcheck hsession => exact h.addReq trivial rfl
  | ioctl hcheck hsession => exact h.addReq trivial rfl
  | @mmap proc k req hcheck hsession =>
    have hpos : 0 < req.size := by simpa [Act.sized] using hsized
    exact h.addReq (p := .mmapChecked k proc req) hpos rfl
  | goodbyeClear hr =>
    exact (h.congr (t := (s.act .goodbye _).clear C) rfl rfl rfl rfl).setReq trivial rfl
  | close hcdev => exact (h.congr (t := s.clear C) rfl rfl rfl rfl).addReq trivial rfl
  | revokeRemove hr =>
    refine (h.foldl_destroyObj ((List.Nodup.of_map _ h.once).filter _) fun o ho => ?_).setReq
      trivial rfl
    exact (List.mem_filter.mp ho).1
  | @revokeClear r proc i hr =>
    have hcleared : MapInv types { s with sc := clearOffset s.sc i } :=
      h.congr (flags_clearOffset s.sc i) rfl rfl rfl
    exact hcleared.setReq trivial rfl
  | ioctlRun hr => exact (h.congr (t := s.act .ioctl _) rfl rfl rfl rfl).setReq trivial rfl
  | @mmapValidate r k proc req hr hvalid =>
    have hpos : 0 < req.size := h.checked _ (List.mem_of_getElem? hr)
    refine h.setReq (p := .mmapValidated k proc req) ?_ rfl
    exact hsizes _ (mmapValidate_none hvalid ▸ hpos)
  | @mmapScan r k proc req hr hscan =>
    have hty : req.mapType ∈ types := h.checked _ (List.mem_of_getElem? hr)
    have hat : s.scanningAt r = some req.mapType := by simp [Sys.scanningAt, hr, Pc.scanning]
    exact h.scan (p := .mmapScanned k proc req) hty rfl (h.mmapScan_iff.mp hscan)
      (halone _ hat hscan)
  | @mmapAlloc r k proc req hr =>
    have hmem := List.mem_of_getElem? hr
    have hat : s.scannedAt r = some req.mapType := by simp [Sys.scannedAt, hr, Pc.scanned]
    have hmoved := h.setReq (r := r) (p := .mmapAllocated proc s.nextId req) trivial rfl
    refine hmoved.alloc (o := ⟨s.nextId, req.mapType, false, none⟩) (h.checked _ hmem)
      (h.scannedFree _ hmem _ rfl) (fun p hp hty => ?_) rfl rfl rfl
    -- the only request that held the region is the one that moved on
    obtain ⟨j, hj⟩ := List.mem_iff_getElem?.mp hp
    have hjat : (s.setReq r (.mmapAllocated proc s.nextId req)).scannedAt j =
        some req.mapType := by
      rw [Sys.scannedAt, hj]
      exact hty
    rcases scannedAt_set s j hjat with ⟨-, hnone⟩ | ⟨hne, hold⟩
    · cases hnone
    · exact hne (h.scannedOnce j r _ hold hat)
  | @mmapLate r proc id req hr hdying =>
    refine (h.congr (t := { s with objects := s.objects.map (Obj.own id) }) rfl rfl ?_
      rfl).setReq trivial rfl
    simp [Function.comp_def, Obj.own_type]
  | mapInsert ho =>
    refine h.congr (flags_vaddrCallback _ _ _ _) rfl ?_ rfl
    simp [Function.comp_def, Obj.mapAt_type]
  | munmap ho => exact h.destroyObj (List.mem_of_find?_eq_some ho)
  | revokeDone | revokeRead | revokeSkip | removeFailed | mmapInvalid | mmapBusy | allocFailed
  | lateDying => exact h.setReq trivial rfl
  | detachDying | destroyDev | freeDma | capioDestroy => exact h.congr rfl rfl rfl rfl

/-- Two requests that both found a region free can both map it. -/
theorem reaches_two_mappings {r : ℕ} (hnot : ¬ ScansAlone s (.mmapScan r)) :
    ∃ bs t, run (Capio.step C getBufferSize) s (.mmapScan r :: bs) = some t ∧
      ¬ OneMapping t := by
  simp only [ScansAlone, Classical.not_forall, not_not] at hnot
  obtain ⟨ty, hr, hscan, j, -, hj⟩ := hnot
  obtain ⟨p, hpr, hp⟩ := Option.bind_eq_some_iff.mp hr
  obtain ⟨q, hqj, hq⟩ := Option.bind_eq_some_iff.mp hj
  obtain ⟨k, proc, req, rfl, rfl⟩ : ∃ k proc req, p = .mmapValidated k proc req ∧
      ty = req.mapType := by
    cases p <;> simp only [Pc.scanning, Option.some.injEq, reduceCtorEq] at hp
    exact ⟨_, _, _, rfl, hp.symm⟩
  obtain ⟨k', proc', req', rfl, htype⟩ : ∃ k' proc' req', q = .mmapScanned k' proc' req' ∧
      req'.mapType = req.mapType := by
    cases q <;> simp only [Pc.scanned, Option.some.injEq, reduceCtorEq] at hq
    exact ⟨_, _, _, rfl, hq⟩
  have hne : j ≠ r := by
    rintro rfl
    rw [hpr] at hqj
    cases hqj
  have hlt : r < s.reqs.length := (List.getElem?_eq_some_iff.mp hpr).1
  have hrun : ∃ t, run (Capio.step C getBufferSize) s
      [.mmapScan r, .mmapAlloc r false, .mmapAlloc j false] = some t ∧
      t.objects.map Obj.type = req'.mapType :: req.mapType :: s.objects.map Obj.type := by
    simp only [run, Capio.step, hpr, hscan, Sys.setReq, Sys.act, Option.bind_some,
      List.getElem?_set_self hlt, List.getElem?_set_ne hne.symm, hqj,
      Bool.false_eq_true, if_false]
    exact ⟨_, rfl, rfl⟩
  obtain ⟨t, hrun, htypes⟩ := hrun
  refine ⟨_, t, hrun, fun hone => ?_⟩
  have hnodup := hone.once
  simp [htypes, htype] at hnodup

end

/-- In every run in which no scan finds a region free while another mmap that found it free has
yet to allocate, each region has at most one live pager object and the flags are exact; and
where a scan does, both requests can go on to map the region. -/
theorem one_mapping_per_region {Cap : Type*} [DecidableEq Cap] {C : Ops Cap} {barSize : ℕ}
    {acts : List (Act Cap)} {s : Sys Cap} (hsized : ∀ a ∈ acts, a.sized = true)
    (hrun : run (step C (getBufferSize barSize)) (start C (smem barSize)) acts = some s) :
    (Along (step C (getBufferSize barSize)) ScansAlone (start C (smem barSize)) acts →
        OneMapping s) ∧
      ∀ r, ¬ ScansAlone s (.mmapScan r) → ∃ bs t,
        run (step C (getBufferSize barSize)) s (.mmapScan r :: bs) = some t ∧ ¬ OneMapping t := by
  refine ⟨fun halone => ?_, fun r hnot => reaches_two_mappings hnot⟩
  exact (run_invariant_along
    (fun _ _ _ h ha hstep => MapInv.step (fun _ => mem_types_of_getBufferSize) h ha.1 ha.2 hstep)
    (mapInv_start C (smem barSize)) (halone.and_mem hsized) hrun).oneMapping

/-- A map request for the TX buffer by the holder of a token. -/
def txMapReq : MapReq MorelloCap :=
  ⟨(morello 0x1234).sealCap ⟨true, 0, 0x1000⟩, ⟨true, 0, 0x1000⟩, VmMapType.txBuffer.toInt,
    numTxDesc * txBufferSize, 0, false⟩

/-- Two threads map the TX buffer; both scans run before either allocation. -/
def racingMmaps : List (Act MorelloCap) :=
  [.attach ⟨true, 0, 0x1000⟩, .mmap 1 txMapReq, .mmap 1 txMapReq, .mmapValidate 0,
    .mmapValidate 1, .mmapScan 0, .mmapScan 1, .mmapAlloc 0 false, .mmapAlloc 1 false]

theorem region_mapped_twice : ¬ ∀ (barSize : ℕ) (acts : List (Act MorelloCap))
    (s : Sys MorelloCap), (∀ a ∈ acts, a.sized = true) →
      run (step (morello 0x1234) (getBufferSize barSize)) (start (morello 0x1234) (smem barSize))
        acts = some s → OneMapping s := by
  intro hall
  have hend : (run (step (morello 0x1234) (getBufferSize 4096))
      (start (morello 0x1234) (smem 4096)) racingMmaps).map
        (fun s => s.objects.map Obj.type) = some [0, 0] := by decide +kernel
  obtain ⟨s, hs, htypes⟩ := Option.map_eq_some_iff.mp hend
  have hone := (hall 4096 racingMmaps s (by decide) hs).once
  rw [htypes] at hone
  exact absurd hone (by decide)

/-- The same two requests one after the other: the second is refused. -/
theorem one_mapping_per_region_in_turn :
    ∃ s, run (step (morello 0x1234) (getBufferSize 4096)) (start (morello 0x1234) (smem 4096))
        [.attach ⟨true, 0, 0x1000⟩, .mmap 1 txMapReq, .mmap 1 txMapReq, .mmapValidate 0,
          .mmapValidate 1, .mmapScan 0, .mmapAlloc 0 false, .mmapScan 1] = some s ∧
      s.objects.map Obj.type = [0] ∧ OneMapping s := by
  have hend : (run (step (morello 0x1234) (getBufferSize 4096))
      (start (morello 0x1234) (smem 4096))
      [.attach ⟨true, 0, 0x1000⟩, .mmap 1 txMapReq, .mmap 1 txMapReq, .mmapValidate 0,
        .mmapValidate 1, .mmapScan 0, .mmapAlloc 0 false, .mmapScan 1]).map
        (fun s => s.objects.map Obj.type) = some [0] := by decide +kernel
  obtain ⟨s, hs, htypes⟩ := Option.map_eq_some_iff.mp hend
  exact ⟨s, hs, htypes, (one_mapping_per_region (by decide) hs).1 (by decide +kernel)⟩

end Sfc7120.Capio

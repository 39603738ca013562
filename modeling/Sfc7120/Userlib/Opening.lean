import Sfc7120.Userlib.Invariant

/-! Every step of `sfc7120_init` keeps the invariant. The driver refuses it nothing, so a step that
gets what it asks the operating system for does not fail. -/
namespace Sfc7120.Capio.Userlib

open Sealing Machine AddressMap Ownership

section
variable {ι Cap : Type*} [DecidableEq ι] {proc : ι → ℕ} {C : Ops Cap} {barSize : ℕ} {i j : ι}
  {s u : Sys ι Cap} {h h' : Handle Cap} {pc pc' : Pc} {sc : Softc Cap}
  {space : List (Entry (Backing ι))} {t : VmMapType} {ts : List VmMapType} {n p : ℕ}
  {sizes : RegionSizes} {slices : Option ℕ}

@[simp] theorem set_handle : ((s.set proc i h pc).client i).handle = h := by simp [Sys.set]

@[simp] theorem set_pc : ((s.set proc i h pc).client i).pc = pc := by simp [Sys.set]

@[simp] theorem pending_nextMap (ts : List VmMapType) :
    (Pc.initing (nextMap ts)).pending = none := by
  cases ts <;> rfl

theorem at_nextMap : At proc C barSize i sc space h (.initing (nextMap ts)) ↔
    Mapping proc C barSize i sc space h ts := by
  cases ts <;> rfl

theorem Closed.recorded (hc : Closed C barSize i sc space) :
    Recorded proc barSize i space fun _ => 0 := by
  refine ⟨fun e he t hback => ?_, fun t ht => absurd rfl ht⟩
  have hnone := hc.unmapped t
  rw [backs_eq_true_iff.mpr ⟨e, he, hback⟩] at hnone
  cases hnone

theorem Closed.unmapping (hc : Closed C barSize i sc space) (hfd : h.fd.isSome = true)
    (hmaps : ∀ t, h.regionMaps t = none) : Unmapping proc C barSize i sc space h ts := by
  refine ⟨hfd, fun t m hm => ?_, .inl hc⟩
  rw [hmaps t] at hm
  cases hm

theorem Mapping.unmapping (hm : Mapping proc C barSize i sc space h ts) :
    Unmapping proc C barSize i sc space h VmMapType.all := by
  obtain ⟨off, ho, hzero, hmapped⟩ := hm.session
  refine ⟨hm.fd, fun t m hrec => ?_, .inr ⟨off, ho, ho.entries, fun t hoff hback => ?_⟩⟩
  · have hnot : t ∉ ts := by
      intro hmem
      rw [hm.unrecorded t hmem] at hrec
      cases hrec
    obtain ⟨hback, hrecord, -⟩ := hmapped t hnot
    obtain ⟨e, he, heback⟩ := backs_eq_true_iff.mp hback
    obtain ⟨rfl, -⟩ := ho.entries e he t heback
    rw [hrec, Option.some.injEq] at hrecord
    subst hrecord
    exact ⟨by cases t <;> decide, rfl, he⟩
  · by_cases hmem : t ∈ ts
    · exact absurd (hzero t hmem) hoff
    · rw [(hmapped t hmem).1] at hback
      cases hback

theorem Open.of_handle {off : VmMapType → ℕ} (ho : Open proc C barSize i sc space h off)
    (huser : h'.userCap = h.userCap) (hsealed : h'.sealedCap = h.sealedCap) :
    Open proc C barSize i sc space h' off := by
  refine ⟨?_, ?_, ?_, ho.entries⟩
  · rw [huser]
    exact ho.valid
  · rw [huser, hsealed]
    exact ho.token
  · rw [huser]
    exact ho.sc

theorem Unmapping.of_handle {ts' : List VmMapType}
    (hu : Unmapping proc C barSize i sc space h ts) (hfd : h'.fd = h.fd)
    (huser : h'.userCap = h.userCap) (hsealed : h'.sealedCap = h.sealedCap)
    (hmaps : ∀ t m, h'.regionMaps t = some m → t ∈ ts' ∧ h.regionMaps t = some m) :
    Unmapping proc C barSize i sc space h' ts' := by
  refine ⟨hfd ▸ hu.fd, fun t m hm => ?_, ?_⟩
  · obtain ⟨hmem, hrec⟩ := hmaps t m hm
    exact ⟨hmem, (hu.records t m hrec).2⟩
  · rcases hu.session with hc | ⟨off, ho, hr⟩
    · exact .inl hc
    · exact .inr ⟨off, ho.of_handle huser hsealed, hr⟩

theorem Mapping.of_handle (hm : Mapping proc C barSize i sc space h ts)
    (hfd : h'.fd = h.fd) (hmodmap : h'.modmapFd = h.modmapFd) (htoken : h'.capToken = h.capToken)
    (huser : h'.userCap = h.userCap) (hsealed : h'.sealedCap = h.sealedCap)
    (hmaps : h'.regionMaps = h.regionMaps) (hslices : h'.mmioSlices = h.mmioSlices)
    (hbuffers : h'.buffers = h.buffers) : Mapping proc C barSize i sc space h' ts := by
  obtain ⟨off, ho, hzero, hmapped⟩ := hm.session
  refine ⟨hfd ▸ hm.fd, hmodmap ▸ hm.modmapFd, htoken ▸ hm.capToken, hm.order,
    hmaps ▸ hm.unrecorded, hslices ▸ hm.noSlices, hslices ▸ hm.slices, off, ?_, hzero, ?_⟩
  · exact ho.of_handle huser hsealed
  · rw [hmaps, hbuffers]
    exact hmapped

theorem Mapping.not_mem (hm : Mapping proc C barSize i sc space h (t :: ts)) : t ∉ ts := by
  have hnodup : mapOrder.Nodup := by decide
  exact (List.nodup_cons.mp (hm.order.sublist.nodup hnodup)).1

/-- A region is mapped and recorded. -/
theorem Mapping.next {b : ℕ} {off : VmMapType → ℕ}
    (hm : Mapping proc C barSize i sc space h (t :: ts)) (hb : b ≠ 0)
    (hslices : slices.isSome = true ↔ t = .mmioRegion)
    (hsc : sc = opened C barSize h.userCap (backs space i) off) :
    Mapping proc C barSize i
      (opened C barSize h.userCap (Function.update (backs space i) t true)
        (Function.update off t b))
      (regionEntry proc barSize i t b :: space) (h.mapped t (sizesOf barSize t) slices b) ts := by
  obtain ⟨off', ho, hzero, hmapped⟩ := hm.session
  obtain rfl := view_off_inj (hsc.symm.trans ho.sc)
  have hnot := hm.not_mem
  have hbacks : backs (regionEntry proc barSize i t b :: space) i =
      Function.update (backs space i) t true := by
    funext v
    by_cases hv : v = t
    · subst hv
      simp [backs, regionEntry]
    · rw [Function.update_of_ne hv]
      have hne : t ≠ v := Ne.symm hv
      simp [backs, regionEntry, hne]
  refine ⟨hm.fd, hm.modmapFd, hm.capToken, ?_, fun v hv => ?_, fun hmem => ?_, fun hmem => ?_,
    Function.update off t b, ⟨ho.valid, ho.token, ?_, fun e he v hback => ?_⟩, fun v hv => ?_,
    fun v hv => ?_⟩
  · exact (List.suffix_cons t ts).trans hm.order
  · have hne : v ≠ t := fun heq => hnot (heq ▸ hv)
    simpa [Handle.mapped, hne] using hm.unrecorded v (List.mem_cons_of_mem t hv)
  · have hne : t ≠ .mmioRegion := fun heq => hnot (heq ▸ hmem)
    simpa [Handle.mapped, hne] using hm.noSlices (List.mem_cons_of_mem t hmem)
  · by_cases hmmio : t = .mmioRegion
    · simpa [Handle.mapped, hmmio] using hslices.mpr hmmio
    · have hslot := hm.slices (by simpa [Ne.symm hmmio] using hmem)
      simpa [Handle.mapped, hmmio] using hslot
  · rw [hbacks]
    rfl
  · rcases List.mem_cons.mp he with rfl | he
    · obtain rfl : t = v := (Backing.region.inj hback).2
      simpa using hb
    · obtain ⟨rfl, hoff⟩ := ho.entries e he v hback
      have hne : v ≠ t := by
        rintro rfl
        exact hoff (hzero v List.mem_cons_self)
      simpa [hne] using hoff
  · have hne : v ≠ t := fun heq => hnot (heq ▸ hv)
    simpa [hne] using hzero v (List.mem_cons_of_mem t hv)
  · rw [hbacks]
    by_cases hvt : v = t
    · subst hvt
      refine ⟨by simp, by simp [Handle.mapped, sizesOf], fun hmmio => ?_⟩
      simp [Handle.mapped, hmmio]
    · obtain ⟨hback, hrec, hbuf⟩ := hmapped v (by simp [hvt, hv])
      refine ⟨by simpa [hvt] using hback, by simpa [Handle.mapped, hvt] using hrec, fun hmmio => ?_⟩
      have hold := hbuf hmmio
      by_cases ht : t = .mmioRegion
      · subst ht
        simpa [Handle.mapped, hmmio] using hold
      · simpa [Handle.mapped, ht, hvt] using hold

theorem Inv.placed (hinv : Inv proc C barSize s) (hcl : s.client i = ⟨h, pc⟩) :
    At proc C barSize i (s.sc i) s.space h pc := by
  have hat := hinv.place i
  rwa [hcl] at hat

theorem Inv.goto (hinv : Inv proc C barSize s) (hcl : s.client i = ⟨h, pc⟩)
    (hbusy : pc.busy = true) (hat : At proc C barSize i (s.sc i) s.space h' pc')
    (heq : heldBy proc i h' pc' = heldBy proc i h pc) :
    Inv proc C barSize (s.set proc i h' pc') := by
  refine hinv.move (hinv.inCall ?_) (.refl s) hinv.stray hinv.apart (hinv.keep ?_) hat
  · rw [hcl, hbusy]
  · rw [hcl, heq]

theorem Inv.take (hinv : Inv proc C barSize s) (hcl : s.client i = ⟨h, pc⟩)
    (hbusy : pc.busy = true) {r : Res} (hfree : s.own r = none)
    (hat : At proc C barSize i (s.sc i) s.space h' pc')
    (heq : heldBy proc i h' pc' = heldBy proc i h pc + ([r] : List Res)) :
    Inv proc C barSize ((s.take i [r]).set proc i h' pc') := by
  refine hinv.move (hinv.inCall ?_) (.own s _) hinv.stray hinv.apart (hinv.grant hfree ?_) hat
  · rw [hcl, hbusy]
  · rw [hcl, heq]

/-- The handle gives something back, after whatever the call did to the device. -/
theorem Inv.release (hinv : Inv proc C barSize s) (hcl : s.client i = ⟨h, pc⟩)
    (hbusy : pc.busy = true) {rs : List Res} (hframe : Frame proc i s u) (hown : u.own = s.own)
    (hstray : u.stray = s.stray) (hapart : Apart u.space)
    (hat : At proc C barSize i (u.sc i) u.space h' pc')
    (heq : heldBy proc i h pc = heldBy proc i h' pc' + rs) :
    Inv proc C barSize ((u.drop i rs).set proc i h' pc') := by
  have heq' : heldBy proc i (s.client i).handle (s.client i).pc = heldBy proc i h' pc' + rs := by
    rw [hcl, heq]
  rw [hinv.drop hown (by rw [heq']; exact Multiset.le_add_left _ _)]
  refine hinv.move (hinv.inCall ?_) (hframe.trans (.own u _)) (hstray.trans hinv.stray) hapart
    (hinv.revoke heq') hat
  rw [hcl, hbusy]

/-- A region that is mapped joins those of its handle. -/
theorem frame_map (s : Sys ι Cap) (sc : Softc Cap) (b : ℕ) :
    Frame proc i s { s.setSc i sc with space := regionEntry proc barSize i t b :: s.space } := by
  refine ⟨rfl, rfl, rfl, fun j hj => by simp [Sys.setSc, hj], fun j hj e v hback => ?_,
    fun p hp a hfound => ?_⟩
  · rw [List.mem_cons, or_iff_right]
    rintro rfl
    exact hj (Backing.region.inj hback).1.symm
  · obtain ⟨e, he, hmeets⟩ := lookup_eq_true_iff.mp hfound
    rcases List.mem_cons.mp he with rfl | he
    · exact absurd hmeets.1.symm hp
    · exact lookup_eq_true_iff.mpr ⟨e, he, hmeets⟩

/-- A call into the driver that changes the device and maps at most its own regions. -/
theorem Inv.enter (hinv : Inv proc C barSize s) (hcl : s.client i = ⟨h, pc⟩)
    (hbusy : pc.busy = true) (hframe : Frame proc i s u) (hown : u.own = s.own)
    (hstray : u.stray = s.stray) (hapart : Apart u.space)
    (hat : At proc C barSize i (u.sc i) u.space h' pc')
    (heq : heldBy proc i h' pc' = heldBy proc i h pc) :
    Inv proc C barSize (u.set proc i h' pc') := by
  refine hinv.move (hinv.inCall ?_) hframe (hstray.trans hinv.stray) hapart ?_ hat
  · rw [hcl, hbusy]
  · rw [hown]
    exact hinv.keep (by rw [hcl, heq])

/-- A failed mapping gives the slice array back. -/
theorem Inv.map_failed (hinv : Inv proc C barSize s)
    (hcl : s.client i = ⟨h, .initing (.map t ts sizes slices)⟩) :
    Inv proc C barSize ((s.drop i (blockOf proc i slices)).fail proc i h) := by
  obtain ⟨hm, -⟩ : Mapping proc C barSize i (s.sc i) s.space h (t :: ts) ∧ _ := hinv.placed hcl
  have hat : At proc C barSize i (s.sc i) s.space h (.destroying (.unmap VmMapType.all)) :=
    hm.unmapping
  apply hinv.release hcl rfl (.refl s) rfl rfl hinv.apart hat
  simp [heldBy, Pc.devLive, Pc.modmapLive, Pc.pending, blockOf]

/-- A step of `sfc7120_init` keeps the invariant, and goes on if it was given what it asked for. -/
def Steps (proc : ι → ℕ) (C : Ops Cap) (barSize : ℕ) (i : ι) (a : Ans Cap) (u : Sys ι Cap) : Prop :=
  Inv proc C barSize u ∧
    (a.granted = true → (u.client i).pc = .opened ∨ ∃ q, (u.client i).pc = .initing q)

theorem steps_of_inv {a : Ans Cap} {pc : Pc} (hpc : pc = .opened ∨ ∃ q, pc = .initing q)
    (hu : Inv proc C barSize (u.set proc i h pc)) :
    Steps proc C barSize i a (u.set proc i h pc) :=
  ⟨hu, fun _ => by rwa [set_pc]⟩

/-- `goto fail` before anything is mapped. -/
theorem Inv.fail_closed (hinv : Inv proc C barSize s) {p : InitPc} {h' : Handle Cap}
    (hcl : s.client i = ⟨h, .initing p⟩) (hc : Closed C barSize i (s.sc i) s.space)
    (hblank : h'.Blank) (hfd : h'.fd.isSome = true)
    (heq : heldBy proc i h' (.destroying (.unmap VmMapType.all)) = heldBy proc i h (.initing p)) :
    Inv proc C barSize (s.fail proc i h') :=
  hinv.goto hcl rfl (hc.unmapping hfd hblank.regionMaps) heq

end

section
variable {ι Cap : Type*} [DecidableEq ι] [DecidableEq Cap] {proc : ι → ℕ} {C : Ops Cap}
  {barSize : ℕ} {i j : ι} {s u : Sys ι Cap} {h : Handle Cap} {t : VmMapType}
  {ts : List VmMapType} {sizes : RegionSizes} {slices : Option ℕ}

/-- Nothing is open on the device when a session starts, so the attach is accepted. -/
theorem Inv.attach_eq (hC : Lawful C) (hinv : Inv proc C barSize s)
    (hcl : s.client i = ⟨h, .initing .attach⟩) :
    s.initStep proc i C barSize h .attach .ok =
      some ((s.setSc i (opened C barSize h.userCap (fun _ => false) fun _ => 0)).set proc i
        { h with sealedCap := C.sealCap h.userCap } (.initing (nextMap mapOrder))) := by
  obtain ⟨hclosed, -, -, -, -, hvalid⟩ := hinv.placed hcl
  have htouch : s.touch i (fdOf proc i h.fd) = s :=
    hinv.touch (by rw [hcl]; exact fd_le_heldBy rfl)
  simp only [Sys.initStep, htouch, hclosed.sc, setCapToken_closed hC hvalid]

/-- The driver reports the sizes of its table, and a slice array goes with the BAR only. -/
theorem Inv.getSlices_eq (hbar : 0 < barSize) (hinv : Inv proc C barSize s)
    (hcl : s.client i = ⟨h, .initing (.getSlices t ts)⟩) :
    s.initStep proc i C barSize h (.getSlices t ts) .ok =
      some (s.set proc i h (.initing (if t = .mmioRegion then .callocSlices t ts (sizesOf barSize t)
        else .map t ts (sizesOf barSize t) none))) := by
  obtain ⟨off, ho, -⟩ := (hinv.placed hcl : Mapping proc C barSize i _ _ h (t :: ts)).session
  have htouch : s.touch i (fdOf proc i h.modmapFd ++ fdOf proc i h.fd) = s :=
    hinv.touch (by rw [hcl]; exact fds_le_heldBy rfl rfl)
  have hsizes : sliceLengthCallback (s.sc i) t.toInt = sizesOf barSize t := by
    rw [ho.sc, sliceLengthCallback_view]
    rfl
  have hlen : (sizesOf barSize t).regionLength ≠ 0 := getBufferSize_ne_zero hbar t
  simp only [Sys.initStep, htouch, hsizes, if_neg hlen]
  split_ifs with hmmio hsliced
  · rfl
  · exact absurd (sliceDefLen_of_ne hmmio) hsliced
  · rfl

/-- The token of the session passes its check. -/
theorem Mapping.token (hC : Lawful C) (hm : Mapping proc C barSize i (s.sc i) s.space h ts) :
    checkCapToken C (s.sc i) h.sealedCap = none := by
  obtain ⟨off, ho, -⟩ := hm.session
  rw [ho.token, ho.sc]
  exact checkCapToken_opened hC ho.valid

theorem Inv.getViInfo_eq (hC : Lawful C) (hinv : Inv proc C barSize s)
    (hcl : s.client i = ⟨h, .initing .getViInfo⟩) :
    s.initStep proc i C barSize h .getViInfo .ok =
      some (s.set proc i { h with viInfoValid := true } (.initing .getMac)) := by
  have hm : Mapping proc C barSize i (s.sc i) s.space h [] := hinv.placed hcl
  have htouch : s.touch i (fdOf proc i h.fd) = s :=
    hinv.touch (by rw [hcl]; exact fd_le_heldBy rfl)
  simp only [Sys.initStep, htouch, hm.token hC]

theorem Inv.getMac_eq (hC : Lawful C) (hinv : Inv proc C barSize s)
    (hcl : s.client i = ⟨h, .initing .getMac⟩) :
    s.initStep proc i C barSize h .getMac .ok = some (s.set proc i h .opened) := by
  have hm : Mapping proc C barSize i (s.sc i) s.space h [] := hinv.placed hcl
  have htouch : s.touch i (fdOf proc i h.fd) = s :=
    hinv.touch (by rw [hcl]; exact fd_le_heldBy rfl)
  simp only [Sys.initStep, htouch, hm.token hC]

/-- The driver refuses a mapping for want of memory only. What it did for a mapping that finds no
room in the map is undone. -/
theorem Inv.map_cases (hC : Lawful C) (hinv : Inv proc C barSize s)
    (hcl : s.client i = ⟨h, .initing (.map t ts sizes slices)⟩) {env : MmapEnv} {base : Option ℕ}
    (hstep : s.initStep proc i C barSize h (.map t ts sizes slices) (.place env base) = some u) :
    (u = (s.drop i (blockOf proc i slices)).fail proc i h ∧
      (.place env base : Ans Cap).granted = false) ∨
    ∃ b off, s.sc i = opened C barSize h.userCap (backs s.space i) off ∧ b ≠ 0 ∧
      Free s.space (proc i) b (getBufferSize barSize t.toInt) ∧
      u = ({ s.setSc i (opened C barSize h.userCap (Function.update (backs s.space i) t true)
          (Function.update off t b)) with
        space := regionEntry proc barSize i t b :: s.space }).set proc i
          (h.mapped t (sizesOf barSize t) slices b) (.initing (nextMap ts)) := by
  obtain ⟨hm, rfl, -⟩ : Mapping proc C barSize i (s.sc i) s.space h (t :: ts) ∧ _ :=
    hinv.placed hcl
  obtain ⟨off, ho, hzero, -⟩ := hm.session
  have htouch : s.touch i (fdOf proc i h.modmapFd ++ fdOf proc i h.fd ++ blockOf proc i slices) =
      s := hinv.touch (by rw [hcl]; exact le_heldBy rfl rfl)
  have hfree : backs s.space i t = false := by
    rw [← Bool.not_eq_true]
    intro hback
    obtain ⟨e, he, heback⟩ := backs_eq_true_iff.mp hback
    exact (ho.entries e he t heback).2 (hzero t List.mem_cons_self)
  have hself : s.setSc i (opened C barSize h.userCap (backs s.space i) off) = s := by
    rw [← ho.sc, Sys.setSc, Function.update_eq_self]
  have hundone : Function.update (Function.update (backs s.space i) t true) t false =
      backs s.space i := by
    rw [Function.update_idem, ← hfree, Function.update_eq_self]
  simp only [Sys.initStep, htouch, Sys.mapCall] at hstep
  split_ifs at hstep with hdying
  rw [Bool.or_eq_true, not_or, Bool.not_eq_true, Bool.not_eq_true] at hdying
  have hcall := mmapSingleExtra_opened barSize off hC ho.valid hdying.1 hdying.2 hfree
  rw [← ho.token, ← ho.sc] at hcall
  simp only [sizesOf, hcall] at hstep
  cases hhandle : env.handle with
  | false =>
    left
    simp only [hhandle, Bool.not_false, if_true] at hstep
    rw [← Option.some.inj hstep, ho.sc, hself]
    exact ⟨rfl, by simp [Ans.granted, hhandle]⟩
  | true =>
    cases hobject : env.object with
    | false =>
      left
      simp only [hhandle, hobject, Bool.not_true, Bool.not_false, if_true, if_false,
        Bool.false_eq_true] at hstep
      rw [← Option.some.inj hstep, ho.sc, hself]
      exact ⟨rfl, by simp [Ans.granted, hobject]⟩
    | true =>
      simp only [hhandle, hobject, Bool.not_true, if_false, Bool.false_eq_true] at hstep
      cases base with
      | none =>
        left
        rw [← Option.some.inj hstep, pagerDtor_view, hundone, hself]
        exact ⟨rfl, by simp [Ans.granted]⟩
      | some b =>
        right
        simp only [vaddrCallback_view] at hstep
        split_ifs at hstep with hroom
        exact ⟨b, off, ho.sc, hroom.1, hroom.2, (Option.some.inj hstep).symm⟩

theorem Inv.opening (hinv : Inv proc C barSize s) {a : Ans Cap} {p : InitPc}
    (hp : p = .openDev ∨ p = .openModmap ∨ p = .mallocToken)
    (hcl : s.client i = ⟨h, .initing p⟩)
    (hstep : s.initStep proc i C barSize h p a = some u) : Steps proc C barSize i a u := by
  have hat := hinv.placed hcl
  rcases hp with rfl | rfl | rfl
  · obtain ⟨hclosed, hblank, htoken, hfd, hmodmap⟩ := hat
    cases a <;> simp only [Sys.initStep, reduceCtorEq] at hstep
    case failed =>
      obtain rfl := Option.some.inj hstep
      refine ⟨hinv.goto hcl rfl ⟨hclosed, hblank, htoken⟩ ?_, fun hgranted => by cases hgranted⟩
      simp [heldBy, Pc.devLive, Pc.modmapLive, Pc.pending, fdOf, hfd, hmodmap]
    case descriptor n =>
      split_ifs at hstep with hfree
      obtain rfl := Option.some.inj hstep
      apply steps_of_inv (.inr ⟨_, rfl⟩)
      apply hinv.take hcl rfl hfree
      · exact ⟨hclosed, ⟨hblank.buffers, hblank.slices, hblank.regionMaps⟩, htoken, rfl, hmodmap⟩
      · simp [heldBy, Pc.devLive, Pc.modmapLive, Pc.pending, fdOf, blockOf, hfd, hmodmap, htoken,
          hblank.slices]
  · obtain ⟨hclosed, hblank, htoken, hfd, hmodmap⟩ := hat
    cases a <;> simp only [Sys.initStep, reduceCtorEq] at hstep
    case failed =>
      obtain rfl := Option.some.inj hstep
      refine ⟨hinv.fail_closed hcl hclosed hblank hfd ?_, fun hgranted => by cases hgranted⟩
      simp [heldBy, Pc.devLive, Pc.modmapLive, Pc.pending]
    case descriptor n =>
      split_ifs at hstep with hfree
      obtain rfl := Option.some.inj hstep
      apply steps_of_inv (.inr ⟨_, rfl⟩)
      apply hinv.take hcl rfl hfree
      · exact ⟨hclosed, ⟨hblank.buffers, hblank.slices, hblank.regionMaps⟩, htoken, hfd, rfl⟩
      · simp [heldBy, Pc.devLive, Pc.modmapLive, Pc.pending, fdOf, blockOf, hmodmap, htoken,
          hblank.slices]
  · obtain ⟨hclosed, hblank, htoken, hfd, hmodmap⟩ := hat
    cases a <;> simp only [Sys.initStep, reduceCtorEq] at hstep
    case failed =>
      obtain rfl := Option.some.inj hstep
      have hblank' : Handle.Blank { h with capToken := none } :=
        ⟨hblank.buffers, hblank.slices, hblank.regionMaps⟩
      refine ⟨hinv.fail_closed hcl hclosed hblank' hfd ?_, fun hgranted => by cases hgranted⟩
      simp [heldBy, Pc.devLive, Pc.modmapLive, Pc.pending, htoken]
    case memory n v =>
      split_ifs at hstep with hfree
      obtain ⟨hfree, hnull, htag, hsealed⟩ := hfree
      obtain rfl := Option.some.inj hstep
      apply steps_of_inv (.inr ⟨_, rfl⟩)
      apply hinv.take hcl rfl hfree
      · exact ⟨hclosed, ⟨hblank.buffers, hblank.slices, hblank.regionMaps⟩, rfl, hfd, hmodmap,
          hnull, htag, hsealed⟩
      · simp [heldBy, Pc.devLive, Pc.modmapLive, Pc.pending, fdOf, blockOf, htoken, hblank.slices]

theorem Inv.attach (hC : Lawful C) (hinv : Inv proc C barSize s) {a : Ans Cap}
    (hcl : s.client i = ⟨h, .initing .attach⟩)
    (hstep : s.initStep proc i C barSize h .attach a = some u) : Steps proc C barSize i a u := by
  obtain ⟨hclosed, hblank, htoken, hfd, hmodmap, hvalid⟩ := hinv.placed hcl
  cases a with
  | ok =>
    rw [hinv.attach_eq hC hcl, Option.some.injEq] at hstep
    subst hstep
    apply steps_of_inv (.inr ⟨_, rfl⟩)
    apply hinv.enter hcl rfl (.setSc s _) rfl rfl hinv.apart
    · rw [at_nextMap]
      refine ⟨hfd, hmodmap, htoken, List.suffix_refl _, fun t _ => hblank.regionMaps t,
        fun _ => hblank.slices, fun hmem => absurd hmem (by decide), fun _ => 0,
        ⟨hvalid, rfl, ?_, hclosed.recorded.entries⟩, fun _ _ => rfl, fun t ht => ?_⟩
      · simp [Sys.setSc, funext hclosed.unmapped]
      · exact absurd (by cases t <;> decide) ht
    · rw [heldBy, heldBy, pending_nextMap]
      rfl
  | failed | descriptor | memory | place => simp [Sys.initStep] at hstep

theorem Inv.getSlices (hbar : 0 < barSize) (hinv : Inv proc C barSize s) {a : Ans Cap}
    (hcl : s.client i = ⟨h, .initing (.getSlices t ts)⟩)
    (hstep : s.initStep proc i C barSize h (.getSlices t ts) a = some u) :
    Steps proc C barSize i a u := by
  have hm : Mapping proc C barSize i (s.sc i) s.space h (t :: ts) := hinv.placed hcl
  cases a with
  | ok =>
    rw [hinv.getSlices_eq hbar hcl, Option.some.injEq] at hstep
    subst hstep
    apply steps_of_inv (.inr ⟨_, rfl⟩)
    apply hinv.goto hcl rfl
    · split_ifs with hmmio
      · exact ⟨hm, rfl, hmmio⟩
      · exact ⟨hm, rfl, by simp [hmmio]⟩
    · split_ifs <;> simp [heldBy, Pc.devLive, Pc.modmapLive, Pc.pending]
  | failed =>
    obtain rfl := Option.some.inj hstep
    refine ⟨hinv.goto hcl rfl hm.unmapping ?_, fun hgranted => by cases hgranted⟩
    simp [heldBy, Pc.devLive, Pc.modmapLive, Pc.pending]
  | descriptor | memory | place => simp [Sys.initStep] at hstep

theorem Inv.callocSlices (hinv : Inv proc C barSize s) {a : Ans Cap}
    (hcl : s.client i = ⟨h, .initing (.callocSlices t ts sizes)⟩)
    (hstep : s.initStep proc i C barSize h (.callocSlices t ts sizes) a = some u) :
    Steps proc C barSize i a u := by
  obtain ⟨hm, rfl, rfl⟩ : Mapping proc C barSize i (s.sc i) s.space h (t :: ts) ∧ _ :=
    hinv.placed hcl
  cases a with
  | memory p v =>
    simp only [Sys.initStep] at hstep
    split_ifs at hstep with hfree
    obtain rfl := Option.some.inj hstep
    apply steps_of_inv (.inr ⟨_, rfl⟩)
    apply hinv.take hcl rfl hfree
    · exact ⟨hm, rfl, by simp⟩
    · simp [heldBy, Pc.devLive, Pc.modmapLive, Pc.pending, blockOf]
  | failed =>
    obtain rfl := Option.some.inj hstep
    refine ⟨hinv.goto hcl rfl hm.unmapping ?_, fun hgranted => by cases hgranted⟩
    simp [heldBy, Pc.devLive, Pc.modmapLive, Pc.pending]
  | ok | descriptor | place => simp [Sys.initStep] at hstep

theorem Inv.map (hC : Lawful C) (hbar : 0 < barSize) (hinv : Inv proc C barSize s) {a : Ans Cap}
    (hcl : s.client i = ⟨h, .initing (.map t ts sizes slices)⟩)
    (hstep : s.initStep proc i C barSize h (.map t ts sizes slices) a = some u) :
    Steps proc C barSize i a u := by
  cases a with
  | place env base =>
    rcases hinv.map_cases hC hcl hstep with ⟨rfl, hrefused⟩ | ⟨b, off, hsc, hb, hfree, rfl⟩
    · refine ⟨hinv.map_failed hcl, fun hgranted => ?_⟩
      rw [hrefused] at hgranted
      cases hgranted
    · obtain ⟨hm, -, hslices⟩ : Mapping proc C barSize i (s.sc i) s.space h (t :: ts) ∧ _ :=
        hinv.placed hcl
      apply steps_of_inv (.inr ⟨_, rfl⟩)
      apply hinv.enter hcl rfl (frame_map s _ b) rfl rfl
      · exact hinv.apart.cons (Nat.pos_of_ne_zero (getBufferSize_ne_zero hbar t)) hfree
      · rw [at_nextMap]
        simpa [Sys.setSc] using hm.next hb hslices hsc
      · rw [heldBy, heldBy, pending_nextMap]
        -- the slice array is the handle's from now on
        by_cases hmmio : t = .mmioRegion
        · have hnone := hm.noSlices (by simp [hmmio])
          simp [Handle.mapped, hmmio, hnone, Pc.devLive, Pc.modmapLive, Pc.pending, blockOf]
        · have hslot : slices = none := by
            rw [← Option.not_isSome_iff_eq_none, hslices]
            exact hmmio
          simp [Handle.mapped, hmmio, hslot, Pc.devLive, Pc.modmapLive, Pc.pending, blockOf]
  | failed =>
    obtain rfl := Option.some.inj hstep
    exact ⟨hinv.map_failed hcl, fun hgranted => by cases hgranted⟩
  | ok | descriptor | memory => simp [Sys.initStep] at hstep

theorem Inv.asking (hC : Lawful C) (hinv : Inv proc C barSize s) {a : Ans Cap} {p : InitPc}
    (hp : p = .getViInfo ∨ p = .getMac) (hcl : s.client i = ⟨h, .initing p⟩)
    (hstep : s.initStep proc i C barSize h p a = some u) : Steps proc C barSize i a u := by
  rcases hp with rfl | rfl
  · have hm : Mapping proc C barSize i (s.sc i) s.space h [] := hinv.placed hcl
    cases a with
    | ok =>
      rw [hinv.getViInfo_eq hC hcl, Option.some.injEq] at hstep
      subst hstep
      apply steps_of_inv (.inr ⟨_, rfl⟩)
      apply hinv.goto hcl rfl
      · exact hm.of_handle rfl rfl rfl rfl rfl rfl rfl rfl
      · simp [heldBy, Pc.devLive, Pc.modmapLive, Pc.pending]
    | failed | descriptor | memory | place => simp [Sys.initStep] at hstep
  · have hm : Mapping proc C barSize i (s.sc i) s.space h [] := hinv.placed hcl
    cases a with
    | ok =>
      rw [hinv.getMac_eq hC hcl, Option.some.injEq] at hstep
      subst hstep
      apply steps_of_inv (.inl rfl)
      apply hinv.goto hcl rfl
      · exact hm
      · simp [heldBy, Pc.devLive, Pc.modmapLive, Pc.pending]
    | failed | descriptor | memory | place => simp [Sys.initStep] at hstep

/-- Every step of `sfc7120_init`. -/
theorem Inv.initStep (hC : Lawful C) (hbar : 0 < barSize) (hinv : Inv proc C barSize s)
    {a : Ans Cap} {p : InitPc} (hcl : s.client i = ⟨h, .initing p⟩)
    (hstep : s.initStep proc i C barSize h p a = some u) : Steps proc C barSize i a u := by
  cases p with
  | openDev => exact hinv.opening (.inl rfl) hcl hstep
  | openModmap => exact hinv.opening (.inr (.inl rfl)) hcl hstep
  | mallocToken => exact hinv.opening (.inr (.inr rfl)) hcl hstep
  | attach => exact hinv.attach hC hcl hstep
  | getSlices t ts => exact hinv.getSlices hbar hcl hstep
  | callocSlices t ts sizes => exact hinv.callocSlices hcl hstep
  | map t ts sizes slices => exact hinv.map hC hbar hcl hstep
  | getViInfo => exact hinv.asking hC (.inl rfl) hcl hstep
  | getMac => exact hinv.asking hC (.inr rfl) hcl hstep

end

end Sfc7120.Capio.Userlib

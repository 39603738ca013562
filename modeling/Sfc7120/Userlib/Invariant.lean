import Sfc7120.Userlib.Device
import Mathlib.Algebra.Order.Group.Multiset
import Mathlib.Data.List.Infix
import Mathlib.Tactic.Abel

/-! What holds of a handle wherever its call is: what it holds, what its fields record of that, and
what the driver records of its mappings. Unmapping and revocation keep the two records in step. -/
namespace Sfc7120.Capio.Userlib

open Sealing Machine AddressMap Ownership

section
variable {ι Cap : Type*} [DecidableEq ι] (proc : ι → ℕ) (C : Ops Cap) (barSize : ℕ) (i : ι)

/-- A region of handle `i`, mapped whole. -/
def regionEntry (t : VmMapType) (base : ℕ) : Entry (Backing ι) :=
  ⟨proc i, base, getBufferSize barSize t.toInt, .region i t⟩

def sizesOf (t : VmMapType) : RegionSizes := ⟨getBufferSize barSize t.toInt, sliceDefLen t.toInt⟩

/-- No session is open on the device. -/
structure Closed (sc : Softc Cap) (space : List (Entry (Backing ι))) : Prop where
  sc : sc = closed C barSize
  unmapped : ∀ t, backs space i t = false

/-- Each mapping of the device is at the offset recorded for its region, and an offset recorded for
a region that is not mapped points at nothing. -/
structure Recorded (space : List (Entry (Backing ι))) (off : VmMapType → ℕ) : Prop where
  entries : ∀ e ∈ space, ∀ t, e.backing = .region i t →
    e = regionEntry proc barSize i t (off t) ∧ off t ≠ 0
  stale : ∀ t, off t ≠ 0 → backs space i t = false → lookup space (proc i) (off t) = false

/-- The handle has the session, and each mapping of its device is where it is recorded. -/
structure Open (sc : Softc Cap) (space : List (Entry (Backing ι))) (h : Handle Cap)
    (off : VmMapType → ℕ) : Prop where
  valid : Valid C h.userCap
  token : h.sealedCap = C.sealCap h.userCap
  sc : sc = opened C barSize h.userCap (backs space i) off
  entries : ∀ e ∈ space, ∀ t, e.backing = .region i t →
    e = regionEntry proc barSize i t (off t) ∧ off t ≠ 0

/-- All regions but `ts` are mapped and recorded. -/
structure Mapping (sc : Softc Cap) (space : List (Entry (Backing ι))) (h : Handle Cap)
    (ts : List VmMapType) : Prop where
  fd : h.fd.isSome = true
  modmapFd : h.modmapFd.isSome = true
  capToken : h.capToken.isSome = true
  order : ts <:+ mapOrder
  unrecorded : ∀ t ∈ ts, h.regionMaps t = none
  noSlices : .mmioRegion ∈ ts → h.mmioSlices = none
  slices : .mmioRegion ∉ ts → h.mmioSlices.isSome = true
  session : ∃ off, Open proc C barSize i sc space h off ∧ (∀ t ∈ ts, off t = 0) ∧
    ∀ t ∉ ts, backs space i t = true ∧
      h.regionMaps t = some (off t, getBufferSize barSize t.toInt) ∧
      (t ≠ .mmioRegion → h.buffers t = some (off t))

/-- A destructor that has yet to unmap what is recorded of `ts`. -/
structure Unmapping (sc : Softc Cap) (space : List (Entry (Backing ι))) (h : Handle Cap)
    (ts : List VmMapType) : Prop where
  fd : h.fd.isSome = true
  records : ∀ t m, h.regionMaps t = some m →
    t ∈ ts ∧ m.2 = getBufferSize barSize t.toInt ∧ regionEntry proc barSize i t m.1 ∈ space
  session : Closed C barSize i sc space ∨ ∃ off, Open proc C barSize i sc space h off ∧
    Recorded proc barSize i space off

/-- No pointer of the handle is left. -/
structure Handle.Blank {Cap : Type*} (h : Handle Cap) : Prop where
  buffers : ∀ t, h.buffers t = none
  slices : h.mmioSlices = none
  regionMaps : ∀ t, h.regionMaps t = none

/-- What is known of a handle and its device, by where the handle's call is. -/
def At (sc : Softc Cap) (space : List (Entry (Backing ι))) (h : Handle Cap) : Pc → Prop
  | .idle => Closed C barSize i sc space ∧ h.Blank ∧ h.capToken = none
  | .initing .openDev => Closed C barSize i sc space ∧ h.Blank ∧ h.capToken = none ∧
      h.fd = none ∧ h.modmapFd = none
  | .initing .openModmap => Closed C barSize i sc space ∧ h.Blank ∧ h.capToken = none ∧
      h.fd.isSome = true ∧ h.modmapFd = none
  | .initing .mallocToken => Closed C barSize i sc space ∧ h.Blank ∧ h.capToken = none ∧
      h.fd.isSome = true ∧ h.modmapFd.isSome = true
  | .initing .attach => Closed C barSize i sc space ∧ h.Blank ∧ h.capToken.isSome = true ∧
      h.fd.isSome = true ∧ h.modmapFd.isSome = true ∧ Valid C h.userCap
  | .initing (.getSlices t ts) => Mapping proc C barSize i sc space h (t :: ts)
  | .initing (.callocSlices t ts sizes) => Mapping proc C barSize i sc space h (t :: ts) ∧
      sizes = sizesOf barSize t ∧ t = .mmioRegion
  | .initing (.map t ts sizes slices) => Mapping proc C barSize i sc space h (t :: ts) ∧
      sizes = sizesOf barSize t ∧ (slices.isSome = true ↔ t = .mmioRegion)
  | .initing .getViInfo | .initing .getMac | .opened => Mapping proc C barSize i sc space h []
  | .destroying (.unmap ts) => Unmapping proc C barSize i sc space h ts
  | .destroying .syncRptr | .destroying .goodbye =>
      Unmapping proc C barSize i sc space h [] ∧ ∀ t, h.buffers t = none
  | .destroying .freeSlices => Closed C barSize i sc space ∧ (∀ t, h.buffers t = none) ∧
      ∀ t, h.regionMaps t = none
  | .destroying .freeToken => Closed C barSize i sc space ∧ h.Blank
  | .destroying .closeModmap | .destroying .closeFd =>
      Closed C barSize i sc space ∧ h.Blank ∧ h.capToken = none

def Pc.devLive : Pc → Bool
  | .idle => false
  | _ => true

def Pc.modmapLive : Pc → Bool
  | .idle => false
  | .destroying .closeFd => false
  | _ => true

/-- The slice array before `map_region` hands it over. -/
def Pc.pending : Pc → Option ℕ
  | .initing (.map _ _ _ slices) => slices
  | _ => none

/-- What a handle holds, by its own fields and where its call is. -/
def heldBy (h : Handle Cap) (pc : Pc) : Multiset Res :=
  (if pc.devLive then fdOf proc i h.fd else [] : List Res) +
    (if pc.modmapLive then fdOf proc i h.modmapFd else [] : List Res) +
    blockOf proc i h.capToken + blockOf proc i h.mmioSlices + blockOf proc i pc.pending

def held (s : Sys ι Cap) : Option ι → Multiset Res
  | none => s.others
  | some i => heldBy proc i (s.client i).handle (s.client i).pc

structure Inv (s : Sys ι Cap) : Prop where
  stray : s.stray = false
  balanced : Balanced s.own (held proc s)
  apart : Apart s.space
  place : ∀ i, At proc C barSize i (s.sc i) s.space (s.client i).handle (s.client i).pc
  running : ∀ i, (s.client i).pc.busy = true ↔ s.running (proc i) = some i

/-- What a call for handle `i` leaves alone before it moves on. -/
structure Frame (s u : Sys ι Cap) : Prop where
  client : u.client = s.client
  running : u.running = s.running
  others : u.others = s.others
  sc : ∀ j, j ≠ i → u.sc j = s.sc j
  entries : ∀ j, j ≠ i → ∀ e t, e.backing = .region j t → (e ∈ u.space ↔ e ∈ s.space)
  lookups : ∀ p, p ≠ proc i → ∀ a, lookup u.space p a = true → lookup s.space p a = true

end

section
variable {ι Cap : Type*} {proc : ι → ℕ} {i : ι} {s u : Sys ι Cap} {h : Handle Cap} {pc : Pc}

theorem Frame.refl (s : Sys ι Cap) : Frame proc i s s :=
  ⟨rfl, rfl, rfl, fun _ _ => rfl, fun _ _ _ _ _ => Iff.rfl, fun _ _ _ h => h⟩

theorem Frame.trans {v : Sys ι Cap} (hsu : Frame proc i s u) (huv : Frame proc i u v) :
    Frame proc i s v where
  client := huv.client.trans hsu.client
  running := huv.running.trans hsu.running
  others := huv.others.trans hsu.others
  sc j hj := (huv.sc j hj).trans (hsu.sc j hj)
  entries j hj e t hback := (huv.entries j hj e t hback).trans (hsu.entries j hj e t hback)
  lookups p hp a hfound := hsu.lookups p hp a (huv.lookups p hp a hfound)

theorem Frame.own (s : Sys ι Cap) (own : Holdings Res (Option ι)) :
    Frame proc i s { s with own := own } :=
  { Frame.refl s with }

theorem held_of_client (hclient : u.client = s.client) (hothers : u.others = s.others) :
    held proc u = held proc s := by
  funext o
  cases o with
  | none => simp [held, hothers]
  | some i => simp [held, hclient]

/-- While both descriptors are open they can be used, and so can a slice array. -/
theorem le_heldBy (hdev : pc.devLive = true) (hmodmap : pc.modmapLive = true) :
    ((fdOf proc i h.modmapFd ++ fdOf proc i h.fd ++ blockOf proc i pc.pending : List Res) :
      Multiset Res) ≤ heldBy proc i h pc := by
  simp only [heldBy, hdev, hmodmap, if_true, ← Multiset.coe_add]
  exact Multiset.le_iff_exists_add.mpr
    ⟨blockOf proc i h.capToken + blockOf proc i h.mmioSlices, by abel⟩

theorem fds_le_heldBy (hdev : pc.devLive = true) (hmodmap : pc.modmapLive = true) :
    ((fdOf proc i h.modmapFd ++ fdOf proc i h.fd : List Res) : Multiset Res) ≤
      heldBy proc i h pc := by
  refine le_trans ?_ (le_heldBy hdev hmodmap)
  exact Multiset.coe_le.mpr (List.sublist_append_left _ _).subperm

theorem session_le_heldBy (hdev : pc.devLive = true) :
    ((fdOf proc i h.fd ++ blockOf proc i h.mmioSlices : List Res) : Multiset Res) ≤
      heldBy proc i h pc := by
  simp only [heldBy, hdev, if_true, ← Multiset.coe_add]
  exact Multiset.le_iff_exists_add.mpr
    ⟨(if pc.modmapLive then fdOf proc i h.modmapFd else [] : List Res) +
      blockOf proc i h.capToken + blockOf proc i pc.pending, by abel⟩

theorem fd_le_heldBy (hdev : pc.devLive = true) :
    ((fdOf proc i h.fd : List Res) : Multiset Res) ≤ heldBy proc i h pc := by
  simp only [heldBy, hdev, if_true, Multiset.add_assoc]
  exact Multiset.le_add_right _ _

end

section
variable {ι Cap : Type*} [DecidableEq ι] {proc : ι → ℕ} {C : Ops Cap} {barSize : ℕ} {i j : ι}
  {s u : Sys ι Cap} {h h' : Handle Cap} {pc pc' : Pc} {sc sc' : Softc Cap}
  {space space' : List (Entry (Backing ι))} {t : VmMapType} {ts : List VmMapType}
  {off : VmMapType → ℕ} {rs : List Res}

theorem backs_eq_true_iff : backs space i t = true ↔ ∃ e ∈ space, e.backing = .region i t := by
  simp [backs]

theorem backs_congr (hentries : ∀ e t, e.backing = .region i t → (e ∈ space' ↔ e ∈ space)) :
    backs space' i = backs space i := by
  funext t
  rw [Bool.eq_iff_iff, backs_eq_true_iff, backs_eq_true_iff]
  constructor
  · rintro ⟨e, he, hback⟩
    exact ⟨e, (hentries e t hback).mp he, hback⟩
  · rintro ⟨e, he, hback⟩
    exact ⟨e, (hentries e t hback).mpr he, hback⟩

theorem Closed.congr (hentries : ∀ e t, e.backing = .region i t → (e ∈ space' ↔ e ∈ space))
    (hc : Closed C barSize i sc space) : Closed C barSize i sc space' :=
  ⟨hc.sc, by rw [backs_congr hentries]; exact hc.unmapped⟩

theorem Open.congr (hentries : ∀ e t, e.backing = .region i t → (e ∈ space' ↔ e ∈ space))
    (ho : Open proc C barSize i sc space h off) : Open proc C barSize i sc space' h off := by
  refine ⟨ho.valid, ho.token, ?_, fun e he t hback => ?_⟩
  · rw [backs_congr hentries]
    exact ho.sc
  · exact ho.entries e ((hentries e t hback).mp he) t hback

theorem Mapping.congr (hentries : ∀ e t, e.backing = .region i t → (e ∈ space' ↔ e ∈ space))
    (hm : Mapping proc C barSize i sc space h ts) : Mapping proc C barSize i sc space' h ts := by
  obtain ⟨off, ho, hzero, hmapped⟩ := hm.session
  refine { hm with session := ⟨off, ho.congr hentries, hzero, ?_⟩ }
  rw [backs_congr hentries]
  exact hmapped

theorem Unmapping.congr (hentries : ∀ e t, e.backing = .region i t → (e ∈ space' ↔ e ∈ space))
    (hlookup : ∀ a, lookup space' (proc i) a = true → lookup space (proc i) a = true)
    (hu : Unmapping proc C barSize i sc space h ts) :
    Unmapping proc C barSize i sc space' h ts := by
  refine ⟨hu.fd, fun t m hm => ?_, ?_⟩
  · obtain ⟨hmem, hlen, hentry⟩ := hu.records t m hm
    exact ⟨hmem, hlen, (hentries _ t rfl).mpr hentry⟩
  · rcases hu.session with hc | ⟨off, ho, hr⟩
    · exact .inl (hc.congr hentries)
    · refine .inr ⟨off, ho.congr hentries, (ho.congr hentries).entries, fun t hoff hback => ?_⟩
      rw [backs_congr hentries] at hback
      rw [← Bool.not_eq_true]
      intro hfound
      have hbefore := hlookup _ hfound
      rw [hr.stale t hoff hback] at hbefore
      cases hbefore

/-- Another handle's call changes nothing for this one, unless it maps something into the process
of a handle that is closing. -/
theorem At.congr (hentries : ∀ e t, e.backing = .region i t → (e ∈ space' ↔ e ∈ space))
    (hlookup : pc.busy = true →
      ∀ a, lookup space' (proc i) a = true → lookup space (proc i) a = true)
    (hat : At proc C barSize i sc space h pc) : At proc C barSize i sc space' h pc := by
  cases pc with
  | idle => exact ⟨hat.1.congr hentries, hat.2⟩
  | opened => exact Mapping.congr hentries hat
  | initing p =>
    cases p with
    | openDev | openModmap | mallocToken | attach => exact ⟨hat.1.congr hentries, hat.2⟩
    | getSlices | getViInfo | getMac => exact Mapping.congr hentries hat
    | callocSlices | map => exact ⟨hat.1.congr hentries, hat.2⟩
  | destroying p =>
    cases p with
    | unmap => exact Unmapping.congr hentries (hlookup rfl) hat
    | syncRptr | goodbye => exact ⟨hat.1.congr hentries (hlookup rfl), hat.2⟩
    | freeSlices | freeToken | closeModmap | closeFd => exact ⟨hat.1.congr hentries, hat.2⟩

theorem Frame.setSc (s : Sys ι Cap) (sc : Softc Cap) : Frame proc i s (s.setSc i sc) :=
  { Frame.refl s with sc := fun j hj => by simp [Sys.setSc, hj] }

/-- The end of each step of a call: what it has done to the rest of the system, and the handle it
leaves. -/
theorem Inv.move (hinv : Inv proc C barSize s)
    (hrun : s.running (proc i) = none ∨ s.running (proc i) = some i) (hframe : Frame proc i s u)
    (hstray : u.stray = false) (hapart : Apart u.space)
    (hbalanced : Balanced u.own
      (Function.update (held proc s) (some i) (heldBy proc i h pc)))
    (hat : At proc C barSize i (u.sc i) u.space h pc) :
    Inv proc C barSize (u.set proc i h pc) := by
  -- the other handles of the process are in no call
  have hquiet : ∀ j, j ≠ i → proc j = proc i → (s.client j).pc.busy = false := by
    intro j hj hproc
    rw [← Bool.not_eq_true, hinv.running j, hproc]
    rcases hrun with hnone | hsome
    · rw [hnone]
      simp
    · rw [hsome]
      simpa using Ne.symm hj
  refine ⟨hstray, ?_, hapart, fun j => ?_, fun j => ?_⟩
  · have hheld : held proc (u.set proc i h pc) =
        Function.update (held proc s) (some i) (heldBy proc i h pc) := by
      funext o
      by_cases ho : o = some i
      · subst ho
        simp [held, Sys.set]
      · rw [Function.update_of_ne ho, ← held_of_client hframe.client hframe.others]
        cases o with
        | none => rfl
        | some j =>
          have hj : j ≠ i := fun heq => ho (by rw [heq])
          simp [held, Sys.set, hj]
    rw [hheld]
    exact hbalanced
  · by_cases hj : j = i
    · subst hj
      simpa [Sys.set] using hat
    · have hold := hinv.place j
      simp only [Sys.set, Function.update_of_ne hj, hframe.client, hframe.sc j hj]
      apply hold.congr (hframe.entries j hj)
      intro hbusy a hfound
      apply hframe.lookups (proc j) _ a hfound
      intro hproc
      rw [hquiet j hj hproc] at hbusy
      cases hbusy
  · by_cases hj : j = i
    · subst hj
      cases hbusy : pc.busy <;> simp [Sys.set, hbusy]
    · by_cases hproc : proc j = proc i
      · have hidle := hquiet j hj hproc
        simp only [Sys.set, Function.update_of_ne hj, hframe.client, hproc,
          Function.update_self, hidle]
        split_ifs <;> simp [Ne.symm hj]
      · simp only [Sys.set, Function.update_of_ne hj, Function.update_of_ne hproc, hframe.client,
          hframe.running]
        exact hinv.running j

/-- Inside a call the process is running it. -/
theorem Inv.inCall (hinv : Inv proc C barSize s) (hbusy : (s.client i).pc.busy = true) :
    s.running (proc i) = none ∨ s.running (proc i) = some i :=
  .inr ((hinv.running i).mp hbusy)

theorem Inv.owned (hinv : Inv proc C barSize s)
    (hle : (rs : Multiset Res) ≤ heldBy proc i (s.client i).handle (s.client i).pc) :
    (rs.all fun r => s.own r = some (some i)) = true := by
  rw [List.all_eq_true]
  intro r hr
  simpa using hinv.balanced.owns (o := some i) hle r hr

/-- What a handle holds it may use. -/
theorem Inv.touch (hinv : Inv proc C barSize s)
    (hle : (rs : Multiset Res) ≤ heldBy proc i (s.client i).handle (s.client i).pc) :
    s.touch i rs = s := by
  rw [Sys.touch, hinv.owned hle, Bool.not_true, Bool.or_false]

/-- What a handle holds it may release, whatever the call did to the device before. -/
theorem Inv.drop (hinv : Inv proc C barSize s) (hown : u.own = s.own)
    (hle : (rs : Multiset Res) ≤ heldBy proc i (s.client i).handle (s.client i).pc) :
    u.drop i rs = { u with own := s.own.revoke rs } := by
  have howned := hinv.owned hle
  rw [← hown] at howned ⊢
  rw [Sys.drop, howned, Bool.not_true, Bool.or_false]

theorem Inv.keep (hinv : Inv proc C barSize s)
    (heq : heldBy proc i h pc = heldBy proc i (s.client i).handle (s.client i).pc) :
    Balanced s.own (Function.update (held proc s) (some i) (heldBy proc i h pc)) := by
  have hsame : Function.update (held proc s) (some i) (heldBy proc i h pc) = held proc s := by
    rw [heq]
    exact Function.update_eq_self (some i) (held proc s)
  rw [hsame]
  exact hinv.balanced

theorem Inv.grant (hinv : Inv proc C barSize s) {r : Res} (hfree : s.own r = none)
    (heq : heldBy proc i h pc =
      heldBy proc i (s.client i).handle (s.client i).pc + ([r] : List Res)) :
    Balanced (s.own.grant (some i) [r])
      (Function.update (held proc s) (some i) (heldBy proc i h pc)) := by
  apply hinv.balanced.grant
  · simpa using hfree
  · simp
  · rw [Function.update_self, heq]
    rfl
  · intro o ho
    exact Function.update_of_ne ho _ _

theorem Inv.revoke (hinv : Inv proc C barSize s)
    (heq : heldBy proc i (s.client i).handle (s.client i).pc = heldBy proc i h pc + rs) :
    Balanced (s.own.revoke rs)
      (Function.update (held proc s) (some i) (heldBy proc i h pc)) := by
  apply hinv.balanced.revoke (o := some i)
  · rw [Function.update_self, ← heq]
    rfl
  · intro o ho
    exact Function.update_of_ne ho _ _

theorem backs_of_remove {p lo len : ℕ} (hback : backs (remove space p lo len) i t = true) :
    backs space i t = true := by
  obtain ⟨e, he, heq⟩ := backs_eq_true_iff.mp hback
  obtain ⟨x, hx, hsame, -⟩ := exists_of_mem_remove he
  exact backs_eq_true_iff.mpr ⟨x, hx, hsame ▸ heq⟩

theorem lost_eq_nil (hsame : ∀ t, backs space' j t = backs space j t) :
    lost space space' j = [] := by
  simp [lost, hsame]

/-- The destructors that run leave just the regions that still have a mapping marked. -/
theorem unmapRange_sc {original sealedCap : Cap} {base len : ℕ}
    (hsc : s.sc i = view barSize original sealedCap (backs s.space i) off) :
    (s.unmapRange proc i base len).sc i =
      view barSize original sealedCap (backs (s.unmapRange proc i base len).space i) off := by
  simp only [Sys.unmapRange, lost, hsc, foldl_pagerDtor_view]
  congr 1
  funext t
  have hmem : t ∈ VmMapType.all := by cases t <;> decide
  cases hafter : backs (remove s.space (proc i) base len) i t with
  | true => simp [backs_of_remove hafter, hafter]
  | false => cases hbefore : backs s.space i t <;> simp [hbefore, hafter, hmem]

/-- What unmapping one of its own mappings does for a handle. -/
structure Unmaps (proc : ι → ℕ) (i : ι) (e : Entry (Backing ι)) (s u : Sys ι Cap) : Prop where
  frame : Frame proc i s u
  own : u.own = s.own
  stray : u.stray = s.stray
  apart : Apart u.space
  space : ∀ x, x ∈ u.space ↔ x ∈ s.space ∧ x ≠ e
  found : ∀ p a, lookup u.space p a = true → lookup s.space p a = true

theorem unmaps_unmapRange (hapart : Apart s.space) {base : ℕ}
    (he : regionEntry proc barSize i t base ∈ s.space) :
    Unmaps proc i (regionEntry proc barSize i t base) s
      (s.unmapRange proc i base (getBufferSize barSize t.toInt)) := by
  have hspace : ∀ x, x ∈ (s.unmapRange proc i base (getBufferSize barSize t.toInt)).space ↔
      x ∈ s.space ∧ x ≠ regionEntry proc barSize i t base := fun x => hapart.mem_remove_iff he
  have hentries : ∀ j, j ≠ i → ∀ e u, e.backing = .region j u →
      (e ∈ (s.unmapRange proc i base (getBufferSize barSize t.toInt)).space ↔ e ∈ s.space) := by
    intro j hj e u hback
    rw [hspace e, and_iff_left_iff_imp]
    rintro - rfl
    have hij : i = j := (Backing.region.inj hback).1
    exact hj hij.symm
  refine ⟨⟨rfl, rfl, rfl, fun j hj => ?_, hentries, fun _ _ _ hfound => lookup_of_remove hfound⟩,
    rfl, ?_, hapart.remove, hspace, fun _ _ hfound => lookup_of_remove hfound⟩
  · have hnone := lost_eq_nil fun u => congrFun (backs_congr (hentries j hj)) u
    simp only [Sys.unmapRange] at hnone ⊢
    rw [hnone]
    rfl
  · -- what the range meets is the mapping itself
    have hown : (s.space.any fun e => decide (e.Meets (proc i) base
        (getBufferSize barSize t.toInt)) && !e.backing.isOf i) = false := by
      rw [List.any_eq_false]
      intro e hmem
      simp only [Bool.and_eq_true, decide_eq_true_eq, Bool.not_eq_true', not_and,
        Bool.not_eq_false]
      intro hmeets
      obtain rfl := (hapart e hmem).2 _ he hmeets
      simp [regionEntry, Backing.isOf]
    simp only [Sys.unmapRange, hown, Bool.or_false]

theorem Unmaps.backs_iff {v : VmMapType} {e : Entry (Backing ι)} (hun : Unmaps proc i e s u)
    (hback : e.backing = .region i t) (hne : v ≠ t) :
    backs u.space i v = backs s.space i v := by
  rw [Bool.eq_iff_iff, backs_eq_true_iff, backs_eq_true_iff]
  constructor
  · rintro ⟨x, hx, hxv⟩
    exact ⟨x, ((hun.space x).mp hx).1, hxv⟩
  · rintro ⟨x, hx, hxv⟩
    refine ⟨x, (hun.space x).mpr ⟨hx, ?_⟩, hxv⟩
    rintro rfl
    rw [hback] at hxv
    exact hne (Backing.region.inj hxv).2.symm

/-- Unmapping leaves no mapping of the region, and nothing at its offset. -/
theorem Recorded.unmap (hapart : Apart s.space) (hr : Recorded proc barSize i s.space off)
    (he : regionEntry proc barSize i t (off t) ∈ s.space)
    (hun : Unmaps proc i (regionEntry proc barSize i t (off t)) s u) :
    Recorded proc barSize i u.space off ∧ backs u.space i t = false := by
  refine ⟨⟨fun x hx v hv => hr.entries x ((hun.space x).mp hx).1 v hv, fun v hv hbackv => ?_⟩, ?_⟩
  · rw [← Bool.not_eq_true]
    intro hfound
    by_cases hvt : v = t
    · -- what covers its offset overlaps the mapping that is gone
      subst hvt
      obtain ⟨x, hx, hproc, hlo, hhi⟩ := lookup_eq_true_iff.mp hfound
      obtain ⟨hxs, hxne⟩ := (hun.space x).mp hx
      have hpos := (hapart _ he).1
      apply hxne
      apply (hapart x hxs).2 _ he
      refine ⟨hproc, ?_, hhi⟩
      simp only [regionEntry] at hpos ⊢
      omega
    · have hnot := hr.stale v hv (by rw [← hun.backs_iff rfl hvt, hbackv])
      rw [hun.found _ _ hfound] at hnot
      cases hnot
  · rw [← Bool.not_eq_true]
    intro hstill
    obtain ⟨x, hx, hxt⟩ := backs_eq_true_iff.mp hstill
    obtain ⟨hxs, hxne⟩ := (hun.space x).mp hx
    exact hxne (hr.entries x hxs t hxt).1

/-- A revocation under way. -/
structure Revoking (proc : ι → ℕ) (C : Ops Cap) (barSize : ℕ) (i : ι) (s u : Sys ι Cap)
    (off : VmMapType → ℕ) : Prop where
  frame : Frame proc i s u
  own : u.own = s.own
  stray : u.stray = s.stray
  apart : Apart u.space
  sc : u.sc i = view barSize C.null C.null (backs u.space i) off
  recorded : Recorded proc barSize i u.space off

/-- The offset of a region is cleared once its mapping is gone. -/
theorem Revoking.cleared (hr : Revoking proc C barSize i s u off)
    (hback : backs u.space i t = false) :
    Revoking proc C barSize i s (u.setSc i (clearOffset (u.sc i) (slot t)))
      (Function.update off t 0) := by
  refine ⟨hr.frame.trans (.setSc u _), hr.own, hr.stray, hr.apart, ?_, fun e he v hv => ?_,
    fun v hv hbackv => ?_⟩
  · simp only [Sys.setSc, Function.update_self, hr.sc, clearOffset_view]
  · have hne : v ≠ t := by
      rintro rfl
      have htrue := backs_eq_true_iff.mpr ⟨e, he, hv⟩
      rw [show (u.setSc i _).space = u.space from rfl, hback] at htrue
      cases htrue
    rw [Function.update_of_ne hne]
    exact hr.recorded.entries e he v hv
  · have hne : v ≠ t := by
      rintro rfl
      simp at hv
    rw [Function.update_of_ne hne] at hv ⊢
    exact hr.recorded.stale v hv hbackv

/-- One round of the loop leaves its region without mapping and without offset. -/
theorem Revoking.round (hr : Revoking proc C barSize i s u off) (t : VmMapType) :
    Revoking proc C barSize i s (u.revokeRegion proc i (slot t)) (Function.update off t 0) := by
  have hget : (u.sc i).sharedMemRegs[slot t]? =
      some ⟨t.toInt, off t, getBufferSize barSize t.toInt, backs u.space i t⟩ := by
    rw [hr.sc]
    exact view_getElem? t
  simp only [Sys.revokeRegion, hget]
  by_cases hoff : off t = 0
  · rw [if_neg (by simpa using hoff)]
    have hsame : Function.update off t 0 = off := by rw [← hoff, Function.update_eq_self]
    rw [hsame]
    exact hr
  rw [if_pos hoff]
  cases hback : backs u.space i t with
  | false =>
    rw [hr.recorded.stale t hoff hback]
    exact hr.cleared hback
  | true =>
    obtain ⟨e, he, heback⟩ := backs_eq_true_iff.mp hback
    obtain ⟨rfl, -⟩ := hr.recorded.entries e he t heback
    have hfound : lookup u.space (proc i) (off t) = true := by
      apply lookup_eq_true_iff.mpr
      have hpos := (hr.apart _ he).1
      refine ⟨_, he, rfl, ?_, ?_⟩
      · exact Nat.lt_succ_self _
      · exact Nat.lt_add_of_pos_right hpos
    have hun := unmaps_unmapRange hr.apart he
    obtain ⟨hrecorded, hgone⟩ := hr.recorded.unmap hr.apart he hun
    rw [hfound, if_pos rfl]
    apply Revoking.cleared _ hgone
    exact ⟨hr.frame.trans hun.frame, hun.own.trans hr.own, hun.stray.trans hr.stray, hun.apart,
      unmapRange_sc hr.sc, hrecorded⟩

theorem Revoking.rounds (ts : List VmMapType) (hr : Revoking proc C barSize i s u off) :
    ∃ off', Revoking proc C barSize i s
        (ts.foldl (fun u t => u.revokeRegion proc i (slot t)) u) off' ∧
      (∀ t ∈ ts, off' t = 0) ∧ ∀ t, off t = 0 → off' t = 0 := by
  induction ts generalizing u off with
  | nil => exact ⟨off, hr, by simp, fun _ h => h⟩
  | cons t ts ih =>
    obtain ⟨off', hr', hdone, hkept⟩ := ih (hr.round t)
    refine ⟨off', hr', ?_, fun v hv => hkept v ?_⟩
    · intro v hv
      rcases List.mem_cons.mp hv with rfl | hv
      · exact hkept v (by simp)
      · exact hdone v hv
    · by_cases hvt : v = t
      · subst hvt
        simp
      · rw [Function.update_of_ne hvt, hv]

/-- Revocation closes the device: no token, no mapping, no offset. -/
theorem revoke_closes {original sealedCap : Cap} (hapart : Apart s.space)
    (hsc : s.sc i = view barSize original sealedCap (backs s.space i) off)
    (hrecorded : Recorded proc barSize i s.space off) :
    Frame proc i s (s.revoke proc i C) ∧ (s.revoke proc i C).own = s.own ∧
      (s.revoke proc i C).stray = s.stray ∧ Apart (s.revoke proc i C).space ∧
      Closed C barSize i ((s.revoke proc i C).sc i) (s.revoke proc i C).space := by
  have hfirst : Revoking proc C barSize i s (s.setSc i (clearCapToken C (s.sc i))) off := by
    refine ⟨.setSc s _, rfl, rfl, hapart, ?_, hrecorded⟩
    simp only [Sys.setSc, Function.update_self, hsc, clearCapToken_view]
  obtain ⟨off', hr, hdone, -⟩ := hfirst.rounds VmMapType.all
  have hall : s.revoke proc i C = VmMapType.all.foldl
      (fun u t => u.revokeRegion proc i (slot t)) (s.setSc i (clearCapToken C (s.sc i))) := by
    rw [Sys.revoke, hsc, view_regs_length, range_eq_slots, List.foldl_map]
  rw [hall]
  have hzero : off' = fun _ => 0 := funext fun t => hdone t (by cases t <;> decide)
  have hbacks : ∀ t, backs (VmMapType.all.foldl (fun u t => u.revokeRegion proc i (slot t))
      (s.setSc i (clearCapToken C (s.sc i)))).space i t = false := by
    intro t
    rw [← Bool.not_eq_true]
    intro hback
    obtain ⟨e, he, heback⟩ := backs_eq_true_iff.mp hback
    exact (hr.recorded.entries e he t heback).2 (by rw [hzero])
  refine ⟨hr.frame, hr.own, hr.stray, hr.apart, ?_, hbacks⟩
  rw [hr.sc, hzero, funext hbacks]

end

end Sfc7120.Capio.Userlib

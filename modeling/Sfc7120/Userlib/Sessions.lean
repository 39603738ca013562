import Sfc7120.Userlib.Opening

/-! Sessions of the user library give back what they take. Whatever the operating system refuses
and wherever it does, a handle that is closed holds nothing and its device is as attach left it; a
handle that is open holds all it needs; and nothing is used or released that is not held. -/
namespace Sfc7120.Capio.Userlib

open Sealing Machine AddressMap Ownership

section
variable {ι Cap : Type*} [DecidableEq ι] {proc : ι → ℕ} {C : Ops Cap} {barSize : ℕ} {i j : ι}
  {s u : Sys ι Cap} {h : Handle Cap} {t : VmMapType} {ts : List VmMapType}

/-- A mapping the handle records is removed from the process and from the driver's view of it. -/
theorem Unmapping.unmapped {m : ℕ × ℕ} (hapart : Apart s.space)
    (hu : Unmapping proc C barSize i (s.sc i) s.space h (t :: ts))
    (hrec : h.regionMaps t = some m) :
    Unmaps proc i (regionEntry proc barSize i t m.1) s (s.unmapRange proc i m.1 m.2) ∧
      Unmapping proc C barSize i ((s.unmapRange proc i m.1 m.2).sc i)
        (s.unmapRange proc i m.1 m.2).space
        { h with regionMaps := Function.update h.regionMaps t none } ts := by
  obtain ⟨-, hlen, hentry⟩ := hu.records t m hrec
  rw [hlen]
  have hun := unmaps_unmapRange hapart hentry
  refine ⟨hun, hu.fd, fun v x (hx : Function.update h.regionMaps t none v = some x) => ?_, ?_⟩
  · have hne : v ≠ t := by
      rintro rfl
      simp at hx
    rw [Function.update_of_ne hne] at hx
    obtain ⟨hmem, hxlen, hxentry⟩ := hu.records v x hx
    refine ⟨(List.mem_cons.mp hmem).resolve_left hne, hxlen, (hun.space _).mpr ⟨hxentry, ?_⟩⟩
    intro heq
    exact hne (Backing.region.inj (congrArg Entry.backing heq)).2
  · rcases hu.session with hc | ⟨off, ho, hr⟩
    · have hnone := hc.unmapped t
      rw [backs_eq_true_iff.mpr ⟨_, hentry, rfl⟩] at hnone
      cases hnone
    · obtain ⟨heq, -⟩ := hr.entries _ hentry t rfl
      have hbase : m.1 = off t := congrArg Entry.start heq
      rw [hbase] at hun hentry ⊢
      obtain ⟨hr', -⟩ := hr.unmap hapart hentry hun
      exact .inr ⟨off, ⟨ho.valid, ho.token, unmapRange_sc ho.sc, hr'.entries⟩, hr'⟩

/-- An open handle has every region mapped whole. -/
theorem Mapping.region (hm : Mapping proc C barSize i (s.sc i) s.space h []) (t : VmMapType) :
    ∃ base, h.regionMaps t = some (base, getBufferSize barSize t.toInt) ∧
      regionEntry proc barSize i t base ∈ s.space ∧
      (t ≠ .mmioRegion → h.buffers t = some base) := by
  obtain ⟨off, ho, -, hmapped⟩ := hm.session
  obtain ⟨hback, hrec, hbuffer⟩ := hmapped t (by simp)
  obtain ⟨e, he, heback⟩ := backs_eq_true_iff.mp hback
  obtain ⟨rfl, -⟩ := ho.entries e he t heback
  exact ⟨off t, hrec, he, hbuffer⟩

theorem Mapping.reaches (hm : Mapping proc C barSize i (s.sc i) s.space h []) :
    s.reaches proc i h = true := by
  rw [Sys.reaches, List.all_eq_true]
  intro t _
  obtain ⟨base, hrec, hentry, -⟩ := hm.region t
  rw [hrec, Option.all_some, List.any_eq_true]
  exact ⟨_, hentry, by simp [regionEntry]⟩

/-- Entries of the rest of the processes come and go without touching a handle's. -/
theorem Inv.elsewhere (hinv : Inv proc C barSize s) {space : List (Entry (Backing ι))} {p : ℕ}
    (hidle : s.running p = none) (hapart : Apart space)
    (hentries : ∀ i e t, e.backing = .region i t → (e ∈ space ↔ e ∈ s.space))
    (hlookup : ∀ q, q ≠ p → ∀ a, lookup space q a = true → lookup s.space q a = true) :
    Inv proc C barSize { s with space := space } := by
  refine ⟨hinv.stray, hinv.balanced, hapart, fun i => ?_, hinv.running⟩
  apply (hinv.place i).congr (hentries i)
  intro hbusy
  apply hlookup
  rintro rfl
  rw [(hinv.running i).mp hbusy] at hidle
  cases hidle

theorem Inv.others (hinv : Inv proc C barSize s) {own : Holdings Res (Option ι)} {others : List Res}
    (hbalanced : Balanced own (held proc { s with own := own, others := others })) :
    Inv proc C barSize { s with own := own, others := others } :=
  ⟨hinv.stray, hbalanced, hinv.apart, hinv.place, hinv.running⟩

end

section
variable {ι Cap : Type*} [DecidableEq ι] [DecidableEq Cap] {proc : ι → ℕ} {C : Ops Cap}
  {barSize : ℕ} {i j : ι} {s u : Sys ι Cap} {h : Handle Cap} {ts : List VmMapType}

theorem Inv.unmap (hinv : Inv proc C barSize s) {a : Ans Cap}
    (hcl : s.client i = ⟨h, .destroying (.unmap ts)⟩)
    (hstep : s.destroyStep proc i C h (.unmap ts) a = some u) : Inv proc C barSize u := by
  have hu : Unmapping proc C barSize i (s.sc i) s.space h ts := hinv.placed hcl
  have hheld : ∀ h' : Handle Cap, ∀ p : DestroyPc, p = .syncRptr ∨ (∃ ts, p = .unmap ts) →
      h'.fd = h.fd → h'.modmapFd = h.modmapFd → h'.capToken = h.capToken →
      h'.mmioSlices = h.mmioSlices →
      heldBy proc i h' (.destroying p) = heldBy proc i h (.destroying (.unmap ts)) := by
    rintro h' p hp hfd hmodmap htoken hslices
    rw [heldBy, heldBy, hfd, hmodmap, htoken, hslices]
    rcases hp with rfl | ⟨ts', rfl⟩ <;> rfl
  cases ts with
  | nil =>
    cases a with
    | ok =>
      obtain rfl := Option.some.inj hstep
      apply hinv.goto hcl rfl
      · exact ⟨hu.of_handle rfl rfl rfl fun t m hm => ⟨(hu.records t m hm).1, hm⟩, fun _ => rfl⟩
      · exact hheld _ _ (.inl rfl) rfl rfl rfl rfl
    | failed | descriptor | memory | place => simp [Sys.destroyStep] at hstep
  | cons t ts =>
    have hrest : ∀ m, Function.update h.regionMaps t none = m → Unmapping proc C barSize i (s.sc i)
        s.space { h with regionMaps := m } ts := by
      rintro m rfl
      refine hu.of_handle rfl rfl rfl ?_
      intro v x (hx : Function.update h.regionMaps t none v = some x)
      have hne : v ≠ t := by
        rintro rfl
        simp at hx
      rw [Function.update_of_ne hne] at hx
      exact ⟨(List.mem_cons.mp (hu.records v x hx).1).resolve_left hne, hx⟩
    simp only [Sys.destroyStep] at hstep
    cases hrec : h.regionMaps t with
    | none =>
      rw [hrec] at hstep
      cases a with
      | ok =>
        obtain rfl := Option.some.inj hstep
        apply hinv.goto hcl rfl
        · exact hrest h.regionMaps (by rw [← hrec, Function.update_eq_self])
        · exact hheld h _ (.inr ⟨ts, rfl⟩) rfl rfl rfl rfl
      | failed | descriptor | memory | place => simp at hstep
    | some m =>
      rw [hrec] at hstep
      cases a with
      | ok =>
        obtain rfl := Option.some.inj hstep
        obtain ⟨hun, hnext⟩ := hu.unmapped hinv.apart hrec
        apply hinv.enter hcl rfl hun.frame hun.own hun.stray hun.apart
        · exact hnext
        · exact hheld _ _ (.inr ⟨ts, rfl⟩) rfl rfl rfl rfl
      | failed =>
        obtain rfl := Option.some.inj hstep
        apply hinv.goto hcl rfl
        · exact hrest _ rfl
        · exact hheld _ _ (.inr ⟨ts, rfl⟩) rfl rfl rfl rfl
      | descriptor | memory | place => simp at hstep

/-- GOODBYE closes the session, if there is one. -/
theorem Inv.goodbye (hC : Lawful C) (hinv : Inv proc C barSize s) {a : Ans Cap}
    (hcl : s.client i = ⟨h, .destroying .goodbye⟩)
    (hstep : s.destroyStep proc i C h .goodbye a = some u) : Inv proc C barSize u := by
  obtain ⟨hu, hbuffers⟩ : Unmapping proc C barSize i (s.sc i) s.space h [] ∧ _ := hinv.placed hcl
  have hmaps : ∀ t, h.regionMaps t = none := by
    intro t
    cases hrec : h.regionMaps t with
    | none => rfl
    | some m => exact absurd (hu.records t m hrec).1 (by simp)
  have htouch : s.touch i (fdOf proc i h.fd) = s :=
    hinv.touch (by rw [hcl]; exact fd_le_heldBy rfl)
  have hheld : heldBy proc i h (.destroying .freeSlices) = heldBy proc i h (.destroying .goodbye) :=
    rfl
  cases a with
  | ok =>
    simp only [Sys.destroyStep, htouch, hu.fd, if_true] at hstep
    rcases hu.session with hc | ⟨off, ho, hr⟩
    · rw [hc.sc, checkCapToken_closed hC] at hstep
      obtain rfl := Option.some.inj hstep
      exact hinv.goto hcl rfl ⟨hc, hbuffers, hmaps⟩ hheld
    · have hcheck : checkCapToken C (s.sc i) h.sealedCap = none := by
        rw [ho.sc, ho.token]
        exact checkCapToken_opened hC ho.valid
      rw [hcheck] at hstep
      obtain rfl := Option.some.inj hstep
      obtain ⟨hframe, hown, hstray, hapart, hc⟩ := revoke_closes (C := C) hinv.apart ho.sc hr
      exact hinv.enter hcl rfl hframe hown hstray hapart ⟨hc, hbuffers, hmaps⟩ hheld
  | failed | descriptor | memory | place => simp [Sys.destroyStep] at hstep

theorem Inv.freeing (hinv : Inv proc C barSize s) {a : Ans Cap} {p : DestroyPc}
    (hp : p = .freeSlices ∨ p = .freeToken ∨ p = .closeModmap)
    (hcl : s.client i = ⟨h, .destroying p⟩)
    (hstep : s.destroyStep proc i C h p a = some u) : Inv proc C barSize u := by
  have hat := hinv.placed hcl
  rcases hp with rfl | rfl | rfl
  · obtain ⟨hc, hbuffers, hmaps⟩ := hat
    cases a with
    | ok =>
      obtain rfl := Option.some.inj hstep
      apply hinv.release hcl rfl (.refl s) rfl rfl hinv.apart
      · refine ⟨hc, ?_, ?_, ?_⟩
        · split_ifs <;> exact hbuffers
        · split_ifs with hslices
          · rfl
          · exact Option.not_isSome_iff_eq_none.mp hslices
        · split_ifs <;> exact hmaps
      · cases hslices : h.mmioSlices <;>
          simp [heldBy, Pc.devLive, Pc.modmapLive, Pc.pending, blockOf, hslices]
    | failed | descriptor | memory | place => simp [Sys.destroyStep] at hstep
  · obtain ⟨hc, hblank⟩ := hat
    cases a with
    | ok =>
      obtain rfl := Option.some.inj hstep
      apply hinv.release hcl rfl (.refl s) rfl rfl hinv.apart
      · exact ⟨hc, ⟨hblank.buffers, hblank.slices, hblank.regionMaps⟩, rfl⟩
      · simp [heldBy, Pc.devLive, Pc.modmapLive, Pc.pending, blockOf, hblank.slices]
    | failed | descriptor | memory | place => simp [Sys.destroyStep] at hstep
  · cases a with
    | ok =>
      obtain rfl := Option.some.inj hstep
      apply hinv.release hcl rfl (.refl s) rfl rfl hinv.apart
      · exact hat
      · simp [heldBy, Pc.devLive, Pc.modmapLive, Pc.pending, hat.2.1.slices, hat.2.2, blockOf]
    | failed | descriptor | memory | place => simp [Sys.destroyStep] at hstep

theorem Inv.closeFd (hinv : Inv proc C barSize s) {a : Ans Cap}
    (hcl : s.client i = ⟨h, .destroying .closeFd⟩)
    (hstep : s.destroyStep proc i C h .closeFd a = some u) : Inv proc C barSize u := by
  obtain ⟨hc, hblank, htoken⟩ := hinv.placed hcl
  have hheld : heldBy proc i h (.destroying .closeFd) =
      heldBy proc i h .idle + (fdOf proc i h.fd : List Res) := by
    simp [heldBy, Pc.devLive, Pc.modmapLive, Pc.pending, hblank.slices, htoken, blockOf]
  cases a with
  | ok =>
    obtain rfl := Option.some.inj hstep
    have hnone : ∀ t, backs s.space i t = false := hc.unmapped
    have hsc : s.sc i = view barSize C.null C.null (backs s.space i) fun _ => 0 := by
      rw [hc.sc, funext hnone]
    obtain ⟨hframe, hown, hstray, hapart, hclosed⟩ :=
      revoke_closes (C := C) hinv.apart hsc hc.recorded
    split_ifs
    · exact hinv.release hcl rfl hframe hown hstray hapart ⟨hclosed, hblank, htoken⟩ hheld
    · exact hinv.release hcl rfl (.refl s) rfl rfl hinv.apart ⟨hc, hblank, htoken⟩ hheld
  | failed | descriptor | memory | place => simp [Sys.destroyStep] at hstep

/-- Every step of `sfc7120_destroy`. -/
theorem Inv.destroyStep (hC : Lawful C) (hinv : Inv proc C barSize s) {a : Ans Cap}
    {p : DestroyPc} (hcl : s.client i = ⟨h, .destroying p⟩)
    (hstep : s.destroyStep proc i C h p a = some u) : Inv proc C barSize u := by
  cases p with
  | unmap ts => exact hinv.unmap hcl hstep
  | syncRptr =>
    cases a with
    | ok =>
      have htouch : s.touch i (if h.viInfoValid && h.usedPoll then fdOf proc i h.fd else []) =
          s := by
        apply hinv.touch
        rw [hcl]
        split_ifs
        · exact fd_le_heldBy rfl
        · exact Multiset.zero_le _
      simp only [Sys.destroyStep, htouch] at hstep
      obtain rfl := Option.some.inj hstep
      obtain ⟨hu, hbuffers⟩ := hinv.placed hcl
      exact hinv.goto hcl rfl ⟨hu, hbuffers⟩ rfl
    | failed | descriptor | memory | place => simp [Sys.destroyStep] at hstep
  | goodbye => exact hinv.goodbye hC hcl hstep
  | freeSlices => exact hinv.freeing (.inl rfl) hcl hstep
  | freeToken => exact hinv.freeing (.inr (.inl rfl)) hcl hstep
  | closeModmap => exact hinv.freeing (.inr (.inr rfl)) hcl hstep
  | closeFd => exact hinv.closeFd hcl hstep

theorem Inv.step (hC : Lawful C) (hbar : 0 < barSize) (hinv : Inv proc C barSize s)
    {a : Act ι Cap} (hstep : step proc C barSize s a = some u) : Inv proc C barSize u := by
  cases a with
  | init i =>
    simp only [Userlib.step] at hstep
    split_ifs at hstep with hidle
    obtain rfl := Option.some.inj hstep
    have hcl : s.client i = ⟨(s.client i).handle, .idle⟩ := by rw [← hidle.1]
    obtain ⟨hc, hblank, htoken⟩ := hinv.placed hcl
    apply hinv.move (.inl hidle.2) (.refl s) hinv.stray hinv.apart
    · apply hinv.keep
      rw [hcl]
      simp [heldBy, Handle.reset, Pc.devLive, Pc.modmapLive, Pc.pending, fdOf, blockOf, htoken,
        hblank.slices]
    · exact ⟨hc, ⟨fun _ => rfl, rfl, fun _ => rfl⟩, htoken, rfl, rfl⟩
  | destroy i =>
    simp only [Userlib.step] at hstep
    split_ifs at hstep with hopen
    obtain rfl := Option.some.inj hstep
    have hcl : s.client i = ⟨(s.client i).handle, .opened⟩ := by rw [← hopen.1]
    have hm : Mapping proc C barSize i (s.sc i) s.space (s.client i).handle [] := hinv.placed hcl
    apply hinv.move (.inl hopen.2) (.refl s) hinv.stray hinv.apart
    · apply hinv.keep
      rw [hopen.1]
      rfl
    · exact hm.unmapping
  | session i polls =>
    simp only [Userlib.step] at hstep
    split_ifs at hstep with hopen
    obtain rfl := Option.some.inj hstep
    have hcl : s.client i = ⟨(s.client i).handle, .opened⟩ := by rw [← hopen.1]
    have hm : Mapping proc C barSize i (s.sc i) s.space (s.client i).handle [] := hinv.placed hcl
    have htouch : s.touch i (fdOf proc i (s.client i).handle.fd ++
        blockOf proc i (s.client i).handle.mmioSlices) = s := by
      apply hinv.touch
      rw [hopen.1]
      exact session_le_heldBy rfl
    rw [htouch, hm.reaches, Bool.not_true, Bool.or_false]
    apply hinv.move (.inl hopen.2) (.refl s) hinv.stray hinv.apart
    · apply hinv.keep
      rw [hopen.1]
      rfl
    · exact hm.of_handle rfl rfl rfl rfl rfl rfl rfl rfl
  | call i a =>
    simp only [Userlib.step] at hstep
    cases hpc : (s.client i).pc with
    | idle | opened => simp [hpc] at hstep
    | initing p =>
      rw [hpc] at hstep
      have hcl : s.client i = ⟨(s.client i).handle, .initing p⟩ := by rw [← hpc]
      exact (hinv.initStep hC hbar hcl hstep).1
    | destroying p =>
      rw [hpc] at hstep
      have hcl : s.client i = ⟨(s.client i).handle, .destroying p⟩ := by rw [← hpc]
      exact hinv.destroyStep hC hcl hstep
  | othersTake r =>
    simp only [Userlib.step] at hstep
    split_ifs at hstep with hfree
    obtain rfl := Option.some.inj hstep
    apply hinv.others
    apply hinv.balanced.grant
    · simpa using hfree.1
    · simp
    · change ((r :: s.others : List Res) : Multiset Res) = s.others + ([r] : List Res)
      rw [Multiset.add_comm]
      rfl
    · intro o ho
      cases o with
      | none => exact absurd rfl ho
      | some i => rfl
  | othersDrop r =>
    simp only [Userlib.step] at hstep
    split_ifs at hstep with hheld
    obtain rfl := Option.some.inj hstep
    apply hinv.others
    apply hinv.balanced.revoke (o := none)
    · change (s.others : Multiset Res) = (s.others.erase r : List Res) + ([r] : List Res)
      rw [Multiset.add_comm]
      exact Multiset.coe_eq_coe.mpr (List.perm_cons_erase hheld.1)
    · intro o ho
      cases o with
      | none => exact absurd rfl ho
      | some i => rfl
  | mapOther p start len =>
    simp only [Userlib.step] at hstep
    split_ifs at hstep with hfree
    obtain ⟨hlen, hfree, hidle⟩ := hfree
    obtain rfl := Option.some.inj hstep
    apply hinv.elsewhere hidle
    · exact hinv.apart.cons hlen hfree
    · intro i e t hback
      rw [List.mem_cons, or_iff_right]
      rintro rfl
      cases hback
    · intro q hq a hfound
      obtain ⟨e, he, hmeets⟩ := lookup_eq_true_iff.mp hfound
      rcases List.mem_cons.mp he with rfl | he
      · exact absurd hmeets.1.symm hq
      · exact lookup_eq_true_iff.mpr ⟨e, he, hmeets⟩
  | unmapOther p start len =>
    simp only [Userlib.step] at hstep
    split_ifs at hstep with hother
    obtain ⟨hother, hidle⟩ := hother
    obtain rfl := Option.some.inj hstep
    apply hinv.elsewhere hidle
    · exact hinv.apart.remove
    · intro i e t hback
      constructor
      · intro he
        obtain ⟨x, hx, hclip⟩ := List.mem_flatMap.mp he
        by_cases hmeets : x.Meets p start len
        · obtain ⟨-, hsame, -⟩ := Entry.mem_clip hclip (hinv.apart x hx).1
          rw [hsame, hother x hx hmeets] at hback
          cases hback
        · rw [Entry.clip, if_neg hmeets, List.mem_singleton] at hclip
          rwa [hclip]
      · intro he
        apply mem_remove_of_not_meets he
        intro hmeets
        rw [hother e he hmeets] at hback
        cases hback
    · exact fun q _ a hfound => lookup_of_remove hfound

/-- The calls a destructor has left to make. -/
def DestroyPc.left : DestroyPc → ℕ
  | .unmap ts => ts.length + 7
  | .syncRptr => 6
  | .goodbye => 5
  | .freeSlices => 4
  | .freeToken => 3
  | .closeModmap => 2
  | .closeFd => 1

theorem destroy_goes_on (proc : ι → ℕ) (C : Ops Cap) (barSize : ℕ) {p : DestroyPc}
    (hpc : (s.client i).pc = .destroying p) :
    ∃ u, Userlib.step proc C barSize s (.call i .ok) = some u ∧
      ((∃ q, (u.client i).pc = .destroying q ∧ p.left = q.left + 1) ∨
        (u.client i).pc = .idle ∧ p.left = 1) := by
  simp only [Userlib.step, hpc]
  cases p with
  | unmap ts =>
    cases ts with
    | nil => exact ⟨_, rfl, .inl ⟨_, set_pc, rfl⟩⟩
    | cons t ts =>
      simp only [Sys.destroyStep]
      cases (s.client i).handle.regionMaps t with
      | none => exact ⟨_, rfl, .inl ⟨_, set_pc, rfl⟩⟩
      | some m => exact ⟨_, rfl, .inl ⟨_, set_pc, rfl⟩⟩
  | closeFd => exact ⟨_, rfl, .inr ⟨set_pc, rfl⟩⟩
  | syncRptr | goodbye | freeSlices | freeToken | closeModmap =>
    exact ⟨_, rfl, .inl ⟨_, set_pc, rfl⟩⟩

/-- A destructor that has begun comes to its end. -/
theorem destroy_finishes (proc : ι → ℕ) (C : Ops Cap) (barSize : ℕ) {n : ℕ} {p : DestroyPc}
    (hpc : (s.client i).pc = .destroying p) (hn : p.left = n) : ∃ u,
    run (Userlib.step proc C barSize) s (List.replicate n (.call i .ok)) = some u ∧
      (u.client i).pc = .idle := by
  induction n generalizing s p with
  | zero => cases p <;> simp [DestroyPc.left] at hn
  | succ n ih =>
    obtain ⟨u, hstep, hnext⟩ := destroy_goes_on proc C barSize hpc
    rw [List.replicate_succ]
    rcases hnext with ⟨q, hq, hleft⟩ | ⟨hidle, hone⟩
    · obtain ⟨v, hv, hvidle⟩ := ih hq (by omega)
      exact ⟨v, run_cons.mpr ⟨u, hstep, hv⟩, hvidle⟩
    · obtain rfl : n = 0 := by omega
      exact ⟨u, run_cons.mpr ⟨u, hstep, rfl⟩, hidle⟩

end

section
variable {ι Cap : Type*} [DecidableEq ι] (proc : ι → ℕ) (C : Ops Cap) (barSize : ℕ) (i : ι)

/-- A closed handle: it owns nothing, no address is backed by its device, the device is as attach
left it, and no pointer is left. -/
structure Returned (s : Sys ι Cap) : Prop where
  resources : ∀ r, s.own r ≠ some (some i)
  mappings : ∀ e ∈ s.space, ∀ t, e.backing ≠ .region i t
  device : s.sc i = (Capio.start C (smem barSize)).sc
  pointers : (s.client i).handle.Blank ∧ (s.client i).handle.capToken = none

/-- An open handle: its two descriptors and two blocks, which are all it owns, every region mapped
whole and recorded, and a token that passes its check. -/
structure Equipped [DecidableEq Cap] (s : Sys ι Cap) : Prop where
  resources : ∃ n m p q, (s.client i).handle.fd = some n ∧ (s.client i).handle.modmapFd = some m ∧
    (s.client i).handle.capToken = some p ∧ (s.client i).handle.mmioSlices = some q ∧
    m ≠ n ∧ q ≠ p ∧ ∀ r, s.own r = some (some i) ↔
      r = .fd (proc i) n ∨ r = .fd (proc i) m ∨ r = .block (proc i) p ∨ r = .block (proc i) q
  regions : ∀ t, ∃ base,
    (s.client i).handle.regionMaps t = some (base, getBufferSize barSize t.toInt) ∧
    ⟨proc i, base, getBufferSize barSize t.toInt, .region i t⟩ ∈ s.space ∧
    (t ≠ .mmioRegion → (s.client i).handle.buffers t = some base)
  token : checkCapToken C (s.sc i) (s.client i).handle.sealedCap = none

variable {proc C barSize i} {s : Sys ι Cap}

theorem inv_start (proc : ι → ℕ) (C : Ops Cap) (barSize : ℕ) :
    Inv proc C barSize (start C barSize) where
  stray := rfl
  balanced := by
    intro o r
    cases o <;> simp [held, start, heldBy, Handle.zero, Pc.devLive, Pc.modmapLive, Pc.pending,
      blockOf]
  apart := apart_nil
  place i := ⟨⟨start_eq_view C, fun t => rfl⟩, ⟨fun _ => rfl, rfl, fun _ => rfl⟩, rfl⟩
  running i := by simp [start, Pc.busy]

theorem Inv.returned (hinv : Inv proc C barSize s) (hpc : (s.client i).pc = .idle) :
    Returned C barSize i s := by
  have hcl : s.client i = ⟨(s.client i).handle, .idle⟩ := by rw [← hpc]
  obtain ⟨hc, hblank, htoken⟩ := hinv.placed hcl
  refine ⟨fun r hr => ?_, fun e he t hback => ?_, ?_, hblank, htoken⟩
  · have hmem := hinv.balanced.mem_iff.mpr hr
    simp [held, hpc, heldBy, Pc.devLive, Pc.modmapLive, Pc.pending, blockOf, htoken,
      hblank.slices] at hmem
  · have hnone := hc.unmapped t
    rw [backs_eq_true_iff.mpr ⟨e, he, hback⟩] at hnone
    cases hnone
  · rw [start_eq_view]
    exact hc.sc

theorem Inv.equipped [DecidableEq Cap] (hC : Lawful C) (hinv : Inv proc C barSize s)
    (hpc : (s.client i).pc = .opened) : Equipped proc C barSize i s := by
  have hcl : s.client i = ⟨(s.client i).handle, .opened⟩ := by rw [← hpc]
  have hm : Mapping proc C barSize i (s.sc i) s.space (s.client i).handle [] := hinv.placed hcl
  obtain ⟨n, hn⟩ := Option.isSome_iff_exists.mp hm.fd
  obtain ⟨m, hmod⟩ := Option.isSome_iff_exists.mp hm.modmapFd
  obtain ⟨p, hp⟩ := Option.isSome_iff_exists.mp hm.capToken
  obtain ⟨q, hq⟩ := Option.isSome_iff_exists.mp (hm.slices (by simp))
  have hheld : held proc s (some i) = (([.fd (proc i) n, .fd (proc i) m, .block (proc i) p,
      .block (proc i) q] : List Res) : Multiset Res) := by
    simp only [held, hpc, heldBy, Pc.devLive, Pc.modmapLive, Pc.pending, fdOf, blockOf, hn, hmod,
      hp, hq]
    rfl
  have hnodup := hinv.balanced.nodup (some i)
  rw [hheld, Multiset.coe_nodup] at hnodup
  refine ⟨⟨n, m, p, q, hn, hmod, hp, hq, ?_, ?_, fun r => ?_⟩, hm.region, hm.token hC⟩
  · rintro rfl
    simp at hnodup
  · rintro rfl
    simp at hnodup
  · rw [← hinv.balanced.mem_iff, hheld]
    simp

end

/-- Any number of handles, sessions and failures: nothing is used or released that its user does
not hold; a closed handle has given everything back, its device included; an open one has all it
needs; an init fails only if the operating system refuses it something; a destroy in progress comes
to its end; and the rest of each process keeps what it holds. -/
theorem sessions_give_back {ι Cap : Type*} [DecidableEq ι] [DecidableEq Cap] {proc : ι → ℕ}
    {C : Ops Cap} (hC : Lawful C) {barSize : ℕ} (hbar : 0 < barSize) {acts : List (Act ι Cap)}
    {s : Sys ι Cap} (hrun : run (step proc C barSize) (start C barSize) acts = some s) :
    s.stray = false ∧
      (∀ i, (s.client i).pc = .idle → Returned C barSize i s) ∧
      (∀ i, (s.client i).pc = .opened → Equipped proc C barSize i s) ∧
      (∀ i p a u, (s.client i).pc = .initing p → step proc C barSize s (.call i a) = some u →
        a.granted = true → (u.client i).pc = .opened ∨ ∃ q, (u.client i).pc = .initing q) ∧
      (∀ i p, (s.client i).pc = .destroying p → ∃ u,
        run (step proc C barSize) s (List.replicate p.left (.call i .ok)) = some u ∧
          Returned C barSize i u) ∧
      ∀ r, s.own r = some none ↔ r ∈ s.others := by
  have hkeep : ∀ (s : Sys ι Cap) a u, Inv proc C barSize s → step proc C barSize s a = some u →
      Inv proc C barSize u := fun s a u hs hstep => hs.step hC hbar hstep
  have hinv : Inv proc C barSize s := run_invariant hkeep (inv_start proc C barSize) hrun
  refine ⟨hinv.stray, fun i => hinv.returned, fun i => hinv.equipped hC, ?_, ?_, fun r => ?_⟩
  · intro i p a u hpc hstep hgranted
    have hcl : s.client i = ⟨(s.client i).handle, .initing p⟩ := by rw [← hpc]
    simp only [step, hpc] at hstep
    exact (hinv.initStep hC hbar hcl hstep).2 hgranted
  · intro i p hpc
    obtain ⟨u, hu, hidle⟩ := destroy_finishes proc C barSize hpc rfl
    exact ⟨u, hu, (run_invariant hkeep hinv hu).returned hidle⟩
  · rw [← hinv.balanced.mem_iff]
    exact Multiset.mem_coe

/-- What `malloc` hands out, as a capability. -/
def blockCap (p : ℕ) : MorelloCap := ⟨true, 0, p⟩

/-- One region, from the question for its size to its place. -/
def mapAt (i : Fin 2) (base : ℕ) : List (Act (Fin 2) MorelloCap) :=
  [.call i .ok, .call i (.place ⟨false, true, true, false⟩ (some base))]

/-- Two handles of one process. The first opens; the second finds no room for its RX buffer and
gives up; the first polls and is closed, with one munmap refused. -/
def twoHandles : List (Act (Fin 2) MorelloCap) :=
  [.othersTake (.fd 7 0), .init 0, .call 0 (.descriptor 3), .call 0 (.descriptor 4),
    .call 0 (.memory 0x9000 (blockCap 0x9000)), .call 0 .ok] ++
  mapAt 0 0x100000 ++ mapAt 0 0x200000 ++ mapAt 0 0x300000 ++ mapAt 0 0x301000 ++
  mapAt 0 0x302000 ++
  [.call 0 .ok, .call 0 (.memory 0xa000 (blockCap 0xa000)),
    .call 0 (.place ⟨false, true, true, false⟩ (some 0x303000)), .call 0 .ok, .call 0 .ok,
    .init 1, .call 1 (.descriptor 5), .call 1 (.descriptor 6),
    .call 1 (.memory 0xb000 (blockCap 0xb000)), .call 1 .ok] ++
  mapAt 1 0x400000 ++ [.call 1 .ok, .call 1 (.place ⟨false, true, true, false⟩ none)] ++
  List.replicate 13 (.call 1 .ok) ++
  [.session 0 true, .destroy 0, .call 0 .ok, .call 0 .failed] ++ List.replicate 11 (.call 0 .ok)

theorem sessions_give_back_two :
    ∃ s, run (step (fun _ => 7) (morello 0x1234) 4096) (start (morello 0x1234) 4096) twoHandles =
        some s ∧ s.stray = false ∧ (∀ i, Returned (morello 0x1234) 4096 i s) ∧
      s.own (.fd 7 0) = some none := by
  have hend : (run (step (fun _ => 7) (morello 0x1234) 4096) (start (morello 0x1234) 4096)
      twoHandles).map (fun s => ((s.client 0).pc, (s.client 1).pc, s.others)) =
        some (.idle, .idle, [.fd 7 0]) := by decide +kernel
  obtain ⟨s, hs, hfacts⟩ := Option.map_eq_some_iff.mp hend
  simp only [Prod.mk.injEq] at hfacts
  obtain ⟨hfirst, hsecond, hothers⟩ := hfacts
  obtain ⟨hstray, hreturned, -, -, -, hrest⟩ :=
    sessions_give_back (morello_lawful 0x1234) (by decide) hs
  refine ⟨s, hs, hstray, fun i => hreturned i ?_, (hrest _).mpr (by simp [hothers])⟩
  rcases Fin.exists_fin_two.mp ⟨i, rfl⟩ with rfl | rfl
  · exact hfirst
  · exact hsecond

end Sfc7120.Capio.Userlib

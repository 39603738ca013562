import Sfc7120.Attach.Stages

/-! What the MC still holds when attach has failed: each cleanup label is checked against what
the stages it covers have created by then. -/
namespace Sfc7120.Attach

open ByteMemory Mcdi Ladder

/-- After the release wrapper of `o` ran: its flag is clear, and the MC has dropped it if the
flag was set. -/
structure Released (o : McObject) (w w' : Fw) : Prop where
  mcdi : w'.mcdi = w.mcdi
  flag : w'.flag = Function.update w.flag o false
  held : w'.held = if w.flag o then w.held.erase o else w.held

section
variable {env : Env} {st : St}

theorem releaseOf_spec (hrel : env.ReleasesSucceed) (o : McObject)
    (hm : st.sc.mcdiInitialized = true) : Released o st.fw (releaseOf env o st).1.fw := by
  cases hflag : st.sc.flag o with
  | false =>
    have hw : st.fw.flag o = false := hflag
    have hsame : Function.update st.fw.flag o false = st.fw.flag :=
      Function.update_eq_self_iff.mpr hw.symm
    rw [releaseOf_of_clear hflag]
    exact ⟨rfl, hsame.symm, by rw [hw]; rfl⟩
  | true =>
    have hw : st.fw.flag o = true := hflag
    rw [releaseOf_of_accepted hflag hm (hrel st.held o.releaseOp)]
    refine ⟨?_, o.forgotten_flag st.sc, ?_⟩
    · rcases o with _ | _ | _ | (_ | _) | _ | _ | _ <;> rfl
    · rw [hw]
      rfl

theorem mcdiFini_held (st : St) : (mcdiFini st).held = st.held := by
  have hfree := held_of_fw (freeDmabuf_fw .mcdi st)
  unfold mcdiFini
  split
  next => rfl
  next => exact hfree

/-- A run of release wrappers drops what it names and the driver remembers. -/
theorem foldl_releaseOf (hrel : env.ReleasesSucceed) (os : List McObject) :
    ∀ st : St, st.sc.mcdiInitialized = true → ∀ p,
      p ∈ (os.foldl (fun st o => (releaseOf env o st).1) st).held ↔
        p ∈ st.held ∧ ¬(p ∈ os ∧ st.sc.flag p = true) := by
  induction os with
  | nil => simp
  | cons o os ih =>
    intro st hm p
    obtain ⟨hmcdi, hflag, hheld⟩ := releaseOf_spec hrel o hm
    have hrest := ih (releaseOf env o st).1 (hmcdi.trans hm) p
    change (releaseOf env o st).1.sc.flag = Function.update st.sc.flag o false at hflag
    change (releaseOf env o st).1.held =
      if st.sc.flag o then st.held.erase o else st.held at hheld
    rw [List.foldl_cons, hrest, hflag, hheld]
    by_cases hp : p = o
    · subst hp
      cases hf : st.sc.flag p <;> simp
    · cases hf : st.sc.flag o <;> simp [hp]

theorem mem_hwTeardown (hrel : env.ReleasesSucceed) (hm : st.sc.mcdiInitialized = true)
    (o : McObject) :
    o ∈ (hwTeardown env st).held ↔ o ∈ st.held ∧ st.sc.flag o = false := by
  rw [hwTeardown, mcdiFini_held, foldl_releaseOf hrel teardownOrder st hm o]
  simp [mem_teardownOrder o]

theorem ite_fw {c : Prop} {d : Decidable c} {st st' : St} (h : st'.fw = st.fw) :
    (@ite St c d st' st).fw = st.fw := by
  split
  next => exact h
  next => rfl

theorem intrTeardown_fw (st : St) : (intrTeardown st).fw = st.fw := by
  unfold intrTeardown
  refine (ite_fw ?_).trans ((ite_fw ?_).trans ((ite_fw ?_).trans (ite_fw ?_)))
  all_goals rfl

theorem freeDmaResources_fw (st : St) : (freeDmaResources st).fw = st.fw := by
  unfold freeDmaResources
  generalize dmaOrder.reverse = bs
  induction bs generalizing st with
  | nil => rfl
  | cons b bs ih => rw [List.foldl_cons, ih, freeDmabuf_fw]

end

/-- The stages whose failure leaves an object in the MC: GET_ASSERTS, which goes to a label that
does not detach; the calls between ALLOC_VIS and the end of `hw_init`, whose label only
detaches; and an INSERT whose success the driver rejects. -/
def Env.leaves (env : Env) (k : Stage) : Bool :=
  decide (k ∈ [.clearAssertions, .vadaptorAlloc, .getPhyCfg, .setMac, .setLink, .getLink]) ||
    env.strayFilter k

/-- No failed stage leaves anything behind. -/
def Env.CleansUp (env : Env) : Prop := ∀ k, env.firstFailure = some k → env.leaves k = false

instance (env : Env) : Decidable env.CleansUp :=
  match h : env.firstFailure with
  | none => .isTrue (by simp [Env.CleansUp, h])
  | some k => decidable_of_iff (env.leaves k = false) (by simp [Env.CleansUp, h])

/-- The MC is clean unless the failed stage leaves something. -/
def CleanUnless (env : Env) (k : Stage) (st : St) : Prop := st.held = ∅ ↔ env.leaves k = false

section
variable {env : Env} {st : St} {k : Stage}

theorem strayFilter_of_ne (hk : k ≠ .filterInsert) : env.strayFilter k = false := by
  simp [Env.strayFilter, hk]

theorem Failed.reached (hk : k ≠ .filterInsert) (h : Failed env k st.fw) :
    Reached env k.idx st.fw := by
  obtain ⟨v, hv, hw⟩ := h
  rw [strayFilter_of_ne hk, if_neg Bool.false_ne_true] at hw
  rwa [hw]

/-- Up to DRV_ATTACH there is nothing to clean up; at GET_ASSERTS the attachment is left. -/
theorem cleanUnless_mcdi (hk : k ∈ .bar2 :: .mcdiInit :: mcdiStages) (h : Failed env k st.fw) :
    CleanUnless env k st := by
  have hne : ∀ k ∈ Stage.bar2 :: .mcdiInit :: mcdiStages, k ≠ .filterInsert := by decide
  have hr := h.reached (hne k hk)
  unfold CleanUnless Env.leaves
  rw [strayFilter_of_ne (hne k hk), Bool.or_false]
  by_cases hkc : k = .clearAssertions
  · subst hkc
    have hat : McObject.attachment ∈ st.held := hr.certain _ (by simp) (by decide)
    simp [Finset.ne_empty_of_mem hat]
  · have hnone : ∀ k ∈ Stage.bar2 :: .mcdiInit :: mcdiStages, k ≠ .clearAssertions →
        ∀ o ∈ teardownOrder, ¬o.stage.idx < k.idx := by decide
    have hempty : st.held = ∅ := Finset.eq_empty_of_forall_notMem fun o ho =>
      hnone k hk hkc o (mem_teardownOrder o) (hr.created o ho)
    have hleaves : ∀ k ∈ Stage.bar2 :: .mcdiInit :: mcdiStages, k ≠ .clearAssertions →
        k ∉ [.clearAssertions, .vadaptorAlloc, .getPhyCfg, .setMac, .setLink, .getLink] := by
      decide
    exact ⟨fun _ => decide_eq_false (hleaves k hk hkc), fun _ => hempty⟩

/-- `fail_attach` detaches: the VIs stay when they were allocated. -/
theorem cleanUnless_function (hrel : env.ReleasesSucceed) (hk : k ∈ functionStages)
    (h : Failed env k st.fw) : CleanUnless env k (drvDetach env st).1 := by
  have hne : ∀ k ∈ functionStages, k ≠ .filterInsert := by decide
  have hlate : ∀ k ∈ functionStages, Stage.mcdiInit.idx < k.idx ∧
      McObject.attachment.stage.idx < k.idx := by decide
  have hr := h.reached (hne k hk)
  have hflag : st.sc.flag .attachment = true :=
    (hr.flag .attachment).trans (decide_eq_true (hlate k hk).2)
  have hheld : (drvDetach env st).1.held = st.held.erase .attachment := by
    have hdet := (releaseOf_spec hrel .attachment (hr.mcdiInitialized (hlate k hk).1)).held
    exact hdet.trans (if_pos hflag)
  unfold CleanUnless Env.leaves
  rw [strayFilter_of_ne (hne k hk), Bool.or_false, hheld]
  by_cases hvis : Stage.allocVis.idx < k.idx
  · have hmem : McObject.vis ∈ st.held.erase .attachment :=
      Finset.mem_erase.mpr ⟨by decide, hr.certain _ (by simp) hvis⟩
    have hleaves : ∀ k ∈ functionStages, Stage.allocVis.idx < k.idx →
        k ∈ [.clearAssertions, .vadaptorAlloc, .getPhyCfg, .setMac, .setLink, .getLink] := by
      decide
    rw [decide_eq_true (hleaves k hk hvis)]
    simp [Finset.ne_empty_of_mem hmem]
  · have honly : ∀ k ∈ functionStages, ¬Stage.allocVis.idx < k.idx →
        ∀ o ∈ teardownOrder, o.stage.idx < k.idx → o = .attachment := by decide
    have hempty : st.held.erase .attachment = ∅ :=
      Finset.eq_empty_of_forall_notMem fun o ho =>
        Finset.ne_of_mem_erase ho (honly k hk hvis o (mem_teardownOrder o)
          (hr.created o (Finset.mem_of_mem_erase ho)))
    have hleaves : ∀ k ∈ functionStages, ¬Stage.allocVis.idx < k.idx →
        k ∉ [.clearAssertions, .vadaptorAlloc, .getPhyCfg, .setMac, .setLink, .getLink] := by
      decide
    exact ⟨fun _ => decide_eq_false (hleaves k hk hvis), fun _ => hempty⟩

/-- From the end of `hw_init` on, the full teardown runs and every object the driver knows of
goes. -/
theorem cleanUnless_teardown (hrel : env.ReleasesSucceed) (hk : k ∈ .allocDma :: queueStages)
    (h : Failed env k st.fw) : CleanUnless env k (hwTeardown env st) := by
  have hlate : ∀ k ∈ Stage.allocDma :: queueStages, Stage.mcdiInit.idx < k.idx ∧
      k ∉ [.clearAssertions, .vadaptorAlloc, .getPhyCfg, .setMac, .setLink, .getLink] := by decide
  obtain ⟨v, hv, hw⟩ := h
  have hmcdi : st.sc.mcdiInitialized = true := by
    have hm : st.fw.mcdi = v.mcdi := by
      rw [hw]
      split <;> rfl
    exact hm.trans (hv.mcdi.trans (decide_eq_true (hlate k hk).1))
  have hflag : ∀ o, st.sc.flag o = decide (o.stage.idx < k.idx) := by
    have hf : st.fw.flag = v.flag := by
      rw [hw]
      split <;> rfl
    exact fun o => (congrFun hf o).trans (hv.flag o)
  unfold CleanUnless Env.leaves
  rw [decide_eq_false (hlate k hk).2, Bool.false_or]
  cases hstray : env.strayFilter k with
  | true =>
    have hkf : k = .filterInsert := by
      by_contra hne
      rw [strayFilter_of_ne hne] at hstray
      exact Bool.false_ne_true hstray
    have hheld : st.held = insert .rxFilter v.held := by
      rw [hstray, if_pos rfl] at hw
      exact congrArg Fw.held hw
    have hmem : McObject.rxFilter ∈ (hwTeardown env st).held := by
      rw [mem_hwTeardown hrel hmcdi, hheld, hflag, hkf]
      exact ⟨Finset.mem_insert_self _ _, by decide⟩
    simp [Finset.ne_empty_of_mem hmem]
  | false =>
    have hheld : st.held = v.held := by
      rw [hstray, if_neg Bool.false_ne_true] at hw
      exact congrArg Fw.held hw
    have hempty : (hwTeardown env st).held = ∅ := by
      refine Finset.eq_empty_of_forall_notMem fun o ho => ?_
      obtain ⟨hmem, hclear⟩ := (mem_hwTeardown hrel hmcdi o).mp ho
      rw [hheld] at hmem
      rw [hflag, decide_eq_true (hv.created o hmem)] at hclear
      exact Bool.noConfusion hclear
    exact ⟨fun _ => rfl, fun _ => hempty⟩

theorem climb_does (hfull : env.FullLength) (ks : List Stage) (n : ℕ)
    (hidx : ks.map Stage.idx = List.range' n ks.length) :
    Does (Stage.fails env) (fun st => Reached env n st.fw) (climb (Stage.step env) ks) ks
      (fun st => Reached env (n + ks.length) st.fw) (fun k st => Failed env k st.fw) :=
  Does.climb (I := fun n (st : St) => Reached env n st.fw) (fun k _ => stage_spec hfull k) hidx

theorem hwInit_does (hfull : env.FullLength) (hrel : env.ReleasesSucceed) :
    Does (Stage.fails env) (fun st => Reached env Stage.mcdiInit.idx st.fw) (hwInit env)
      ([.mcdiInit] ++ (mcdiStages ++ functionStages))
      (fun st => Reached env Stage.allocDma.idx st.fw) (CleanUnless env) := by
  have hinit := (stage_spec hfull .mcdiInit).weaken (fun _ h => h)
    fun k hk st => cleanUnless_mcdi (k := k) (by simp_all)
  have hmcdi := (climb_does hfull mcdiStages Stage.getVersion.idx (by decide)).weaken
    (fun _ h => h) fun k hk st => cleanUnless_mcdi (k := k) (by simp [hk])
  have hfun := (climb_does hfull functionStages Stage.entityReset.idx (by decide)).unwinding
    fun k hk st => cleanUnless_function (k := k) hrel hk
  have hfini : ∀ k ∈ mcdiStages ++ functionStages, ∀ st, CleanUnless env k st →
      CleanUnless env k (mcdiFini st) := by
    intro k _ st h
    unfold CleanUnless
    rwa [mcdiFini_held]
  exact hinit.andThen ((hmcdi.andThen hfun).unwinding hfini)

theorem attach_does (hfull : env.FullLength) (hrel : env.ReleasesSucceed) :
    Does (Stage.fails env) (fun st => Reached env Stage.bar2.idx st.fw) (attach env) Stage.order
      (fun _ => True) (CleanUnless env) := by
  have hbar := (stage_spec hfull .bar2).weaken (fun _ h => h)
    fun k hk st => cleanUnless_mcdi (k := k) (by simp_all)
  have hdma := (stage_spec hfull .allocDma).unwinding
    fun k hk st => cleanUnless_teardown (k := k) hrel (by simp_all)
  have hfail : ∀ k ∈ queueStages, ∀ st, Failed env k st.fw →
      CleanUnless env k (freeDmaResources (hwTeardown env (intrTeardown st))) := by
    intro k hk st h
    rw [← intrTeardown_fw st] at h
    have hclean := cleanUnless_teardown hrel (List.mem_cons_of_mem .allocDma hk) h
    unfold CleanUnless at hclean ⊢
    rwa [held_of_fw (freeDmaResources_fw _)]
  have hqueue := (climb_does hfull queueStages Stage.intrSetup.idx (by decide)).unwinding hfail
  have hrest := (hwInit_does hfull hrel).andThen (hdma.andThen hqueue)
  have hkeep : ∀ (r r' : Resource) (ks : List Stage), ∀ k ∈ ks, ∀ st : St, CleanUnless env k st →
      CleanUnless env k ((st.release r).release r') := fun _ _ _ _ _ _ h => h
  have hall := (hbar.andThen (hrest.unwinding (hkeep .busMaster .bar2 _))).unwinding
    (hkeep .rxMtx .scMtx _)
  have hpublish : Does (Stage.fails env) (fun st => Reached env (Stage.intrSetup.idx +
      queueStages.length) st.fw) (fun st => (publish st, (none : Option Errno))) []
      (fun _ => True) (CleanUnless env) := fun _ _ => ⟨rfl, trivial⟩
  have hdone := hall.andThen hpublish
  rw [List.append_nil] at hdone
  exact fun st h => hdone ((st.acquire .scMtx).acquire .rxMtx) h

/-- Attach fails exactly when one of its stages does. -/
theorem attach_fails_iff (hfull : env.FullLength) (hrel : env.ReleasesSucceed) :
    (attach env St.start).2 ≠ none ↔ env.firstFailure ≠ none := by
  have h := attach_does hfull hrel St.start Reached.start
  unfold Env.firstFailure
  cases hfind : Stage.order.find? (Stage.fails env) with
  | none =>
    simp only [hfind] at h
    simp [h.1]
  | some k =>
    simp only [hfind] at h
    simp [h.1]

/-- For every choice of what fails: a failed attach leaves the MC with none of the objects it
created if and only if the first stage to fail is not one of those that leave something. -/
theorem failed_attach_clean (env : Env) (hfull : env.FullLength) (hrel : env.ReleasesSucceed) :
    ((attach env St.start).2 ≠ none → (attach env St.start).1.held = ∅) ↔ env.CleansUp := by
  have h := attach_does hfull hrel St.start Reached.start
  unfold Env.CleansUp Env.firstFailure
  cases hfind : Stage.order.find? (Stage.fails env) with
  | none =>
    simp only [hfind] at h
    simp [h.1]
  | some k =>
    simp only [hfind] at h
    obtain ⟨hne, hclean⟩ := h
    constructor
    · intro himp l hl
      obtain rfl := Option.some.inj hl
      exact hclean.mp (himp hne)
    · intro hcl _
      exact hclean.mpr (hcl k rfl)

end

/-- Everything succeeds, unless `fault` has an answer for the command. -/
def faultEnv (fault : Op → Option Answer) : Env where
  answer op _ := (fault op).getD (.success (List.replicate 72 1))
  release _ _ := .success []
  host :=
    { bar2 := true, pciCommand := 6, hwRevId := 0xeb14face,
      dma := fun _ => ⟨none, none, none, 0x1000⟩, msixCount := 1, bar4 := true, allocMsix := none,
      msixGranted := 1, irq := true, setupIntr := none, makeDev := true }

theorem faultEnv_fullLength {fault : Op → Option Answer}
    (h : ∀ op payload, fault op = some (.success payload) → op.fullLen ≤ payload.length) :
    (faultEnv fault).FullLength := by
  intro op o k payload _ ha
  simp only [faultEnv] at ha
  cases hf : fault op with
  | some a =>
    rw [hf, Option.getD_some] at ha
    exact h op payload (hf.trans (congrArg some ha))
  | none =>
    rw [hf, Option.getD_none, Answer.success.injEq] at ha
    rw [← ha, List.length_replicate]
    cases op <;> simp [Op.fullLen]

/-- The firmware grants a single VI. -/
def oneVi : Env :=
  faultEnv fun op => if op = .allocVis then some (.success (dwords [1, 0])) else none

theorem failed_attach_clean_one_vi :
    (attach oneVi St.start).2 = some .EINVAL ∧ (attach oneVi St.start).1.held = ∅ := by
  have hfull : oneVi.FullLength := by
    apply faultEnv_fullLength
    intro op payload h
    split at h
    next hop =>
      rw [Option.some.injEq, Answer.success.injEq] at h
      rw [hop, ← h]
      decide
    next => exact absurd h (by simp)
  have hrc : (attach oneVi St.start).2 = some .EINVAL := by decide +kernel
  exact ⟨hrc, (failed_attach_clean oneVi hfull (fun _ _ => rfl)).mpr (by decide +kernel)
    (by simp [hrc])⟩

/-- GET_ASSERTS is refused with EPERM. -/
def assertsRefused : Env :=
  faultEnv fun op => if op = .getAsserts then some (.error (dwords [1])) else none

theorem failed_attach_leaves_attachment :
    ¬∀ env : Env, env.FullLength → env.ReleasesSucceed → (attach env St.start).2 ≠ none →
      (attach env St.start).1.held = ∅ := by
  intro h
  have hfull : assertsRefused.FullLength := by
    apply faultEnv_fullLength
    intro op payload h
    split at h
    next => exact absurd h (by simp)
    next => exact absurd h (by simp)
  have hrc : (attach assertsRefused St.start).2 = some .EPERM := by decide +kernel
  have hheld : (attach assertsRefused St.start).1.held = {.attachment} := by decide +kernel
  have hempty := h assertsRefused hfull (fun _ _ => rfl) (by simp [hrc])
  rw [hheld] at hempty
  exact Finset.singleton_ne_empty _ hempty

end Sfc7120.Attach

import Sfc7120.Attach.Resources
import Sfc7120.Attach.Cleanup

/-! Queues, interrupt handler and ring memory on the way down. A watch reads the log and knows
which MC objects are live and whether the handler is there; it stops at a release command that is
refused or names nothing live, and at ring memory that goes while a queue or the handler is left. -/
namespace Sfc7120.Attach

open ByteMemory Mcdi Ladder Machine

def queues : List McObject := [.evq .control, .evq .data, .rxq, .txq]

/-- What the MC refuses to release: an EVQ that is the target of a queue (both RXQ and TXQ are
created with the data EVQ as target), the vAdaptor under a queue, and the VIs under either. -/
def Blocked (live : Finset McObject) : McObject → Prop
  | .evq .data | .vadaptor => .rxq ∈ live ∨ .txq ∈ live
  | .vis => ∃ o ∈ .vadaptor :: queues, o ∈ live
  | _ => False

instance (live : Finset McObject) (o : McObject) : Decidable (Blocked live o) :=
  match o with
  | .evq .data | .vadaptor => inferInstanceAs (Decidable (_ ∨ _))
  | .vis => inferInstanceAs (Decidable (∃ o ∈ .vadaptor :: queues, o ∈ live))
  | .evq .control | .attachment | .rxq | .txq | .rxFilter => inferInstanceAs (Decidable False)

/-- Release commands are refused with EBUSY where something still refers to the object, and
succeed otherwise. -/
structure Env.McRules (env : Env) : Prop where
  refuses : ∀ live op o, op.kind = .releases o → Blocked live o →
    env.release live op = .error (dwords [16])
  accepts : ∀ live op o, op.kind = .releases o → ¬Blocked live o →
    (env.release live op).isSuccess = true

/-- An error response says which error it is. -/
def Env.ErrorsCoded (env : Env) : Prop :=
  ∀ op k payload, env.answer op k = .error payload →
    4 ≤ payload.length ∧ dwordOf (payload.take 4) ≠ 0

structure Watch where
  handler : Bool
  live : Finset McObject
  deriving DecidableEq

def Watch.Quiet (w : Watch) : Prop := w.handler = false ∧ ∀ o ∈ queues, o ∉ w.live

instance (w : Watch) : Decidable w.Quiet :=
  inferInstanceAs (Decidable (w.handler = false ∧ ∀ o ∈ queues, o ∉ w.live))

/-- Tag, memory and map of a ring or of the packet buffers. -/
def Resource.ofRing : Resource → Bool
  | .dmaTag b | .dmaMem b | .dmaMap b => b != .mcdi
  | _ => false

def watch (w : Watch) : Event → Option Watch
  | .acquire r => some (if r = .intrHandler then { w with handler := true } else w)
  | .release r =>
      if r.ofRing = true ∧ ¬w.Quiet then none
      else some (if r = .intrHandler then { w with handler := false } else w)
  | .use _ => some w
  | .mcdi op _ a =>
      match op.kind with
      | .releases o =>
          if o ∈ w.live ∧ a.isSuccess = true then some { w with live := w.live.erase o } else none
      | _ => some { w with live := op.effect a w.live }

def Watch.start : Watch := ⟨false, ∅⟩

/-- The watch reads the log to its end, and there no handler is left and nothing is live but, it
may be, a filter the driver does not know of. -/
def Orderly (st : St) : Prop :=
  ∃ live, run watch Watch.start st.log = some ⟨false, live⟩ ∧ ∀ o ∈ live, o = .rxFilter

/-- `S` is what the driver's flags say is live, and it is live. `h` says whether the handler is
set up, and if it is then `sfc7120_intr_teardown` will find it. -/
structure Live (S : Finset McObject) (h : Bool) (st : St) : Prop where
  flag : ∀ o, st.sc.flag o = decide (o ∈ S)
  held : ∀ o ∈ S, o ∈ st.held
  only : ∀ o ∈ st.held, o = .rxFilter ∨ o ∈ S
  handler : h = true → st.sc.host.knows .irq ∧ st.sc.host.knows .intrHandler
  watched : run watch Watch.start st.log = some ⟨h, st.held⟩

section
variable {S : Finset McObject} {h : Bool} {st st' : St}

theorem Live.orderly (hl : Live ∅ false st) : Orderly st :=
  ⟨st.held, hl.watched, fun o ho => (hl.only o ho).resolve_right (Finset.notMem_empty o)⟩

/-- Further events that leave the watch where it is. -/
theorem Live.log (hl : Live S h st) (hflag : st'.sc.flag = st.sc.flag) (hheld : st'.held = st.held)
    (hhandler : h = true → st'.sc.host.knows .irq ∧ st'.sc.host.knows .intrHandler)
    {evs : List Event} (hlog : st'.log = st.log ++ evs)
    (hrun : run watch ⟨h, st.held⟩ evs = some ⟨h, st.held⟩) : Live S h st' where
  flag o := by rw [hflag, hl.flag]
  held o ho := by
    rw [hheld]
    exact hl.held o ho
  only o ho := hl.only o (hheld ▸ ho)
  handler := hhandler
  watched := by
    rw [hlog, hheld]
    exact run_append hl.watched hrun

theorem watch_query {w : Watch} {e : Event} (he : e.IsQuery) : watch w e = some w := by
  obtain ⟨op, inp, a, hop, rfl⟩ := he
  simp only [watch, hop, Op.effect, ite_self]

/-- The watch stays where it is through events that each leave it there. -/
theorem run_watch_of_fixed {w : Watch} {evs : List Event} (hevs : ∀ e ∈ evs, watch w e = some w) :
    run watch w evs = some w := by
  induction evs with
  | nil => rfl
  | cons e evs ih =>
    obtain ⟨he, hrest⟩ := List.forall_mem_cons.mp hevs
    exact run_cons.mpr ⟨w, he, ih hrest⟩

theorem Live.asks (hl : Live S h st) (ha : Asks st st') : Live S h st' := by
  obtain ⟨evs, hlog, hevs⟩ := ha.log
  exact hl.log ha.flag ha.held (fun hh => ha.host ▸ hl.handler hh) hlog
    (run_watch_of_fixed fun e he => watch_query (hevs e he))

end

/-- The same, with commands getting through. -/
structure Up (S : Finset McObject) (h : Bool) (st : St) : Prop extends Live S h st where
  mcdi : st.sc.mcdiInitialized = true

section
variable {env : Env} {S : Finset McObject} {h : Bool} {st st' : St} {op : Op} {o : McObject}
  {inp : List Byte} {k : ℕ}

theorem success_of_rc (hcoded : env.ErrorsCoded) (hrc : (env.result op k).rc = none) :
    (env.answer op k).isSuccess = true := by
  unfold Env.result at hrc
  cases ha : env.answer op k with
  | success payload => rfl
  | error payload =>
    obtain ⟨hlen, hcode⟩ := hcoded op k payload ha
    rw [ha, Answer.result, if_pos hlen] at hrc
    exact absurd (xlateErr_eq_none_iff.mp hrc) hcode
  | wrongSeq | silence =>
    rw [ha] at hrc
    exact absurd hrc (by simp [Answer.result])

theorem watch_mcdi {w : Watch} {a : Answer} (hop : ∀ o, op.kind ≠ .releases o) :
    watch w (.mcdi op inp a) = some { w with live := op.effect a w.live } := by
  simp only [watch]

/-- A command that is not a release is refused by the driver itself, or sent. -/
theorem exec_cases (env : Env) (op : Op) (inp : List Byte) (k : ℕ)
    (hop : ∀ o, op.kind ≠ .releases o) (hm : st.sc.mcdiInitialized = true) :
    ((exec env op inp k st).1 = st ∧ (exec env op inp k st).2.rc ≠ none) ∨
      exec env op inp k st = (sent env op inp k st, env.result op k) := by
  by_cases hin : inp.length ≤ mcdiPayloadLenMaxV1
  · exact .inr (exec_eq op inp hm hin hop)
  · left
    have hlong : mcdiPayloadLenMaxV1 < inp.length ∨ mcdiPayloadLenMaxV1 < op.outLen :=
      .inl (not_le.mp hin)
    simp [exec, hm, hlong]

/-- The watch goes along with a command that is not a release. -/
theorem Up.watched_sent (hu : Up S h st) (hop : ∀ o, op.kind ≠ .releases o) :
    run watch Watch.start (sent env op inp k st).log =
      some ⟨h, (sent env op inp k st).held⟩ :=
  run_append hu.watched (run_cons.mpr ⟨_, watch_mcdi hop, rfl⟩)

/-- Stores that neither flags nor host fields know of. -/
theorem Up.store (hu : Up S h st) {f : Softc → Softc} (hflag : (f st.sc).flag = st.sc.flag)
    (hhost : (f st.sc).host = st.sc.host) : Up S h (st.update f) := by
  have hm : st.sc.host.mcdi = true := hu.mcdi
  rw [← hhost] at hm
  exact ⟨hu.log hflag rfl (fun hh => (congrArg (fun f : HostFields => f.knows .irq ∧
    f.knows .intrHandler) hhost).mpr (hu.handler hh)) (List.append_nil _).symm rfl, hm⟩

/-- A create command that is answered by anything but success changes nothing. -/
theorem Up.refused (hu : Up S h st) (ha : (env.answer o.createOp k).isSuccess = false) :
    Up S h (sent env o.createOp inp k st) := by
  have hheld : (sent env o.createOp inp k st).held = st.held := by
    simp [sent, Op.effect, ha]
  refine ⟨hu.log rfl hheld hu.handler rfl ?_, hu.mcdi⟩
  refine run_watch_of_fixed (List.forall_mem_singleton.mpr ?_)
  rw [watch_mcdi (by simp [o.createOp_kind])]
  simp [Op.effect, ha]

/-- A filter that the driver gives up on may be there. -/
theorem Up.stray (hu : Up S h st) :
    Up S h (sent env .filterInsert inp k st) := by
  have hheld : st.held ⊆ (sent env .filterInsert inp k st).held ∧
      ∀ o ∈ (sent env .filterInsert inp k st).held, o = .rxFilter ∨ o ∈ st.held := by
    simp only [sent, Op.effect, Op.kind]
    split
    next => exact ⟨Finset.subset_insert _ _, fun o ho => Finset.mem_insert.mp ho⟩
    next => exact ⟨subset_rfl, fun o ho => .inr ho⟩
  exact ⟨⟨hu.flag, fun o ho => hheld.1 (hu.held o ho),
    fun o ho => (hheld.2 o ho).elim .inl (hu.only o), hu.handler,
    hu.watched_sent (by simp [Op.kind])⟩, hu.mcdi⟩

theorem Up.created (hu : Up S h st) (ha : (env.answer o.createOp k).isSuccess = true)
    (hctl : o = .evq .data → .evq .control ∈ S) {r : ExecResult} :
    Up (insert o S) h ((sent env o.createOp inp k st).update fun sc => o.stored r sc) := by
  have hflag : (o.stored r st.sc).flag = Function.update st.sc.flag o true :=
    McObject.stored_flag fun ho => (hu.flag _).trans (decide_eq_true (hctl ho))
  have hhost := stored_host o r st.sc
  have hmore : (sent env o.createOp inp k st).held = insert o st.held := by
    simp [sent, Op.effect, ha, o.createOp_kind]
  refine ⟨⟨fun p => ?_, fun p hp => ?_, fun p hp => ?_, fun hh => ?_, ?_⟩, ?_⟩
  · simp only [St.update, sent, hflag]
    by_cases hpo : p = o
    · simp [hpo]
    · rw [Function.update_of_ne hpo, hu.flag]
      simp [hpo]
  · simp only [St.update, hmore]
    exact (Finset.mem_insert.mp hp).elim (fun he => he ▸ Finset.mem_insert_self _ _)
      fun hmem => Finset.mem_insert_of_mem (hu.held p hmem)
  · simp only [St.update, hmore] at hp
    rcases Finset.mem_insert.mp hp with rfl | hmem
    · exact .inr (Finset.mem_insert_self _ _)
    · exact (hu.only p hmem).imp_right Finset.mem_insert_of_mem
  · simp only [St.update, sent, hhost]
    exact hu.handler hh
  · exact hu.watched_sent (by simp [o.createOp_kind])
  · have hm : st.sc.host.mcdi = true := hu.mcdi
    rw [← hhost] at hm
    exact hm

/-- The stages that create an object. The wrappers that look at the length of the response may
give up on an object that is there; only a filter is then no worse than none. -/
theorem create_up (hcoded : env.ErrorsCoded) (o : McObject)
    (hctl : o = .evq .data → .evq .control ∈ S) (hu : Up S h st) :
    ((o.stage.step env st).2 = none → Up (insert o S) h (o.stage.step env st).1) ∧
    ((o.stage.step env st).2 ≠ none → o.minUsed = 0 ∨ o = .rxFilter →
      Up S h (o.stage.step env st).1) := by
  have hcases := creates env o st
  generalize o.stage.step env st = x at hcases ⊢
  cases hcases with
  | refused hwhy => exact ⟨by simp, fun _ _ => hu⟩
  | present hset =>
    have hmem : o ∈ S := of_decide_eq_true ((hu.flag o).symm.trans hset)
    rw [Finset.insert_eq_of_mem hmem]
    exact ⟨fun _ => hu, by simp⟩
  | failed flags hrc =>
    refine ⟨by simp, fun _ hwhy => ?_⟩
    have hsent : Up S h (sent env o.createOp (o.createIn st.sc) 0 st) := by
      by_cases ho : o = .rxFilter
      · subst ho
        exact hu.stray
      · have hzero := hwhy.resolve_right ho
        rw [createRc_of_ne ho, Env.commandRc, hzero] at hrc
        refine hu.refused ?_
        cases ha : env.answer o.createOp 0 with
        | success payload => simp [(result_rc_of_success ha).1] at hrc
        | _ => rfl
    exact hsent.store (f := fun sc => { sc with mcdiFuncFlags := flags }) rfl rfl
  | created hgo hnew hrc =>
    obtain ⟨hcmd, -⟩ := createRc_eq_none_iff.mp hrc
    exact ⟨fun _ => hu.created (success_of_rc hcoded (commandRc_eq_none hcmd).1) hctl, by simp⟩

theorem create_leaves (hcoded : env.ErrorsCoded) (o : McObject)
    (hctl : o = .evq .data → .evq .control ∈ S) (hwhy : o.minUsed = 0 ∨ o = .rxFilter) :
    Leaves (Up S h) (o.stage.step env) (Up (insert o S) h) (Up S h) := fun _ hu =>
  ⟨(create_up hcoded o hctl hu).1, fun hne => (create_up hcoded o hctl hu).2 hne hwhy⟩

/-- The reset spares the attachment, and nothing else is there yet. -/
theorem entityReset_up (hu : Up {.attachment} h st) :
    Up {.attachment} h (entityReset env st).1 := by
  simp only [entityReset, tolerateEacces_fst]
  rcases exec_cases env .entityReset (dwords [1]) 0 (by simp [Op.kind]) hu.mcdi
    with ⟨hst, hrc⟩ | hsent
  · obtain ⟨e, he⟩ := Option.ne_none_iff_exists'.mp hrc
    simp only [Attach.command, he, hst]
    exact hu
  · have hreset : Up {.attachment} h (sent env .entityReset (dwords [1]) 0 st) := by
      have hheld : ∀ o ∈ (sent env .entityReset (dwords [1]) 0 st).held, o ∈ st.held := by
        simp only [sent, Op.effect, Op.kind]
        split
        next => exact fun o ho => (Finset.mem_filter.mp ho).1
        next => exact fun o ho => ho
      have hkept : .attachment ∈ (sent env .entityReset (dwords [1]) 0 st).held := by
        have hthere := hu.held .attachment (Finset.mem_singleton_self _)
        simp only [sent, Op.effect, Op.kind]
        split
        next => exact Finset.mem_filter.mpr ⟨hthere, rfl⟩
        next => exact hthere
      refine ⟨⟨hu.flag, fun o ho => ?_, fun o ho => hu.only o (hheld o ho), hu.handler,
        hu.watched_sent (by simp [Op.kind])⟩, hu.mcdi⟩
      rw [Finset.mem_singleton.mp ho]
      exact hkept
    simp only [Attach.command, hsent]
    split
    next => exact hreset
    next =>
      split
      next => exact hreset
      next => exact hreset

end

/-- Host resources other than the interrupt handler. -/
def Event.OfHost : Event → Prop
  | .acquire r | .release r => r ≠ .intrHandler
  | .use _ => True
  | .mcdi .. => False

/-- From `st` to `st'` only such resources were taken, used and given back. -/
abbrev Handles : St → St → Prop := Grows St.log St.fw Event.OfHost

section
variable {env : Env} {S : Finset McObject} {st st' st'' : St} {r : Resource}

theorem handles_acquire (st : St) (hr : r ≠ .intrHandler) : Handles st (st.acquire r) :=
  .single (e := .acquire r) hr rfl rfl

theorem handles_release (st : St) (hr : r ≠ .intrHandler) : Handles st (st.release r) :=
  .single (e := .release r) hr rfl rfl

theorem handles_use (st : St) (r : Resource) : Handles st (st.use r) :=
  .single (e := .use r) trivial rfl rfl

theorem allocDmabuf_handles (b : DmaBuf) (st : St) : Handles st (allocDmabuf env b st).1 := by
  obtain ⟨evs, g, hst, hcases⟩ := allocDmabuf_cases env b st
  rw [hst]
  refine ⟨rfl, evs, rfl, ?_⟩
  rcases hcases with ⟨-, -, -, -, rfl⟩ | ⟨-, rfl | rfl | rfl | rfl⟩ <;> simp [Event.OfHost]

theorem freeDmabuf_handles (b : DmaBuf) (st : St) : Handles st (freeDmabuf b st) := by
  have hpart : ∀ (st : St) (r : Resource) (g : DmaMem → DmaMem), r ≠ .intrHandler →
      Handles st ((st.release r).update (setDma b g)) := fun st _ _ hr =>
    (handles_release st hr).store rfl rfl
  unfold freeDmabuf
  exact ((hpart _ _ _ (by simp)).when.trans (hpart _ _ _ (by simp)).when).trans
    (hpart _ _ _ (by simp)).when

theorem primeRing_handles (b : DmaBuf) (st : St) : Handles st (primeRing b st) :=
  ((handles_use st _).trans (handles_use _ _)).when

theorem allocBufs_handles (bs : List DmaBuf) (st : St) : Handles st (allocBufs env bs st).1 := by
  induction bs generalizing st with
  | nil => exact .refl st
  | cons b bs ih =>
    have hrest : ∀ st, Handles st (allocBufs env bs (primeRing b st)).1 := fun st =>
      (primeRing_handles b st).trans (ih _)
    exact andThen_rel Grows.trans (allocDmabuf_handles b)
      (unwinding_rel Grows.trans (freeDmabuf_handles b) hrest) st

theorem freeDmaResources_handles (st : St) : Handles st (freeDmaResources st) := by
  unfold freeDmaResources
  generalize dmaOrder.reverse = bs
  induction bs generalizing st with
  | nil => exact .refl st
  | cons b bs ih => exact (freeDmabuf_handles b st).trans (ih _)

theorem deviceAlive_handles (st : St) : Handles st (deviceAlive env st).1 := by
  simp only [deviceAlive]
  split_ifs
  · exact .refl st
  · exact handles_use st .bar2
  · exact handles_use st .bar2

theorem mcdiSetup_handles (st : St) : Handles st (mcdiSetup env st).1 :=
  unwinding_rel Grows.trans (fun st => handles_release st (by simp))
    (andThen_rel Grows.trans (allocDmabuf_handles .mcdi)
      (unwinding_rel Grows.trans (freeDmabuf_handles .mcdi) deviceAlive_handles)) st

/-- With the handler away and no queue live, host resources come and go freely. -/
theorem Live.handles (hl : Live S false st) (hq : ∀ o ∈ queues, o ∉ S) (hh : Handles st st') :
    Live S false st' := by
  obtain ⟨evs, hlog, hevs⟩ := hh.log
  have hquiet : Watch.Quiet ⟨false, st.held⟩ := by
    refine ⟨rfl, fun o ho hlive => ?_⟩
    rcases hl.only o hlive with rfl | hS
    · exact absurd ho (by decide)
    · exact hq o ho hS
  refine hl.log (congrArg Fw.flag hh.view) (congrArg Fw.held hh.view) (by simp) hlog
    (run_watch_of_fixed fun e he => ?_)
  have hhost := hevs e he
  cases e with
  | acquire r => simp only [watch, if_neg hhost]
  | release r => simp only [watch, hquiet, not_true_eq_false, and_false, if_false, if_neg hhost]
  | use r => rfl
  | mcdi op inp a => exact hhost.elim

theorem Up.handles (hu : Up S false st) (hq : ∀ o ∈ queues, o ∉ S) (hh : Handles st st') :
    Up S false st' := ⟨hu.toLive.handles hq hh, (congrArg Fw.mcdi hh.view).trans hu.mcdi⟩

end

section
variable {env : Env} {S : Finset McObject} {h : Bool} {st : St}

theorem mcdiInit_live :
    Leaves (Live ∅ false) (mcdiInit env) (Up ∅ false) (fun _ => True) := by
  intro st hl
  refine ⟨fun hok => ?_, fun _ => trivial⟩
  have hset : Handles st (mcdiSetup env (st.acquire .mcdiMtx)).1 :=
    (handles_acquire st (by simp)).trans (mcdiSetup_handles _)
  have hl' := hl.handles (by simp) hset
  unfold mcdiInit at hok ⊢
  cases hrc : (mcdiSetup env (st.acquire .mcdiMtx)).2 with
  | some e =>
    rw [andThen_of_ne (by simp [hrc])] at hok
    exact absurd (hrc.symm.trans hok) (by simp)
  | none =>
    rw [andThen_of_none hrc]
    exact ⟨hl'.log rfl rfl (by simp) (List.append_nil _).symm rfl, rfl⟩

/-- A stage that only asks. -/
theorem asks_leaves {k : Stage} (hk : k ∈ queryStages) :
    Leaves (Up S h) (Stage.step env k) (Up S h) (Up S h) := by
  apply Leaves.of_keeps
  intro st hu
  have hasks : Asks st (Stage.step env k st).1 := stage_asks hk
  have hm : st.sc.host.mcdi = true := hu.mcdi
  rw [← hasks.host] at hm
  exact ⟨hu.toLive.asks hasks, hm⟩

/-- After `hw_init` the attachment, the VIs and the vAdaptor are there. -/
def initialized : Finset McObject := {.vadaptor, .vis, .attachment}

theorem hwInit_live (hcoded : env.ErrorsCoded) :
    Leaves (Live ∅ false) (hwInit env) (Up initialized false) (fun _ => True) := by
  have hask : ∀ (S : Finset McObject) (k : Stage), k ∈ queryStages →
      Leaves (Up S false) (Stage.step env k) (Up S false) (fun _ => True) := fun S k hk =>
    (asks_leaves hk).weaken (fun _ hu => hu) fun _ _ => trivial
  have hcreate : ∀ (S : Finset McObject) (o : McObject), o ≠ .evq .data →
      Leaves (Up S false) (o.stage.step env) (Up (insert o S) false) (fun _ => True) :=
    fun S o ho st hu => ⟨(create_up hcoded o (absurd · ho) hu).1, fun _ => trivial⟩
  have hattach : Leaves (Up ∅ false) (Stage.step env .drvAttach) (Up {.attachment} false)
      (fun _ => True) := hcreate ∅ .attachment (by simp)
  have hreset : Leaves (Up {.attachment} false) (Stage.step env .entityReset)
      (Up {.attachment} false) (fun _ => True) := fun st hu =>
    ⟨fun _ => entityReset_up hu, fun _ => trivial⟩
  have hvis : Leaves (Up {.attachment} false) (Stage.step env .allocVis)
      (Up {.vis, .attachment} false) (fun _ => True) := hcreate _ .vis (by simp)
  have hvadaptor : Leaves (Up {.vis, .attachment} false) (Stage.step env .vadaptorAlloc)
      (Up initialized false) (fun _ => True) := hcreate _ .vadaptor (by simp)
  have hdone : ∀ S : Finset McObject, Leaves (Up S false) (climb (Stage.step env) [])
      (Up S false) (fun _ => True) := fun _ st hu => ⟨fun _ => hu, fun _ => trivial⟩
  have hmcdi : Leaves (Up ∅ false) (climb (Stage.step env) mcdiStages) (Up {.attachment} false)
      (fun _ => True) :=
    (hask _ .getVersion (by decide)).andThen (hattach.andThen
      ((hask _ .clearAssertions (by decide)).andThen (hdone _)))
  have hlink : Leaves (Up initialized false)
      (climb (Stage.step env) [.getPhyCfg, .setMac, .setLink, .getLink]) (Up initialized false)
      (fun _ => True) :=
    (hask _ .getPhyCfg (by decide)).andThen ((hask _ .setMac (by decide)).andThen
      ((hask _ .setLink (by decide)).andThen ((hask _ .getLink (by decide)).andThen (hdone _))))
  have hfunction : Leaves (Up {.attachment} false) (climb (Stage.step env) functionStages)
      (Up initialized false) (fun _ => True) :=
    hreset.andThen ((hask _ .getMac (by decide)).andThen ((hask _ .dumpFuncInfo (by decide)).andThen
      (hvis.andThen (hvadaptor.andThen hlink))))
  exact mcdiInit_live.andThen ((hmcdi.andThen (hfunction.unwinding fun _ _ => trivial)).unwinding
    fun _ _ => trivial)

theorem allocMsixBar_handles (st : St) : Handles st (allocMsixBar env st).1 := by
  unfold allocMsixBar
  split_ifs
  · exact .refl st
  · exact (handles_acquire st (by simp)).store rfl rfl
  · exact Grows.store (.refl st) rfl rfl

theorem allocMsix_handles (st : St) : Handles st (allocMsix env st).1 := by
  unfold allocMsix
  split
  next => exact .refl st
  next => exact handles_acquire st (by simp)

theorem allocIrq_handles (st : St) : Handles st (allocIrq env st).1 := by
  simp only [allocIrq]
  split_ifs
  · exact .refl st
  · exact (handles_acquire st (by simp)).store rfl rfl
  · exact Grows.store (.refl st) rfl rfl

theorem allocIrq_irqResource (st : St) (hok : (allocIrq env st).2 = none) :
    (allocIrq env st).1.sc.irqResource = true := by
  simp only [allocIrq] at hok ⊢
  split_ifs at hok ⊢
  rfl

theorem setupIntr_live :
    Leaves (fun st => Up S false st ∧ st.sc.irqResource = true) (setupIntr env) (Up S true)
      (Up S false) := by
  rintro st ⟨hu, hirq⟩
  unfold setupIntr
  split
  next => exact ⟨by simp, fun _ => hu⟩
  next =>
    refine ⟨fun _ => ⟨⟨hu.flag, hu.held, hu.only, fun _ => ⟨hirq, rfl, rfl⟩, ?_⟩, hu.mcdi⟩, by simp⟩
    exact run_append hu.watched rfl

theorem intrSetup_live (hq : ∀ o ∈ queues, o ∉ S) :
    Leaves (Up S false) (intrSetup env) (Up S true) (Up S false) := by
  have hkeeps : ∀ f : Attempt St Errno, (∀ st, Handles st (f st).1) →
      Leaves (Up S false) f (Up S false) (Up S false) := fun f hf =>
    Leaves.of_keeps fun st hu => hu.handles hq (hf st)
  have hback : ∀ (r : Resource) (u : Softc → Softc) (st : St), r ≠ .intrHandler →
      (∀ st : St, (st.update u).fw = st.fw) → Up S false st →
      Up S false ((st.release r).update u) := fun r u st hr hfw hu =>
    hu.handles hq ((handles_release st hr).store rfl (hfw _))
  have hirq : Leaves (Up S false) (allocIrq env)
      (fun st => Up S false st ∧ st.sc.irqResource = true) (Up S false) := fun st hu =>
    ⟨fun hok => ⟨hu.handles hq (allocIrq_handles st), allocIrq_irqResource st hok⟩,
      fun _ => hu.handles hq (allocIrq_handles st)⟩
  have hset : Leaves _ (setupIntr env) (Up S true) (Up S false) := setupIntr_live
  have hhandler := hset.unwinding
    (hback .irq (setIrqResource false) · (by simp) fun _ => rfl)
  have hvector := (hirq.andThen hhandler).unwinding
    (hback .msix (setMsixNvec 0) · (by simp) fun _ => rfl)
  exact (hkeeps _ allocMsixBar_handles).andThen (((hkeeps _ allocMsix_handles).andThen
    hvector).unwinding (hback .bar4 (setMsixBar false) · (by simp) fun _ => rfl))

/-- What is not ring memory can be given back at any time. -/
theorem Up.giveBack (hu : Up S false st) {r : Resource} (hr : r.ofRing = false) {u : Softc → Softc}
    (hfw : ∀ st : St, (st.update u).fw = st.fw) {c : Prop} [Decidable c] :
    Up S false (if c then (st.release r).update u else st) := by
  split
  next =>
    have hsame : ((st.release r).update u).fw = st.fw := hfw (st.release r)
    refine ⟨hu.log (congrArg Fw.flag hsame) rfl (by simp) rfl ?_,
      (congrArg Fw.mcdi hsame).trans hu.mcdi⟩
    refine run_watch_of_fixed (List.forall_mem_singleton.mpr ?_)
    simp [watch, hr]
  next => exact hu

/-- `sfc7120_intr_teardown` finds the handler if it is there. -/
theorem intrTeardown_up (hu : Up S h st) : Up S false (intrTeardown st) := by
  have hfirst : Up S false
      (if st.sc.intrInitialized && st.sc.irqResource && st.sc.irqHandle then
        (st.release .intrHandler).update fun sc => { sc with irqHandle := false }
      else st) := by
    cases h with
    | false => exact hu.giveBack rfl fun _ => rfl
    | true =>
      obtain ⟨hirq, hintr, hhandle⟩ := hu.handler rfl
      have hset : (st.sc.intrInitialized && st.sc.irqResource && st.sc.irqHandle) = true := by
        simp only [HostFields.knows, Softc.host] at hirq hintr hhandle
        simp [hirq, hintr, hhandle]
      rw [if_pos hset]
      refine ⟨⟨hu.flag, hu.held, hu.only, by simp, ?_⟩, hu.mcdi⟩
      exact run_append hu.watched rfl
  have hclear : ∀ st : St, Up S false st →
      Up S false (st.update fun sc => { sc with intrInitialized := false }) := fun st hu =>
    ⟨⟨hu.flag, hu.held, hu.only, by simp, hu.watched⟩, hu.mcdi⟩
  unfold intrTeardown
  exact Up.giveBack (Up.giveBack (Up.giveBack (hclear _ hfirst) rfl fun _ => rfl) rfl fun _ => rfl)
    rfl fun _ => rfl

/-- The stages between the interrupt and the node. -/
theorem queueStages_up (hcoded : env.ErrorsCoded) :
    Leaves (Up initialized false) (climb (Stage.step env) queueStages)
      (Up (insert .rxFilter (insert .txq (insert .rxq (insert (.evq .data)
        (insert (.evq .control) initialized))))) true) (fun st => ∃ S h, Up S h st) := by
  have hany : ∀ (S : Finset McObject) (h : Bool) (st : St), Up S h st → ∃ S h, Up S h st :=
    fun S h _ hu => ⟨S, h, hu⟩
  have hpost : ∀ S : Finset McObject, Leaves (Up S true) (Stage.step env .postRxBuffers) (Up S true)
      (Up S true) := by
    intro S
    apply Leaves.of_keeps
    intro st hu
    have hlog : (postRxBuffers st).log =
        st.log ++ [.use (.dmaMem .rxDesc), .use (.dmaMap .rxDesc), .use .bar2] := by
      simp [postRxBuffers, St.use]
    exact ⟨hu.log rfl rfl hu.handler hlog rfl, hu.mcdi⟩
  have hmake : ∀ S : Finset McObject, Leaves (Up S true) (Stage.step env .makeDev) (Up S true)
      (Up S true) := by
    intro S
    apply Leaves.of_keeps
    intro st hu
    simp only [Stage.step, makeDevCapio]
    split
    next => exact ⟨hu.log rfl rfl hu.handler rfl rfl, hu.mcdi⟩
    next => exact ⟨hu.log rfl rfl hu.handler (List.append_nil _).symm rfl, hu.mcdi⟩
  have hintr : Leaves (Up initialized false) (Stage.step env .intrSetup) (Up initialized true)
      (Up initialized false) := intrSetup_live (by decide)
  have hcreate : ∀ (S : Finset McObject) (o : McObject), (o = .evq .data → .evq .control ∈ S) →
      o.minUsed = 0 ∨ o = .rxFilter → Leaves (Up S true) (o.stage.step env)
        (Up (insert o S) true) (Up S true) := fun _ o => create_leaves hcoded o
  have hevq : Leaves (Up initialized true) (Stage.step env .initEvq)
      (Up (insert (.evq .control) initialized) true) (Up initialized true) :=
    hcreate _ (.evq .control) (by simp) (.inl rfl)
  have hdata : Leaves (Up (insert (.evq .control) initialized) true) (Stage.step env .initDataEvq)
      (Up (insert (.evq .data) (insert (.evq .control) initialized)) true)
      (Up (insert (.evq .control) initialized) true) :=
    hcreate _ (.evq .data) (fun _ => Finset.mem_insert_self _ _) (.inl rfl)
  have hrx : ∀ S, Leaves (Up S true) (Stage.step env .initRxq) (Up (insert .rxq S) true)
      (Up S true) := fun S => hcreate S .rxq (by simp) (.inl rfl)
  have htx : ∀ S, Leaves (Up S true) (Stage.step env .initTxq) (Up (insert .txq S) true)
      (Up S true) := fun S => hcreate S .txq (by simp) (.inl rfl)
  have hfilter : ∀ S, Leaves (Up S true) (Stage.step env .filterInsert)
      (Up (insert .rxFilter S) true) (Up S true) := fun S =>
    hcreate S .rxFilter (by simp) (.inr rfl)
  have hstep : ∀ {S S' : Finset McObject} {h h' : Bool} {k : Stage},
      Leaves (Up S h) (Stage.step env k) (Up S' h') (Up S h) →
      Leaves (Up S h) (Stage.step env k) (Up S' h') (fun st => ∃ S h, Up S h st) := fun hk =>
    hk.weaken (fun _ hu => hu) fun st hu => hany _ _ st hu
  exact (hstep hintr).andThen ((hstep hevq).andThen ((hstep hdata).andThen
    ((hstep (hrx _)).andThen ((hstep (hpost _)).andThen ((hstep (htx _)).andThen
      ((hstep (hfilter _)).andThen ((hstep (hmake _)).andThen
        fun st hu => ⟨fun _ => hu, fun hne => absurd rfl hne⟩)))))))

theorem Live.not_blocked (hl : Live S h st) {o : McObject} (hfree : ¬Blocked S o) :
    ¬Blocked st.held o := by
  have honly : ∀ p ∈ McObject.vadaptor :: queues, p ∈ st.held → p ∈ S := fun p hp hheld => by
    refine (hl.only p hheld).resolve_left fun hf => ?_
    rw [hf] at hp
    exact absurd hp (by decide)
  rcases o with _ | _ | _ | (_ | _) | _ | _ | _
  case vis =>
    rintro ⟨p, hp, hheld⟩
    exact hfree ⟨p, hp, honly p hp hheld⟩
  case vadaptor => exact fun hb => hfree (hb.imp (honly _ (by decide)) (honly _ (by decide)))
  case evq.data => exact fun hb => hfree (hb.imp (honly _ (by decide)) (honly _ (by decide)))
  all_goals exact hfree

theorem releaseOf_up (hmc : env.McRules) (hu : Up S h st) (o : McObject) (hfree : ¬Blocked S o) :
    Up (S.erase o) h (releaseOf env o st).1 := by
  have hknown := hu.flag o
  cases hset : st.sc.flag o with
  | false =>
    have hout : o ∉ S := of_decide_eq_false (hknown.symm.trans hset)
    rw [Finset.erase_eq_of_notMem hout, releaseOf_of_clear hset]
    exact hu
  | true =>
    have hlive : o ∈ st.held := hu.held o (of_decide_eq_true (hknown.symm.trans hset))
    have hyes := hmc.accepts st.held _ o o.releaseOp_kind (hu.not_blocked hfree)
    have hhost := forgotten_host o st.sc
    rw [releaseOf_of_accepted hset hu.mcdi hyes]
    refine ⟨⟨fun p => ?_, fun p hp => ?_, fun p hp => ?_, fun hh => ?_, ?_⟩, ?_⟩
    · rw [o.forgotten_flag]
      by_cases hpo : p = o
      · simp [hpo]
      · rw [Function.update_of_ne hpo, hu.flag]
        simp [hpo]
    · obtain ⟨hne, hmem⟩ := Finset.mem_erase.mp hp
      exact Finset.mem_erase.mpr ⟨hne, hu.held p hmem⟩
    · obtain ⟨hne, hmem⟩ := Finset.mem_erase.mp hp
      exact (hu.only p hmem).imp_right fun hS => Finset.mem_erase.mpr ⟨hne, hS⟩
    · rw [hhost]
      exact hu.handler hh
    · refine run_append hu.watched (run_cons.mpr ⟨⟨h, st.held.erase o⟩, ?_, rfl⟩)
      simp only [watch, o.releaseOp_kind, hlive, hyes, and_self, if_true]
    · have hm : st.sc.host.mcdi = true := hu.mcdi
      rw [← hhost] at hm
      exact hm

/-- Whether releasing in this order never meets an object that something live refers to. -/
def Clears (S : Finset McObject) : List McObject → Prop
  | [] => True
  | o :: os => ¬Blocked S o ∧ Clears (S.erase o) os

theorem clears_teardownOrder (S : Finset McObject) : Clears S teardownOrder := by
  simp [Clears, teardownOrder, Blocked, queues]

theorem foldl_erase_teardownOrder (S : Finset McObject) :
    teardownOrder.foldl Finset.erase S = ∅ := by
  refine Finset.eq_empty_of_forall_notMem fun o ho => ?_
  have hmem := mem_teardownOrder o
  simp only [teardownOrder, List.foldl_cons, List.foldl_nil, Finset.mem_erase] at ho
  simp only [teardownOrder, List.mem_cons, List.not_mem_nil, or_false] at hmem
  tauto

/-- The release commands one after the other, each for an object that nothing live refers to. -/
theorem teardown_run {P : Finset McObject → St → Prop}
    (hrelease : ∀ S st o, ¬Blocked S o → P S st → P (S.erase o) (releaseOf env o st).1)
    (hp : P S st) : P ∅ (teardownOrder.foldl (fun st o => (releaseOf env o st).1) st) := by
  rw [← foldl_erase_teardownOrder S]
  have hclear := clears_teardownOrder S
  revert hclear
  generalize teardownOrder = os
  induction os generalizing S st with
  | nil => exact fun _ => hp
  | cons o os ih => exact fun hclear => ih (hrelease S st o hclear.1 hp) hclear.2

theorem mcdiFini_live (hu : Up ∅ false st) : Live ∅ false (mcdiFini st) := by
  have hfreed := hu.toLive.handles (by simp)
    ((freeDmabuf_handles .mcdi st).trans (handles_release _ (r := .mcdiMtx) (by simp)))
  unfold mcdiFini
  rw [hu.mcdi, Bool.not_true, if_neg Bool.false_ne_true]
  exact hfreed.log rfl rfl (by simp) (List.append_nil _).symm rfl

theorem hwTeardown_live (hmc : env.McRules) (hu : Up S false st) :
    Live ∅ false (hwTeardown env st) := by
  apply mcdiFini_live
  exact teardown_run (P := fun S st => Up S false st)
    (fun S st o hfree hu => releaseOf_up hmc hu o hfree) hu

/-- `fail_dma` and detach: handler, then queues, then ring memory. -/
theorem teardown_live (hmc : env.McRules) (hu : Up S h st) :
    Live ∅ false (freeDmaResources (hwTeardown env (intrTeardown st))) :=
  (hwTeardown_live hmc (intrTeardown_up hu)).handles (by simp) (freeDmaResources_handles _)

/-- All that attach creates. -/
def complete : Finset McObject :=
  insert .rxFilter (insert .txq (insert .rxq (insert (.evq .data)
    (insert (.evq .control) initialized))))

/-- What attach does after `hw_init`, up to the last call that can fail. -/
def afterHwInit (env : Env) : Attempt St Errno :=
  andThen (unwinding (hwTeardown env) (Stage.step env .allocDma))
    (unwinding (fun st => freeDmaResources (hwTeardown env (intrTeardown st)))
      (climb (Stage.step env) queueStages))

theorem afterHwInit_leaves (hmc : env.McRules) (hcoded : env.ErrorsCoded) :
    Leaves (Up initialized false) (afterHwInit env) (Up complete true) (Live ∅ false) := by
  have hdma : Leaves (Up initialized false) (Stage.step env .allocDma) (Up initialized false)
      (Up initialized false) := Leaves.of_keeps fun st hu =>
    hu.handles (by decide) (allocBufs_handles dmaOrder st)
  have hqueue : Leaves (Up initialized false)
      (unwinding (fun st => freeDmaResources (hwTeardown env (intrTeardown st)))
        (climb (Stage.step env) queueStages)) (Up complete true) (Live ∅ false) := by
    refine (queueStages_up hcoded).unwinding fun st hu => ?_
    obtain ⟨S, h, hu⟩ := hu
    exact teardown_live hmc hu
  exact (hdma.unwinding fun st hu => hwTeardown_live hmc hu).andThen hqueue

/-- The state in which attach calls `hw_init`. -/
def afterBar2 (env : Env) : St := (allocBar2 env ((St.start.acquire .scMtx).acquire .rxMtx)).1

theorem attach_eq (hbar : env.host.bar2 = true) (hhw : (hwInit env (afterBar2 env)).2 = none) :
    attach env St.start =
      andThen (unwinding (fun st => (st.release .rxMtx).release .scMtx)
        (unwinding (fun st => (st.release .busMaster).release .bar2) (afterHwInit env)))
        (fun st => (publish st, none)) (hwInit env (afterBar2 env)).1 := by
  have hok : (Stage.step env .bar2 ((St.start.acquire .scMtx).acquire .rxMtx)).2 = none := by
    simp [Stage.step, allocBar2, hbar]
  refine andThen_congr (unwinding_congr ?_)
  rw [andThen_of_none hok]
  refine unwinding_congr ?_
  exact andThen_of_none hhw

theorem afterBar2_live (hbar : env.host.bar2 = true) : Live ∅ false (afterBar2 env) := by
  have hstart : Live ∅ false St.start := by
    refine ⟨fun o => ?_, by simp, by simp [St.start], by simp, rfl⟩
    rcases o with _ | _ | _ | (_ | _) | _ | _ | _ <;> rfl
  have hlocks : Handles St.start ((St.start.acquire .scMtx).acquire .rxMtx) :=
    (handles_acquire _ (by simp)).trans (handles_acquire _ (by simp))
  have hbus : Handles ((St.start.acquire .scMtx).acquire .rxMtx) (afterBar2 env) := by
    unfold afterBar2 allocBar2
    rw [if_pos hbar]
    have hmapped : Handles ((St.start.acquire .scMtx).acquire .rxMtx)
        ((((St.start.acquire .scMtx).acquire .rxMtx).acquire .bar2).update (setMemResource true)) :=
      (handles_acquire _ (by simp)).store rfl rfl
    exact hmapped.trans (handles_acquire _ (by simp))
  exact hstart.handles (by simp) (hlocks.trans hbus)

theorem publish_up (hu : Up S true st) : Up S true (publish st) := by
  have hlog : (publish st).log = st.log ++ [.acquire .capMtx, .use .bar2] := by
    simp [publish, St.acquire, St.use, St.update]
  exact ⟨hu.log rfl rfl hu.handler hlog rfl, hu.mcdi⟩

theorem attach_live (hmc : env.McRules) (hcoded : env.ErrorsCoded) (hbar : env.host.bar2 = true)
    (hhw : (hwInit env (afterBar2 env)).2 = none) :
    ((attach env St.start).2 = none → Up complete true (attach env St.start).1) ∧
    ((attach env St.start).2 ≠ none → Live ∅ false (attach env St.start).1) := by
  have hup := (hwInit_live hcoded _ (afterBar2_live hbar)).1 hhw
  have hback : ∀ (r r' : Resource) (st : St), r ≠ .intrHandler → r' ≠ .intrHandler →
      Live ∅ false st → Live ∅ false ((st.release r).release r') := fun r r' st hr hr' hl =>
    hl.handles (by simp) ((handles_release st hr).trans (handles_release _ hr'))
  have hbus := (afterHwInit_leaves hmc hcoded).unwinding
    (hback .busMaster .bar2 · (by simp) (by simp))
  have hlocks := hbus.unwinding (hback .rxMtx .scMtx · (by simp) (by simp))
  have hpublish : Leaves (Up complete true) (fun st => (publish st, (none : Option Errno)))
      (Up complete true) (Live ∅ false) := fun st hu =>
    ⟨fun _ => publish_up hu, fun hne => absurd rfl hne⟩
  rw [attach_eq hbar hhw]
  exact (hlocks.andThen hpublish) _ hup

theorem releaseCdev_up (hu : Up S true st) : Up S true (releaseCdev st) := by
  unfold releaseCdev
  split
  next => exact ⟨hu.log rfl rfl hu.handler rfl rfl, hu.mcdi⟩
  next => exact hu

theorem releaseBar2_handles (st : St) : Handles st (releaseBar2 st) := by
  unfold releaseBar2
  split
  next => exact (handles_release st (by simp)).store rfl rfl
  next => exact .refl st

theorem detach_live (hmc : env.McRules) (hu : Up S true st) : Live ∅ false (detach env st) := by
  have hdead : Up S true ((st.use .scMtx).update fun sc => { sc with deviceAttached := false }) :=
    ⟨hu.log rfl rfl hu.handler rfl rfl, hu.mcdi⟩
  have hdown := teardown_live hmc (releaseCdev_up hdead)
  have hrest : ∀ st : St, Handles st
      (((((releaseBar2 st).release .busMaster).release .capMtx).release .rxMtx).release .scMtx) :=
    fun st => ((((releaseBar2_handles st).trans (handles_release _ (by simp))).trans
      (handles_release _ (by simp))).trans (handles_release _ (by simp))).trans
      (handles_release _ (by simp))
  exact hdown.handles (by simp) (hrest _)

/-- With an MC that refuses to release what is still referred to: once `hw_init` has succeeded,
whatever makes attach fail later, and in the detach after an attach that did not fail, every
release command is sent for a live object and succeeds, every live object is released, and ring
memory goes only after the handler and all queues. -/
theorem rings_freed_unused (env : Env) (hmc : env.McRules) (hcoded : env.ErrorsCoded)
    (hbar : env.host.bar2 = true) (hhw : (hwInit env (afterBar2 env)).2 = none) :
    ((attach env St.start).2 ≠ none → Orderly (attach env St.start).1) ∧
    ((attach env St.start).2 = none → Orderly (detach env (attach env St.start).1)) := by
  obtain ⟨hok, hfail⟩ := attach_live hmc hcoded hbar hhw
  exact ⟨fun hne => (hfail hne).orderly, fun hnone => (detach_live hmc (hok hnone)).orderly⟩

end

/-- The MC of `McRules`. -/
def mcRelease (live : Finset McObject) (op : Op) : Answer :=
  match op.kind with
  | .releases o => if Blocked live o then .error (dwords [16]) else .success []
  | _ => .success []

/-- Commands are answered as in `env`, releases by that MC. -/
def withMc (env : Env) : Env := { env with release := mcRelease }

theorem withMc_rules (env : Env) : (withMc env).McRules where
  refuses live op o hop hb := by simp [withMc, mcRelease, hop, hb]
  accepts live op o hop hb := by simp [withMc, mcRelease, hop, hb, Answer.isSuccess]

/-- The firmware refuses the TX queue with EBUSY. -/
def txqRefused : Env :=
  withMc (faultEnv fun op => if op = .initTxq then some (.error (dwords [16])) else none)

theorem txqRefused_coded : txqRefused.ErrorsCoded := by
  intro op k payload ha
  simp only [txqRefused, withMc, faultEnv] at ha
  split at ha
  next =>
    rw [Option.getD_some, Answer.error.injEq] at ha
    rw [← ha]
    decide
  next => exact absurd ha (by simp)

/-- Nothing fails. -/
def allGood : Env := withMc (faultEnv fun _ => none)

theorem allGood_coded : allGood.ErrorsCoded := by
  intro op k payload ha
  exact absurd ha (by simp [allGood, withMc, faultEnv])

theorem rings_freed_unused_samples :
    ((attach txqRefused St.start).2 = some .EBUSY ∧ Orderly (attach txqRefused St.start).1) ∧
      ((attach allGood St.start).2 = none ∧
        Orderly (detach allGood (attach allGood St.start).1)) := by
  have hfail : (attach txqRefused St.start).2 = some .EBUSY := by decide +kernel
  have hgood : (attach allGood St.start).2 = none := by decide +kernel
  refine ⟨⟨hfail, ?_⟩, hgood, ?_⟩
  · exact (rings_freed_unused txqRefused (withMc_rules _) txqRefused_coded rfl
      (by decide +kernel)).1 (by simp [hfail])
  · exact (rings_freed_unused allGood (withMc_rules _) allGood_coded rfl
      (by decide +kernel)).2 hgood

end Sfc7120.Attach

import Sfc7120.Attach.Wire

/-! What the MC is left with. Whatever it held for this function before, after a successful attach
its tables are the ones the driver's fields describe, and detach empties them: every release
command names the instance or the handle that its create command did. -/
namespace Sfc7120.Attach

open ByteMemory Mcdi Ladder Machine

/-- The driver's flags say `S`, and so do the MC's tables. -/
structure Wired (t : Tables) (S : Finset McObject) (h : Bool) (st : St) : Prop
    extends Up S h st where
  tables : st.tables t = configured S st.sc.wiring

/-- Both ends of the mailbox, and what either side believes to be there. -/
def St.ends (t : Tables) (st : St) : Tables × Wiring × Fw := (st.tables t, st.sc.wiring, st.fw)

section
variable {env : Env} {t : Tables} {S : Finset McObject} {h h' : Bool} {st st' : St} {op : Op}
  {o : McObject} {inp payload : List Byte} {k minUsed : ℕ} {store : ExecResult → Softc → Softc}

theorem Wired.keeps (hw : Wired t S h st) (hup : Up S h' st')
    (htables : st'.tables t = st.tables t) (hsame : ∀ o ∈ S, o.Same st.sc.wiring st'.sc.wiring) :
    Wired t S h' st' := by
  refine ⟨hup, ?_⟩
  rw [htables, hw.tables, configured_congr hsame]

theorem same_of_eq {w w' : Wiring} (hw : w' = w) (o : McObject) : o.Same w w' := by
  subst hw
  cases o <;> simp [McObject.Same]

theorem Wired.ends (hw : Wired t S h st) (hup : Up S h' st') (hends : st'.ends t = st.ends t) :
    Wired t S h' st' :=
  hw.keeps hup (congrArg (·.1) hends) fun o _ => same_of_eq (congrArg (·.2.1) hends) o

theorem dwordAt_take {bs : List Byte} {n i : ℕ} (hi : i + 4 ≤ n) :
    dwordAt (bs.take n) i = dwordAt bs i := by
  rw [dwordAt, List.drop_take, List.take_take, Nat.min_eq_left (by omega), dwordAt]

/-- The handle kept is the one in the response. -/
theorem handle_of_success (ha : env.answer .filterInsert 0 = .success payload)
    (hlong : ¬used (env.result .filterInsert 0) < 12) :
    dwordAt (env.result .filterInsert 0).out 8 ++ dwordAt (env.result .filterInsert 0).out 4 =
      qwordAt payload 4 := by
  have hlen : 12 ≤ payload.length := by
    rw [(result_rc_of_success ha).2] at hlong
    omega
  have hout : (env.result .filterInsert 0).out = payload.take 12 := by
    simp [Env.result, ha, Answer.result, Op.outLen, Nat.sub_eq_zero_of_le hlen]
  rw [hout, dwordAt_take (by omega), dwordAt_take (by omega)]
  rfl

/-- A create stage that succeeded, as the MC reads its command. -/
theorem create_tables (hcoded : env.ErrorsCoded) (hnew : st.sc.flag o = false)
    (hok : (o.stage.step env st).2 = none) : ∃ payload,
      (o.stage.step env st).1.tables t = (st.tables t).serve payload (o.request st.sc.wiring) ∧
      (o.stage.step env st).1.sc.wiring = if o = .rxFilter then
        { st.sc.wiring with filterHandle := qwordAt payload 4 } else st.sc.wiring := by
  have hcases := creates env o st
  generalize o.stage.step env st = x at hcases hok ⊢
  cases hcases with
  | refused hwhy => exact absurd hok (by simp)
  | present hset => exact absurd (hnew.symm.trans hset) (by simp)
  | failed flags hrc => exact absurd hok (by simp)
  | created hgo hold hrc =>
    obtain ⟨hcmd, -⟩ := createRc_eq_none_iff.mp hrc
    obtain ⟨hres, hlong⟩ := commandRc_eq_none hcmd
    have hyes := success_of_rc hcoded hres
    cases ha : env.answer o.createOp 0 with
    | success payload =>
      refine ⟨payload, ?_, ?_⟩
      · rw [← read_createIn]
        apply tables_success
        simp only [St.update, sent, ha]
      · simp only [St.update, sent, stored_wiring]
        split
        next ho =>
          subst ho
          rw [← handle_of_success ha (not_lt.mpr hlong)]
          rfl
        next => rfl
    | _ => simp [ha, Answer.isSuccess] at hyes

theorem create_wired (hcoded : env.ErrorsCoded) (o : McObject) (hnew : o ∉ S)
    (hctl : o = .evq .data → .evq .control ∈ S) :
    Leaves (Wired t S h) (o.stage.step env) (Wired t (insert o S) h) fun _ => True := by
  intro st hw
  refine ⟨fun hok => ⟨(create_up hcoded o hctl hw.toUp).1 hok, ?_⟩, fun _ => trivial⟩
  obtain ⟨payload, htables, hwiring⟩ :=
    create_tables (t := t) hcoded ((hw.flag o).trans (decide_eq_false hnew)) hok
  generalize (o.stage.step env st).1 = st' at htables hwiring ⊢
  have hsame : ∀ p ∈ S, p.Same st.sc.wiring st'.sc.wiring := by
    intro p hp
    have hpo : p ≠ o := ne_of_mem_of_not_mem hp hnew
    rw [hwiring]
    split
    next ho =>
      cases p with
      | rxFilter => exact absurd ho.symm hpo
      | _ => simp [McObject.Same]
    next => exact same_of_eq rfl p
  have hrequest : o.request st.sc.wiring = o.request st'.sc.wiring := by
    rw [hwiring]
    split
    next ho =>
      subst ho
      rfl
    next => rfl
  rw [htables, hrequest, hw.tables, ← configured_congr hsame]
  refine serve_request fun ho => ?_
  rw [hwiring, if_pos ho]

end

section
variable {env : Env} {t : Tables} {S : Finset McObject} {h : Bool} {st st' : St} {τ : Type}
  {op : Op} {inp : List Byte} {k minUsed : ℕ} {store : ExecResult → Softc → Softc}

@[simp] theorem acquire_ends (r : Resource) : (st.acquire r).ends t = st.ends t :=
  congrArg (·, st.sc.wiring, st.fw) (tables_of_fixed rfl (by simp [Tables.hear]))

@[simp] theorem release_ends (r : Resource) : (st.release r).ends t = st.ends t :=
  congrArg (·, st.sc.wiring, st.fw) (tables_of_fixed rfl (by simp [Tables.hear]))

@[simp] theorem use_ends (r : Resource) : (st.use r).ends t = st.ends t :=
  congrArg (·, st.sc.wiring, st.fw) (tables_of_fixed rfl (by simp [Tables.hear]))

theorem update_ends {f : Softc → Softc}
    (hf : ((f st.sc).wiring, (st.update f).fw) = (st.sc.wiring, st.fw)) :
    (st.update f).ends t = st.ends t := Prod.ext rfl hf

theorem exec_sc (env : Env) (op : Op) (inp : List Byte) (k : ℕ) (st : St) :
    (exec env op inp k st).1.sc = st.sc := by
  simp only [exec]
  split_ifs <;> rfl

/-- A view of the softc that the stores of a wrapper leave alone. -/
theorem command_view {v : Softc → τ} (hstore : ∀ r sc, v (store r sc) = v sc) :
    v (command env op inp k minUsed store st).1.sc = v st.sc := by
  have hexec := exec_sc env op inp k st
  unfold command
  simp only
  split
  next => rw [hexec]
  next =>
    split
    next => rw [hexec]
    next =>
      rw [← hexec]
      exact hstore _ _

theorem waitLink_flags (left i : ℕ) :
    vadaptorFlags (waitLink env left i st).1.sc = vadaptorFlags st.sc := by
  induction left generalizing i st with
  | zero => rfl
  | succ left ih =>
    have hlink : vadaptorFlags (getLink env i st).1.sc = vadaptorFlags st.sc :=
      command_view fun _ _ => rfl
    simp only [waitLink]
    split
    next => exact hlink
    next =>
      split
      next => exact hlink
      next => exact (ih (i + 1)).trans hlink

/-- The stages after the vAdaptor leave alone what its flags are computed from. -/
theorem linkStage_flags {k : Stage} (hk : k ∈ [.getPhyCfg, .setMac, .setLink, .getLink]) :
    vadaptorFlags (Stage.step env k st).1.sc = vadaptorFlags st.sc := by
  simp only [List.mem_cons, List.not_mem_nil, or_false] at hk
  rcases hk with rfl | rfl | rfl | rfl
  · exact command_view fun _ _ => rfl
  · simp only [Stage.step, setMac, tolerateEacces_fst]
    exact command_view fun _ _ => rfl
  · have hlink : vadaptorFlags (Stage.step env .setLink st).1.sc =
        vadaptorFlags (st.update fun sc =>
          { sc with phyAdvCapMask := st.sc.phySupportedCapMask ||| BitVec.twoPow 32 10 }).sc :=
      command_view fun _ _ => rfl
    exact hlink
  · exact waitLink_flags 30 0

theorem allocBufs_flags (bs : List DmaBuf) (st : St) :
    vadaptorFlags (allocBufs env bs st).1.sc = vadaptorFlags st.sc := by
  have halloc : ∀ b (st : St), vadaptorFlags (allocDmabuf env b st).1.sc = vadaptorFlags st.sc := by
    intro b st
    obtain ⟨evs, g, hst, -⟩ := allocDmabuf_cases env b st
    rw [hst]
    rfl
  have hfree : ∀ b (st : St), vadaptorFlags (freeDmabuf b st).sc = vadaptorFlags st.sc := by
    intro b st
    simp only [freeDmabuf]
    split_ifs <;> rfl
  have hprime : ∀ b (st : St), vadaptorFlags (primeRing b st).sc = vadaptorFlags st.sc := by
    intro b st
    unfold primeRing
    split_ifs <;> rfl
  induction bs generalizing st with
  | nil => rfl
  | cons b bs ih =>
    exact andThen_frame (v := fun st => vadaptorFlags st.sc) (halloc b)
      (unwinding_frame (v := fun st => vadaptorFlags st.sc) (hfree b)
        fun st => (ih _).trans (hprime b st)) st

theorem intrSetup_ends (st : St) : (intrSetup env st).1.ends t = st.ends t := by
  have hbar : ∀ st, (allocMsixBar env st).1.ends t = st.ends t := by
    intro st
    unfold allocMsixBar
    split_ifs
    · rfl
    · exact (update_ends rfl).trans (acquire_ends _)
    · exact update_ends rfl
  have hmsix : ∀ st, (allocMsix env st).1.ends t = st.ends t := by
    intro st
    unfold allocMsix
    split
    next => rfl
    next => exact acquire_ends _
  have hirq : ∀ st, (allocIrq env st).1.ends t = st.ends t := by
    intro st
    simp only [allocIrq]
    split_ifs
    · rfl
    · exact (update_ends rfl).trans ((acquire_ends _).trans (update_ends rfl))
    · exact (update_ends rfl).trans (update_ends rfl)
  have hintr : ∀ st, (setupIntr env st).1.ends t = st.ends t := by
    intro st
    unfold setupIntr
    split
    next => rfl
    next => exact (update_ends rfl).trans (acquire_ends _)
  have hback : ∀ (r : Resource) (u : Softc → Softc),
      (∀ st : St, ((u st.sc).wiring, (st.update u).fw) = (st.sc.wiring, st.fw)) →
      ∀ st : St, ((st.release r).update u).ends t = st.ends t := fun r u hu st =>
    (update_ends (hu _)).trans (release_ends r)
  unfold intrSetup
  refine andThen_frame (v := St.ends t) hbar (unwinding_frame ?_ (andThen_frame hmsix
    (unwinding_frame ?_ (andThen_frame hirq (unwinding_frame ?_ hintr))))) st
  all_goals exact hback _ _ fun _ => rfl

theorem intrTeardown_ends (st : St) : (intrTeardown st).ends t = st.ends t := by
  have hpart : ∀ {c : Prop} {d : Decidable c} {r : Resource} {u : Softc → Softc} {st : St},
      (∀ st : St, ((u st.sc).wiring, (st.update u).fw) = (st.sc.wiring, st.fw)) →
      (if c then (st.release r).update u else st).ends t = st.ends t := by
    intro c d r u st hu
    split_ifs
    · exact (update_ends (hu _)).trans (release_ends r)
    · rfl
  unfold intrTeardown
  refine (hpart ?_).trans ((hpart ?_).trans ((hpart ?_).trans ((update_ends ?_).trans (hpart ?_))))
  all_goals intros; rfl

theorem makeDevCapio_ends (st : St) : (makeDevCapio env st).1.ends t = st.ends t := by
  unfold makeDevCapio
  split
  next => exact (update_ends rfl).trans (acquire_ends _)
  next => exact update_ends rfl

theorem publish_ends (st : St) : (publish st).ends t = st.ends t :=
  (use_ends _).trans ((update_ends rfl).trans (acquire_ends _))

theorem releaseCdev_ends (st : St) : (releaseCdev st).ends t = st.ends t := by
  unfold releaseCdev
  split
  next => exact (update_ends rfl).trans (release_ends _)
  next => rfl

end

/-- From the attach command on: nothing of this driver's but the attachment, and whatever `t`
held. -/
structure Found (t : Tables) (st : St) : Prop extends Up {.attachment} false st where
  tables : st.tables t = { t with attached := true }

section
variable {env : Env} {t : Tables} {S : Finset McObject} {h : Bool} {st st' : St}

theorem configured_attachment (w : Wiring) :
    configured {.attachment} w = { Tables.empty with attached := true } := by
  simp [configured, Tables.empty, single]

theorem drvAttach_found (hcoded : env.ErrorsCoded) :
    Leaves (fun st => Up ∅ false st ∧ st.tables t = t) (Stage.step env .drvAttach) (Found t)
      fun _ => True := by
  rintro st ⟨hu, ht⟩
  refine ⟨fun hok => ⟨(create_up hcoded .attachment (by simp) hu).1 hok, ?_⟩, fun _ => trivial⟩
  obtain ⟨payload, htables, -⟩ :=
    create_tables (t := t) hcoded ((hu.flag .attachment).trans (by simp)) hok
  refine Eq.trans htables ?_
  rw [ht]
  rfl

/-- The reset clears what was found, and where it is refused there was nothing. -/
theorem entityReset_wired (ht : t = Tables.empty ∨ (env.answer .entityReset 0).isSuccess = true) :
    Leaves (Found t) (entityReset env) (Wired t {.attachment} false) fun _ => True := by
  intro st hf
  refine ⟨fun _ => ⟨entityReset_up hf.toUp, ?_⟩, fun _ => trivial⟩
  have hlog : (entityReset env st).1.log =
      st.log ++ [.mcdi .entityReset (dwords [1]) (env.answer .entityReset 0)] := by
    have hexec : exec env .entityReset (dwords [1]) 0 st =
        (sent env .entityReset (dwords [1]) 0 st, env.result .entityReset 0) :=
      exec_eq _ _ hf.mcdi (by decide) (by simp [Op.kind])
    simp only [entityReset, tolerateEacces_fst, command, hexec]
    cases (env.result .entityReset 0).rc with
    | some e => rfl
    | none => simp only; split_ifs <;> rfl
  rw [configured_attachment]
  cases ha : env.answer .entityReset 0 with
  | success payload =>
    rw [ha] at hlog
    rw [tables_success hlog, hf.tables]
    rfl
  | _ =>
    rw [ha] at hlog
    have hempty : t = Tables.empty := ht.resolve_right (by simp [ha, Answer.isSuccess])
    rw [tables_of_fixed hlog (by simp [Tables.hear]), hf.tables, hempty]

/-- A stage that only asks, where nothing is there that it could change the description of. -/
theorem asks_wired {k : Stage} (hk : k ∈ queryStages)
    (hsame : ∀ st, ∀ o ∈ S, o.Same st.sc.wiring (Stage.step env k st).1.sc.wiring) :
    Leaves (Wired t S h) (Stage.step env k) (Wired t S h) fun _ => True := by
  intro st hw
  refine ⟨fun hok => ?_, fun _ => trivial⟩
  exact hw.keeps ((asks_leaves hk st hw.toUp).1 hok) (stage_asks hk).tables (hsame st)

theorem same_attachment {w w' : Wiring} : ∀ o ∈ ({.attachment} : Finset McObject), o.Same w w' := by
  simp [McObject.Same]

theorem same_initialized {w w' : Wiring} (hflags : w'.vadaptorFlags = w.vadaptorFlags) :
    ∀ o ∈ initialized, o.Same w w' := by
  simp [initialized, McObject.Same, hflags]

theorem hwInit_wired (hcoded : env.ErrorsCoded)
    (ht : t = Tables.empty ∨ (env.answer .entityReset 0).isSuccess = true) :
    Leaves (fun st => Live ∅ false st ∧ st.tables t = t) (hwInit env) (Wired t initialized false)
      (fun _ => True) := by
  have hinit : Leaves (fun st => Live ∅ false st ∧ st.tables t = t) (mcdiInit env)
      (fun st => Up ∅ false st ∧ st.tables t = t) (fun _ => True) := by
    rintro st ⟨hl, htab⟩
    refine ⟨fun hok => ⟨(mcdiInit_live st hl).1 hok, ?_⟩, fun _ => trivial⟩
    have hsetup : ∀ st : St, (mcdiSetup env st).1.tables t = st.tables t := fun st =>
      (mcdiSetup_handles st).tables
    have hinit : (mcdiInit env st).1.tables t = (st.acquire .mcdiMtx).tables t := by
      unfold mcdiInit
      exact andThen_frame (v := fun st : St => st.tables t) hsetup (fun _ => rfl) _
    exact hinit.trans ((handles_acquire st (by simp)).tables.trans htab)
  have hversion : Leaves (fun st => Up ∅ false st ∧ st.tables t = t) (Stage.step env .getVersion)
      (fun st => Up ∅ false st ∧ st.tables t = t) (fun _ => True) := by
    rintro st ⟨hu, htab⟩
    have hasks : Asks st (Stage.step env .getVersion st).1 := stage_asks (by decide)
    exact ⟨fun hok => ⟨(asks_leaves (by decide) st hu).1 hok, hasks.tables.trans htab⟩,
      fun _ => trivial⟩
  have hasserts : Leaves (Found t) (Stage.step env .clearAssertions) (Found t) fun _ => True := by
    intro st hf
    have hasks : Asks st (Stage.step env .clearAssertions st).1 := stage_asks (by decide)
    exact ⟨fun hok => ⟨(asks_leaves (by decide) st hf.toUp).1 hok, hasks.tables.trans hf.tables⟩,
      fun _ => trivial⟩
  have hlink : ∀ k ∈ [Stage.getPhyCfg, .setMac, .setLink, .getLink],
      Leaves (Wired t initialized false) (Stage.step env k) (Wired t initialized false)
        fun _ => True := by
    intro k hk
    have hquery : k ∈ queryStages :=
      (show ∀ k ∈ [Stage.getPhyCfg, .setMac, .setLink, .getLink], k ∈ queryStages by decide) k hk
    exact asks_wired hquery fun st => same_initialized (linkStage_flags hk)
  have hask : ∀ k ∈ [Stage.getMac, .dumpFuncInfo], Leaves (Wired t {.attachment} false)
      (Stage.step env k) (Wired t {.attachment} false) fun _ => True := by
    intro k hk
    have hquery : k ∈ queryStages :=
      (show ∀ k ∈ [Stage.getMac, .dumpFuncInfo], k ∈ queryStages by decide) k hk
    exact asks_wired hquery fun st => same_attachment
  have hdone : ∀ P : St → Prop, Leaves P (climb (Stage.step env) []) P (fun _ => True) :=
    fun P st hp => ⟨fun _ => hp, fun _ => trivial⟩
  have hmcdi : Leaves (fun st => Up ∅ false st ∧ st.tables t = t)
      (climb (Stage.step env) mcdiStages) (Found t) (fun _ => True) :=
    hversion.andThen ((drvAttach_found hcoded).andThen (hasserts.andThen (hdone _)))
  have hrest : Leaves (Wired t initialized false)
      (climb (Stage.step env) [.getPhyCfg, .setMac, .setLink, .getLink])
      (Wired t initialized false) (fun _ => True) :=
    (hlink _ (by simp)).andThen ((hlink _ (by simp)).andThen ((hlink _ (by simp)).andThen
      ((hlink _ (by simp)).andThen (hdone _))))
  have hfunction : Leaves (Found t) (climb (Stage.step env) functionStages)
      (Wired t initialized false) (fun _ => True) :=
    (entityReset_wired ht).andThen ((hask _ (by simp)).andThen ((hask _ (by simp)).andThen
      ((create_wired hcoded .vis (by decide) (by simp)).andThen
        ((create_wired hcoded .vadaptor (by decide) (by simp)).andThen hrest))))
  exact hinit.andThen ((hmcdi.andThen (hfunction.unwinding fun _ _ => trivial)).unwinding
    fun _ _ => trivial)

theorem queueStages_wired (hcoded : env.ErrorsCoded) :
    Leaves (Wired t initialized false) (climb (Stage.step env) queueStages)
      (Wired t complete true) (fun _ => True) := by
  have hintr : Leaves (Wired t initialized false) (Stage.step env .intrSetup)
      (Wired t initialized true) (fun _ => True) := fun st hw =>
    ⟨fun hok => hw.ends ((intrSetup_live (by decide) st hw.toUp).1 hok) (intrSetup_ends st),
      fun _ => trivial⟩
  have hpost : ∀ S, Leaves (Wired t S true) (Stage.step env .postRxBuffers) (Wired t S true)
      (fun _ => True) := by
    intro S st hw
    have hlog : (postRxBuffers st).log =
        st.log ++ [.use (.dmaMem .rxDesc), .use (.dmaMap .rxDesc), .use .bar2] := by
      simp [postRxBuffers, St.use]
    refine ⟨fun _ => hw.ends ⟨hw.log rfl rfl hw.handler hlog rfl, hw.mcdi⟩ ?_, fun _ => trivial⟩
    exact (use_ends _).trans ((use_ends _).trans (use_ends _))
  have hmake : ∀ S, Leaves (Wired t S true) (Stage.step env .makeDev) (Wired t S true)
      (fun _ => True) := by
    intro S st hw
    refine ⟨fun _ => ?_, fun _ => trivial⟩
    refine hw.ends ?_ (makeDevCapio_ends st)
    simp only [Stage.step, makeDevCapio]
    split
    next => exact ⟨hw.log rfl rfl hw.handler rfl rfl, hw.mcdi⟩
    next => exact ⟨hw.log rfl rfl hw.handler (List.append_nil _).symm rfl, hw.mcdi⟩
  have hcreate : ∀ (S : Finset McObject) (o : McObject), o ∉ S →
      (o = .evq .data → .evq .control ∈ S) → Leaves (Wired t S true) (o.stage.step env)
        (Wired t (insert o S) true) (fun _ => True) := fun _ o => create_wired hcoded o
  have hevq : Leaves (Wired t initialized true) (Stage.step env .initEvq)
      (Wired t (insert (.evq .control) initialized) true) (fun _ => True) :=
    hcreate _ (.evq .control) (by decide) (by simp)
  have hdata : Leaves (Wired t (insert (.evq .control) initialized) true)
      (Stage.step env .initDataEvq)
      (Wired t (insert (.evq .data) (insert (.evq .control) initialized)) true) (fun _ => True) :=
    hcreate _ (.evq .data) (by decide) fun _ => Finset.mem_insert_self _ _
  have hrx := hcreate (insert (.evq .data) (insert (.evq .control) initialized)) .rxq (by decide)
    (by simp)
  have htx := hcreate (insert .rxq (insert (.evq .data) (insert (.evq .control) initialized)))
    .txq (by decide) (by simp)
  have hfilter := hcreate (insert .txq (insert .rxq (insert (.evq .data)
    (insert (.evq .control) initialized)))) .rxFilter (by decide) (by simp)
  exact hintr.andThen (hevq.andThen (hdata.andThen (hrx.andThen ((hpost _).andThen
    (htx.andThen (hfilter.andThen ((hmake _).andThen
      fun st hw => ⟨fun _ => hw, fun _ => trivial⟩)))))))

theorem allocBar2_handles (st : St) : Handles st (allocBar2 env st).1 := by
  unfold allocBar2
  split
  next =>
    have hmapped : Handles st ((st.acquire .bar2).update (setMemResource true)) :=
      (handles_acquire st (by simp)).store rfl rfl
    exact hmapped.trans (handles_acquire _ (by simp))
  next => exact (Grows.refl st).store rfl rfl

theorem attach_wired (hcoded : env.ErrorsCoded)
    (ht : t = Tables.empty ∨ (env.answer .entityReset 0).isSuccess = true) :
    Leaves (fun st => Live ∅ false st ∧ st.tables t = t) (attach env) (Wired t complete true)
      (fun _ => True) := by
  have hhandles : ∀ {f : St → St}, (∀ st, Handles st (f st)) → ∀ st,
      Live ∅ false st ∧ st.tables t = t → Live ∅ false (f st) ∧ (f st).tables t = t :=
    fun hf st hp => ⟨hp.1.handles (by simp) (hf st), (hf st).tables.trans hp.2⟩
  have hbar : Leaves (fun st => Live ∅ false st ∧ st.tables t = t) (Stage.step env .bar2)
      (fun st => Live ∅ false st ∧ st.tables t = t) (fun _ => True) := by
    intro st hp
    exact ⟨fun _ => hhandles (f := fun st => (allocBar2 env st).1) allocBar2_handles st hp,
      fun _ => trivial⟩
  have hdma : Leaves (Wired t initialized false) (Stage.step env .allocDma)
      (Wired t initialized false) (fun _ => True) := fun st hw =>
    ⟨fun _ => hw.keeps (hw.toUp.handles (by decide) (allocBufs_handles dmaOrder st))
      (allocBufs_handles dmaOrder st).tables (same_initialized (allocBufs_flags dmaOrder st)),
      fun _ => trivial⟩
  have hpublish : Leaves (Wired t complete true) (fun st => (publish st, (none : Option Errno)))
      (Wired t complete true) (fun _ => True) := fun st hw =>
    ⟨fun _ => hw.ends (publish_up hw.toUp) (publish_ends st), fun _ => trivial⟩
  have hup := hbar.andThen (((hwInit_wired hcoded ht).andThen ((hdma.unwinding
    (c := hwTeardown env) fun _ _ => trivial).andThen ((queueStages_wired hcoded).unwinding
      (c := fun st => freeDmaResources (hwTeardown env (intrTeardown st)))
        fun _ _ => trivial))).unwinding
          (c := fun st => (st.release .busMaster).release .bar2) fun _ _ => trivial)
  have hall := (hup.unwinding (c := fun st => (st.release .rxMtx).release .scMtx)
    fun _ _ => trivial).andThen hpublish
  intro st hp
  exact hall _ (hhandles (f := fun st => (st.acquire .scMtx).acquire .rxMtx)
    (fun st => (handles_acquire st (by simp)).trans (handles_acquire _ (by simp))) st hp)

/-- The release command of an object that is there names what its create command named. -/
theorem releaseOf_wired (hmc : env.McRules) (hw : Wired t S h st) (o : McObject)
    (hfree : ¬Blocked S o) : Wired t (S.erase o) h (releaseOf env o st).1 := by
  refine ⟨releaseOf_up hmc hw.toUp o hfree, ?_⟩
  have hknown := hw.flag o
  cases hset : st.sc.flag o with
  | false =>
    have hout : o ∉ S := of_decide_eq_false (hknown.symm.trans hset)
    rw [Finset.erase_eq_of_notMem hout, releaseOf_of_clear hset]
    exact hw.tables
  | true =>
    have hyes := hmc.accepts st.held _ o o.releaseOp_kind (hw.not_blocked hfree)
    rw [releaseOf_of_accepted hset hw.mcdi hyes]
    cases ha : env.release st.held o.releaseOp with
    | success payload =>
      rw [tables_success rfl, read_releaseIn, hw.tables, serve_discard, forgotten_wiring]
    | _ => simp [ha, Answer.isSuccess] at hyes

theorem hwTeardown_tables (hmc : env.McRules) (hw : Wired t S h st) :
    (hwTeardown env st).tables t = Tables.empty := by
  have hall := teardown_run (P := fun S st => Wired t S h st)
    (fun S st o hfree hw => releaseOf_wired hmc hw o hfree) hw
  have hfini : ∀ st : St, (mcdiFini st).tables t = st.tables t := by
    intro st
    unfold mcdiFini
    split
    next => rfl
    next =>
      have hfree : Handles st ((freeDmabuf .mcdi st).release .mcdiMtx) :=
        (freeDmabuf_handles .mcdi st).trans (handles_release _ (by simp))
      exact hfree.tables
  rw [hwTeardown, hfini, hall.tables, configured_empty]

theorem detach_tables (hmc : env.McRules) (hw : Wired t S true st) :
    (detach env st).tables t = Tables.empty := by
  have hdead : Wired t S true
      ((st.use .scMtx).update fun sc => { sc with deviceAttached := false }) :=
    hw.ends ⟨hw.log rfl rfl hw.handler rfl rfl, hw.mcdi⟩ ((update_ends rfl).trans (use_ends _))
  have hgone := hdead.ends (releaseCdev_up hdead.toUp) (releaseCdev_ends _)
  have hquiet := hgone.ends (intrTeardown_up hgone.toUp) (intrTeardown_ends _)
  have hrest : ∀ st : St, Handles st
      (((((releaseBar2 (freeDmaResources st)).release .busMaster).release .capMtx).release
        .rxMtx).release .scMtx) := fun st =>
    (((((freeDmaResources_handles st).trans (releaseBar2_handles _)).trans
      (handles_release _ (by simp))).trans (handles_release _ (by simp))).trans
      (handles_release _ (by simp))).trans (handles_release _ (by simp))
  exact (hrest _).tables.trans (hwTeardown_tables hmc hquiet)

/-- Read from the bytes alone, and whatever queues, filters and VIs an earlier driver left behind:
when attach succeeds and the reset was not refused, the MC has both event queues, both descriptor
queues and the filter exactly as the softc describes them, with the rings at the addresses of the
DMA buffers, and nothing else; and detach leaves it nothing. -/
theorem attach_configures (env : Env) (hmc : env.McRules) (hcoded : env.ErrorsCoded) (t : Tables)
    (ht : t = Tables.empty ∨ (env.answer .entityReset 0).isSuccess = true)
    (hok : (attach env St.start).2 = none) :
    (attach env St.start).1.tables t = configured complete (attach env St.start).1.sc.wiring ∧
      (detach env (attach env St.start).1).tables t = Tables.empty := by
  have hstart : Live ∅ false St.start := by
    refine ⟨fun o => ?_, by simp, by simp [St.start], by simp, rfl⟩
    rcases o with _ | _ | _ | (_ | _) | _ | _ | _ <;> rfl
  have hw := (attach_wired hcoded ht St.start ⟨hstart, rfl⟩).1 hok
  exact ⟨hw.tables, detach_tables hmc hw⟩

end

/-- A crashed driver's queue and filter, at addresses of its own. -/
def leftover : Tables :=
  { Tables.empty with
    rxqs := single 3 (some (queueEntry 0 0xdead000 4096))
    filters := single 7 (some (filterEntry fun _ => 0xff)) }

theorem attach_configures_leftover :
    (attach allGood St.start).1.tables leftover =
        configured complete (attach allGood St.start).1.sc.wiring ∧
      (detach allGood (attach allGood St.start).1).tables leftover = Tables.empty :=
  attach_configures allGood (withMc_rules _) allGood_coded leftover (.inr rfl)
    (by decide +kernel)

end Sfc7120.Attach

import Sfc7120.Attach.Wrappers

/-! The stages of attach one by one: each takes `Reached` one step further or leaves it as it
was. -/
namespace Sfc7120.Attach

open ByteMemory Mcdi Ladder

/-- INSERT was answered with a success that the driver rejects for its handle. -/
def Env.strayFilter (env : Env) (k : Stage) : Bool :=
  decide (k = .filterInsert) && (env.answer .filterInsert 0).isSuccess

/-- Just after stage `k` failed: as before it, but for a filter the driver does not know of. -/
def Failed (env : Env) (k : Stage) (w : Fw) : Prop :=
  ∃ v, Reached env k.idx v ∧
    w = if env.strayFilter k then { v with held := insert .rxFilter v.held } else v

def StageSpec (env : Env) (k : Stage) : Prop :=
  Does (Stage.fails env) (fun st => Reached env k.idx st.fw) (k.step env) [k]
    (fun st => Reached env (k.idx + 1) st.fw) (fun k st => Failed env k st.fw)

section
variable {env : Env} {st : St} {k : Stage}

theorem Failed.of_reached (hk : k ≠ .filterInsert) {w : Fw} (h : Reached env k.idx w) :
    Failed env k w := ⟨w, h, by simp [Env.strayFilter, hk]⟩

theorem stageSpec_of (hk : k ≠ .filterInsert)
    (hrc : ∀ st, Reached env k.idx st.fw → (k.step env st).2.isSome = k.fails env)
    (hfail : ∀ st, Reached env k.idx st.fw → k.fails env = true → (k.step env st).1.fw = st.fw)
    (hok : ∀ st, Reached env k.idx st.fw → k.fails env = false →
      Reached env (k.idx + 1) (k.step env st).1.fw) : StageSpec env k := by
  refine Does.single (fun st h hf => ⟨?_, hok st h hf⟩) fun st h hf => ⟨?_, ?_⟩
  · rw [← Option.not_isSome_iff_eq_none, hrc st h, hf]
    exact Bool.false_ne_true
  · rw [← Option.isSome_iff_ne_none, hrc st h, hf]
  · exact Failed.of_reached hk (hfail st h hf ▸ h)

/-- Stages that create nothing. -/
theorem stageSpec_quiet (hk : ∀ o : McObject, o.stage ≠ k) (hm : k ≠ .mcdiInit)
    (hrc : ∀ st, Reached env k.idx st.fw → (k.step env st).2.isSome = k.fails env)
    (hfw : ∀ st, Reached env k.idx st.fw → (k.step env st).1.fw = st.fw) : StageSpec env k := by
  have hidx : ∀ l : Stage, l ≠ k → l.idx ≠ k.idx := by
    have hmem : ∀ l : Stage, l ∈ Stage.order := by
      intro l
      cases l <;> decide
    intro l hne he
    exact hne ((List.idxOf_inj (hmem l)).mp he)
  refine stageSpec_of (hk .rxFilter).symm hrc (fun st h _ => hfw st h) fun st h _ => ?_
  rw [hfw st h]
  exact h.quiet (fun o => hidx _ (hk o)) (hidx _ hm.symm)

theorem stage_ne_of (hk : ∀ o ∈ teardownOrder, o.stage ≠ k) (o : McObject) : o.stage ≠ k :=
  hk o (mem_teardownOrder o)

theorem tolerateEacces_eq (f : Attempt St Errno) :
    tolerateEacces f st = ((f st).1, tolerated (f st).2) := by
  simp only [tolerateEacces, tolerated]
  split <;> rfl

/-- Stages that send one query and store what it is answered. -/
theorem stageSpec_query {op : Op} {minUsed : ℕ} {store : ExecResult → Softc → Softc}
    (hstep : k.step env = command env op [] 0 minUsed store)
    (hfails : k.fails env = (env.commandRc op 0 minUsed).isSome) (hop : op.kind = .queries)
    (hk : ∀ o ∈ teardownOrder, o.stage ≠ k) (hlt : Stage.mcdiInit.idx < k.idx)
    (hstore : ∀ r (st : St), (st.update (store r)).fw = st.fw) : StageSpec env k := by
  have hm : k ≠ .mcdiInit := by
    rintro rfl
    exact lt_irrefl _ hlt
  refine stageSpec_quiet (stage_ne_of hk) hm (fun st h => ?_) fun st h => ?_ <;> rw [hstep]
  · rw [command_rc op [] (h.mcdiInitialized hlt) (by simp) (by simp [hop]), hfails]
  · exact command_fw_of_query (h.mcdiInitialized hlt) (by simp) hop hstore

theorem getAsserts_eq (env : Env) : ∀ (left retry : ℕ) (rc : Option Errno) (st : St),
    st.sc.mcdiInitialized = true →
      (getAsserts env left retry rc st).2 = env.assertsRc left retry rc ∧
        (getAsserts env left retry rc st).1.fw = st.fw := by
  intro left
  induction left with
  | zero => exact fun _ _ _ _ => ⟨rfl, rfl⟩
  | succ left ih =>
    intro retry rc st hm
    have hfw : (sent env .getAsserts (dwords [1]) retry st).fw = st.fw := sent_fw_of_query rfl
    simp only [getAsserts, Env.assertsRc, exec_eq .getAsserts (dwords [1]) hm
      (by decide) (by simp [Op.kind])]
    split
    next => exact ⟨rfl, hfw⟩
    next =>
      obtain ⟨hrc, hrest⟩ := ih (retry + 1) (env.result .getAsserts retry).rc
        (sent env .getAsserts (dwords [1]) retry st) hm
      exact ⟨hrc, hrest.trans hfw⟩

theorem clearAssertions_spec : StageSpec env .clearAssertions := by
  have hlt : Stage.mcdiInit.idx < Stage.clearAssertions.idx := by decide
  refine stageSpec_quiet (stage_ne_of (by decide)) (by decide) (fun st h => ?_) fun st h => ?_ <;>
    obtain ⟨hrc, hfw⟩ := getAsserts_eq env 3 0 none st (h.mcdiInitialized hlt) <;>
    simp only [Stage.step, Stage.fails, clearAssertions, tolerateEacces_eq]
  · rw [hrc]
  · exact hfw

theorem entityReset_spec : StageSpec env .entityReset := by
  have hlt : Stage.mcdiInit.idx < Stage.entityReset.idx := by decide
  refine stageSpec_quiet (stage_ne_of (by decide)) (by decide) (fun st h => ?_) fun st h => ?_ <;>
    simp only [Stage.step, Stage.fails, entityReset, tolerateEacces_eq]
  · rw [command_rc .entityReset (dwords [1]) (h.mcdiInitialized hlt) (by decide)
      (by simp [Op.kind])]
  · -- only the attachment can be there to be dropped
    have honly : ∀ o ∈ st.held, o = .attachment := by
      have hall : ∀ o ∈ teardownOrder, o.stage.idx < Stage.entityReset.idx → o = .attachment := by
        decide
      exact fun o ho => hall o (mem_teardownOrder o) (h.created o ho)
    have hheld : (sent env .entityReset (dwords [1]) 0 st).held = st.held := by
      simp only [sent, Op.effect, Op.kind]
      split
      next => exact Finset.filter_true_of_mem honly
      next => rfl
    have hfw : (sent env .entityReset (dwords [1]) 0 st).fw = st.fw := by
      rw [St.fw, hheld]
      rfl
    rw [command_eq .entityReset (dwords [1]) (h.mcdiInitialized hlt) (by decide)
      (by simp [Op.kind])]
    split
    next => exact hfw
    next => exact hfw

theorem dumpFuncInfo_spec : StageSpec env .dumpFuncInfo := by
  have hlt : Stage.mcdiInit.idx < Stage.dumpFuncInfo.idx := by decide
  refine stageSpec_quiet (stage_ne_of (by decide)) (by decide) (fun st h => ?_) fun st h => ?_
  · simp only [Stage.step, Stage.fails, dumpFuncInfo]
    split <;> rfl
  · have hm := h.mcdiInitialized hlt
    have hlen : ([] : List Byte).length ≤ mcdiPayloadLenMaxV1 := by decide
    have hquery : ∀ (op : Op) (st : St), st.sc.mcdiInitialized = true → op.kind = .queries →
        (exec env op [] 0 st).1.fw = st.fw := by
      intro op st hm hop
      rw [exec_eq op [] hm hlen (by simp [hop])]
      exact sent_fw_of_query hop
    have hport := hquery .getPortAssignment st hm rfl
    have hfunc := hquery .getFunctionInfo _ ((congrArg Fw.mcdi hport).trans hm) rfl
    have hfw := hquery .getCapabilities _ ((congrArg Fw.mcdi (hfunc.trans hport)).trans hm) rfl
    rw [hfunc, hport] at hfw
    simp only [Stage.step, dumpFuncInfo]
    split
    next => exact hfw
    next => exact hfw

theorem setMac_spec : StageSpec env .setMac := by
  have hlt : Stage.mcdiInit.idx < Stage.setMac.idx := by decide
  have hlen : ∀ mac : Fin 6 → Byte, (dwords [1544, 0] ++ List.ofFn mac ++ [0, 0] ++
      dwords [0, 3, 0]).length ≤ mcdiPayloadLenMaxV1 := by
    intro mac
    simp [dwords, mcdiPayloadLenMaxV1]
  refine stageSpec_quiet (stage_ne_of (by decide)) (by decide) (fun st h => ?_) fun st h => ?_ <;>
    simp only [Stage.step, Stage.fails, setMac, tolerateEacces_eq]
  · rw [command_rc .setMac _ (h.mcdiInitialized hlt) (hlen _) (by simp [Op.kind])]
  · exact command_fw_of_query (h.mcdiInitialized hlt) (hlen _) rfl fun _ _ => rfl

theorem setLink_spec : StageSpec env .setLink := by
  have hlt : Stage.mcdiInit.idx < Stage.setLink.idx := by decide
  have hlen : ∀ cap : BitVec 32, (dwords [cap, 0, 0, 0]).length ≤ mcdiPayloadLenMaxV1 := by
    intro cap
    simp [dwords, mcdiPayloadLenMaxV1]
  refine stageSpec_quiet (stage_ne_of (by decide)) (by decide) (fun st h => ?_) fun st h => ?_ <;>
    simp only [Stage.step, Stage.fails, setLink]
  · exact congrArg Option.isSome
      (command_rc .setLink _ (h.mcdiInitialized hlt) (hlen _) (by simp [Op.kind]))
  · exact command_fw_of_query (h.mcdiInitialized hlt) (hlen _) rfl fun _ _ => rfl

theorem getLink_eq (env : Env) (i : ℕ) (hm : st.sc.mcdiInitialized = true) :
    (getLink env i st).2 = env.commandRc .getLink i 28 ∧ (getLink env i st).1.fw = st.fw ∧
      ((getLink env i st).2 = none →
        (getLink env i st).1.sc.linkUp = linkIsUp (env.result .getLink i)) := by
  refine ⟨command_rc .getLink [] hm (by decide) (by simp [Op.kind]),
    command_fw_of_query hm (by decide) rfl fun _ _ => rfl, ?_⟩
  rw [getLink, command_eq .getLink [] hm (by decide) (by simp [Op.kind])]
  cases env.commandRc .getLink i 28 with
  | some e => exact fun h => absurd h (by simp)
  | none => exact fun _ => rfl

theorem waitLink_eq : ∀ (left i : ℕ) (st : St), st.sc.mcdiInitialized = true →
    (waitLink env left i st).2 = env.linkRc left i ∧ (waitLink env left i st).1.fw = st.fw := by
  intro left
  induction left with
  | zero => exact fun _ _ _ => ⟨rfl, rfl⟩
  | succ left ih =>
    intro i st hm
    obtain ⟨hrc, hfw, hup⟩ := getLink_eq env i hm
    unfold waitLink Env.linkRc
    rw [← hrc]
    cases hx : (getLink env i st).2 with
    | some e =>
      simp only [hx]
      exact ⟨trivial, hfw⟩
    | none =>
      simp only [hx, ← hup hx]
      split
      next => exact ⟨rfl, hfw⟩
      next =>
        obtain ⟨hrest, hsame⟩ := ih (i + 1) _ ((congrArg Fw.mcdi hfw).trans hm)
        exact ⟨hrest, hsame.trans hfw⟩

theorem getLink_spec : StageSpec env .getLink := by
  have hlt : Stage.mcdiInit.idx < Stage.getLink.idx := by decide
  refine stageSpec_quiet (stage_ne_of (by decide)) (by decide) (fun st h => ?_) fun st h => ?_
  · exact congrArg Option.isSome (waitLink_eq 30 0 st (h.mcdiInitialized hlt)).1
  · exact (waitLink_eq 30 0 st (h.mcdiInitialized hlt)).2

theorem sent_fw_of_not_success {op : Op} {inp : List Byte} {k : ℕ}
    (h : (env.answer op k).isSuccess = false) : (sent env op inp k st).fw = st.fw := by
  simp [sent, Op.effect, h, St.fw]

/-- The instance of a queue, or of its event queue, is not among the VIs. -/
def Env.tooFewVis (env : Env) : McObject → Bool
  | .evq q => decide (env.viCount.toNat ≤ q.inst)
  | .rxq | .txq => decide (env.viCount.toNat ≤ 1)
  | .attachment | .vis | .vadaptor | .rxFilter => false

theorem create_fails (o : McObject) :
    o.stage.fails env = (env.tooFewVis o || (env.createRc o).isSome) := by
  rcases o with _ | _ | _ | (_ | _) | _ | _ | _
  case rxFilter =>
    cases hrc : env.commandRc .filterInsert 0 12 <;>
      cases hbad : handleInvalid (env.result .filterInsert 0) <;>
        simp [McObject.stage, Stage.fails, Env.tooFewVis, Env.createRc, McObject.createOp,
          McObject.minUsed, hrc, hbad]
  all_goals
    rw [createRc_of_ne (by simp)]
    rfl

theorem reached_refused {o : McObject} (h : Reached env o.stage.idx st.fw) :
    o.Refused st.sc ↔ env.tooFewVis o = true := by
  have hvi : Stage.allocVis.idx < o.stage.idx → st.sc.viCount = env.viCount := h.viCount
  have hvad : st.sc.vadaptorAllocated = decide (McObject.vadaptor.stage.idx < o.stage.idx) :=
    h.flag .vadaptor
  rcases o with _ | _ | _ | (_ | _) | _ | _ | _
  case evq.control | evq.data =>
    simp [McObject.Refused, Env.tooFewVis, hvi (by decide)]
  case rxq | txq =>
    have hset : st.sc.vadaptorAllocated = true := hvad.trans (by decide)
    simp [McObject.Refused, Env.tooFewVis, hvi (by decide), hset]
  all_goals simp [McObject.Refused, Env.tooFewVis]

theorem strayFilter_create (o : McObject) (hrc : env.createRc o ≠ none)
    (hfull : env.FullLength) :
    env.strayFilter o.stage = (env.answer o.createOp 0).isSuccess := by
  by_cases ho : o = .rxFilter
  · subst ho
    rfl
  · have hne : o.stage ≠ .filterInsert := fun he =>
      ho (stage_idx_inj (p := .rxFilter) (congrArg Stage.idx he))
    rw [createRc_of_ne ho] at hrc
    rw [not_success_of_commandRc hfull o.createOp_kind o.minUsed_le_fullLen o.minUsed_le_outLen hrc]
    simp [Env.strayFilter, hne]

/-- A create command that the driver gave up on: the MC has at most a filter more. -/
theorem failed_create (hfull : env.FullLength) {o : McObject} {flags : BitVec 32}
    (h : Reached env o.stage.idx st.fw) (hrc : env.createRc o ≠ none) :
    Failed env o.stage ((sent env o.createOp (o.createIn st.sc) 0 st).update fun sc =>
      { sc with mcdiFuncFlags := flags }).fw := by
  refine ⟨st.fw, h, ?_⟩
  rw [strayFilter_create o hrc hfull]
  cases hyes : (env.answer o.createOp 0).isSuccess with
  | false => exact sent_fw_of_not_success hyes
  | true =>
    have ho : o = .rxFilter := by
      by_contra ho
      rw [createRc_of_ne ho] at hrc
      have hno := not_success_of_commandRc hfull o.createOp_kind o.minUsed_le_fullLen
        o.minUsed_le_outLen hrc
      rw [hyes] at hno
      exact absurd hno (by simp)
    subst ho
    simp only [if_true, sent, Op.effect, hyes, McObject.createOp_kind]
    rfl

/-- And one that succeeded. -/
theorem reached_create {o : McObject} (h : Reached env o.stage.idx st.fw)
    (hrc : env.createRc o = none) :
    Reached env (o.stage.idx + 1) ((sent env o.createOp (o.createIn st.sc) 0 st).update fun sc =>
      o.stored (env.result o.createOp 0) sc).fw := by
  obtain ⟨hcmd, -⟩ := createRc_eq_none_iff.mp hrc
  have hctl : o = .evq .data → st.sc.flag (.evq .control) = true := by
    rintro rfl
    exact (h.flag (.evq .control)).trans (by decide)
  refine h.answered o.createOp (env.answer o.createOp 0) o.createOp_kind ?_ ?_ ?_ rfl fun ho => ?_
  · rcases o with _ | _ | _ | (_ | _) | _ | _ | _ <;> rfl
  · exact McObject.stored_flag hctl
  · rcases o with _ | _ | _ | (_ | _) | _ | _ | _ <;> rfl
  · refine success_of_commandRc ?_ hcmd
    exact (by decide : ∀ o ∈ [McObject.attachment, .vis], 0 < o.minUsed) o ho

/-- The stages that create an object. -/
theorem create_spec (hfull : env.FullLength) (o : McObject) : StageSpec env o.stage := by
  have hm : ∀ {st : St}, Reached env o.stage.idx st.fw → st.sc.mcdiInitialized = true :=
    fun h => h.mcdiInitialized (mcdiInit_lt_stage o)
  have hnew : ∀ {st : St}, Reached env o.stage.idx st.fw → st.sc.flag o = false := fun h =>
    (h.flag o).trans (decide_eq_false (lt_irrefl _))
  refine Does.single (fun st h hf => ?_) fun st h hf => ?_ <;> rw [create_fails] at hf <;>
    have hcases := creates env o st <;> generalize o.stage.step env st = x at hcases ⊢
  · obtain ⟨hvis, hrc⟩ := Bool.or_eq_false_iff.mp hf
    cases hcases with
    | refused hwhy =>
      rcases hwhy with hno | hno
      · simp [hm h] at hno
      · simp [(reached_refused h).mp hno] at hvis
    | present hset => simp [hnew h] at hset
    | failed flags he => simp [he] at hrc
    | created hgo hold hnone => exact ⟨rfl, reached_create h hnone⟩
  · cases hcases with
    | refused hwhy =>
      refine ⟨by simp, st.fw, h, ?_⟩
      have ho : o ≠ .rxFilter := by
        rintro rfl
        exact hwhy.elim (fun hno => by simp [hm h] at hno) id
      have hne : o.stage ≠ .filterInsert := fun he =>
        ho (stage_idx_inj (p := .rxFilter) (congrArg Stage.idx he))
      simp [Env.strayFilter, hne]
    | present hset => simp [hnew h] at hset
    | failed flags he => exact ⟨by simp, failed_create hfull h (by simp [he])⟩
    | created hgo hold hnone =>
      have hvis : env.tooFewVis o = true := by simpa [hnone] using hf
      exact absurd ((reached_refused h).mpr hvis) hgo

theorem allocDmabuf_fw (env : Env) (b : DmaBuf) (st : St) :
    (allocDmabuf env b st).1.fw = st.fw := by
  simp only [allocDmabuf]
  cases (env.host.dma b).tagCreate with
  | some e => rfl
  | none =>
    cases (env.host.dma b).memAlloc with
    | some e => simp only [setDma_fw, release_fw, acquire_fw]
    | none =>
      cases (env.host.dma b).mapLoad with
      | some e => simp
      | none => by_cases hp : (env.host.dma b).paddr = 0#64 <;> simp [hp]

theorem allocDmabuf_isSome (env : Env) (b : DmaBuf) (st : St) :
    (allocDmabuf env b st).2.isSome = env.dmaFails b := by
  simp only [allocDmabuf, Env.dmaFails]
  cases (env.host.dma b).tagCreate with
  | some e => rfl
  | none =>
    cases (env.host.dma b).memAlloc with
    | some e => rfl
    | none =>
      cases (env.host.dma b).mapLoad with
      | some e => rfl
      | none => by_cases hp : (env.host.dma b).paddr = 0#64 <;> simp [hp]

theorem freeDmabuf_fw (b : DmaBuf) (st : St) : (freeDmabuf b st).fw = st.fw := by
  simp only [freeDmabuf, apply_ite St.fw, release_fw, setDma_fw, ite_self]

theorem primeRing_fw (b : DmaBuf) (st : St) : (primeRing b st).fw = st.fw := by
  unfold primeRing
  split <;> rfl

theorem allocBufs_fw (env : Env) : ∀ (bs : List DmaBuf) (st : St),
    (allocBufs env bs st).1.fw = st.fw
  | [], _ => rfl
  | b :: bs, st => andThen_frame (allocDmabuf_fw env b)
      (unwinding_frame (freeDmabuf_fw b) fun st =>
        (allocBufs_fw env bs (primeRing b st)).trans (primeRing_fw b st)) st

theorem allocBufs_isSome (env : Env) : ∀ (bs : List DmaBuf) (st : St),
    (allocBufs env bs st).2.isSome = bs.any env.dmaFails
  | [], _ => rfl
  | b :: bs, st => by
      rw [allocBufs, andThen_isSome, allocDmabuf_isSome, unwinding_isSome, allocBufs_isSome env bs,
        List.any_cons]

theorem deviceAlive_fw (env : Env) (st : St) : (deviceAlive env st).1.fw = st.fw := by
  simp only [deviceAlive]
  split
  next => rfl
  next => split <;> rfl

theorem deviceAlive_isSome (env : Env) (st : St) : (deviceAlive env st).2.isSome =
    (env.host.pciCommand &&& pciCmdReady != pciCmdReady || env.host.hwRevId != hwRevIdReset) := by
  unfold deviceAlive
  by_cases hcmd : env.host.pciCommand &&& pciCmdReady = pciCmdReady <;>
    by_cases hrev : env.host.hwRevId = hwRevIdReset <;> simp [hcmd, hrev]

theorem mcdiSetup_fw (env : Env) (st : St) : (mcdiSetup env st).1.fw = st.fw := by
  unfold mcdiSetup
  refine unwinding_frame (v := St.fw) ?_
    (andThen_frame (allocDmabuf_fw env .mcdi)
      (unwinding_frame (freeDmabuf_fw .mcdi) (deviceAlive_fw env))) st
  exact fun _ => rfl

theorem mcdiSetup_isSome (env : Env) (st : St) :
    (mcdiSetup env st).2.isSome = Stage.fails env .mcdiInit := by
  simp only [mcdiSetup, unwinding_isSome, andThen_isSome, allocDmabuf_isSome, deviceAlive_isSome,
    Stage.fails, Bool.or_assoc]

theorem mcdiInit_spec : StageSpec env .mcdiInit := by
  have hinit : ∀ st, Stage.step env .mcdiInit st = andThen (mcdiSetup env)
      (fun st => (st.update fun sc => { sc with mcdiInitialized := true }, none))
      (st.acquire .mcdiMtx) := fun _ => rfl
  refine stageSpec_of (by decide) (fun st h => ?_) (fun st h hf => ?_) fun st h hf => ?_ <;>
    have hsome := mcdiSetup_isSome env (st.acquire .mcdiMtx) <;>
    have hfw := mcdiSetup_fw env (st.acquire .mcdiMtx) <;> rw [hinit]
  · rw [andThen_isSome, hsome]
    exact Bool.or_false _
  · rw [hf] at hsome
    rw [andThen_of_ne (Option.isSome_iff_ne_none.mp hsome), hfw]
    rfl
  · rw [hf] at hsome
    rw [andThen_of_none (Option.isNone_iff_eq_none.mp (Option.isSome_eq_false_iff.mp hsome))]
    have hset : ((mcdiSetup env (st.acquire .mcdiMtx)).1.update fun sc =>
        { sc with mcdiInitialized := true }).fw = { st.fw with mcdi := true } :=
      congrArg (fun w : Fw => { w with mcdi := true }) hfw
    rw [hset]
    have hnext := mcdiInit_lt_stage
    exact {
      mcdi := (decide_eq_true (Nat.lt_succ_self _)).symm
      flag := fun o => by
        have hlt := hnext o
        rw [h.flag o]
        simp only [decide_eq_decide]
        omega
      viCount := fun hlt => absurd hlt (by decide)
      created := fun o ho => (h.created o ho).trans (Nat.lt_succ_self _)
      certain := fun o _ hlt => absurd hlt (by have := hnext o; omega) }

theorem bar2_spec : StageSpec env .bar2 := by
  refine stageSpec_quiet (stage_ne_of (by decide)) (by decide) (fun st _ => ?_) fun st _ => ?_ <;>
    cases hb : env.host.bar2 <;> simp [Stage.step, Stage.fails, allocBar2, hb]
  all_goals rfl

theorem allocDma_spec : StageSpec env .allocDma :=
  stageSpec_quiet (stage_ne_of (by decide)) (by decide) (fun st _ => allocBufs_isSome env _ st)
    fun st _ => allocBufs_fw env _ st

theorem intrSetup_fw (env : Env) (st : St) : (intrSetup env st).1.fw = st.fw := by
  have hbar : ∀ st, (allocMsixBar env st).1.fw = st.fw := by
    intro st
    unfold allocMsixBar
    split
    next => rfl
    next => split <;> rfl
  have hmsix : ∀ st, (allocMsix env st).1.fw = st.fw := by
    intro st
    unfold allocMsix
    split <;> rfl
  have hirq : ∀ st, (allocIrq env st).1.fw = st.fw := by
    intro st
    simp only [allocIrq]
    split
    next => rfl
    next => split <;> rfl
  have hintr : ∀ st, (setupIntr env st).1.fw = st.fw := by
    intro st
    unfold setupIntr
    split <;> rfl
  unfold intrSetup
  refine andThen_frame (v := St.fw) hbar (unwinding_frame ?_ (andThen_frame hmsix
    (unwinding_frame ?_ (andThen_frame hirq (unwinding_frame ?_ hintr))))) st
  all_goals exact fun _ => rfl

theorem intrSetup_isSome (env : Env) (st : St) :
    (intrSetup env st).2.isSome = Stage.fails env .intrSetup := by
  have hbar : ∀ st, (allocMsixBar env st).2.isSome =
      (decide (env.host.msixCount ≤ 0) || !env.host.bar4) := by
    intro st
    unfold allocMsixBar
    by_cases hcount : env.host.msixCount ≤ 0 <;> cases hb : env.host.bar4 <;> simp [hcount]
  have hmsix : ∀ st, (allocMsix env st).2.isSome = env.host.allocMsix.isSome := by
    intro st
    unfold allocMsix
    cases env.host.allocMsix <;> rfl
  have hirq : ∀ st, (allocIrq env st).2.isSome =
      (env.host.msixGranted != 1 || !env.host.irq) := by
    intro st
    unfold allocIrq
    by_cases hgrant : env.host.msixGranted = 1 <;> cases hb : env.host.irq <;> simp [hgrant]
  have hintr : ∀ st, (setupIntr env st).2.isSome = env.host.setupIntr.isSome := by
    intro st
    unfold setupIntr
    cases env.host.setupIntr <;> rfl
  simp only [intrSetup, andThen_isSome, unwinding_isSome, hbar, hmsix, hirq, hintr, Stage.fails,
    Bool.or_assoc]

theorem intrSetup_spec : StageSpec env .intrSetup :=
  stageSpec_quiet (stage_ne_of (by decide)) (by decide) (fun st _ => intrSetup_isSome env st)
    fun st _ => intrSetup_fw env st

theorem postRxBuffers_spec : StageSpec env .postRxBuffers :=
  stageSpec_quiet (stage_ne_of (by decide)) (by decide) (fun _ _ => rfl) fun _ _ => rfl

theorem makeDev_spec : StageSpec env .makeDev := by
  refine stageSpec_quiet (stage_ne_of (by decide)) (by decide) (fun st _ => ?_) fun st _ => ?_ <;>
    cases hb : env.host.makeDev <;> simp [Stage.step, Stage.fails, makeDevCapio, hb]
  all_goals rfl

theorem stage_spec (hfull : env.FullLength) : ∀ k, StageSpec env k
  | .bar2 => bar2_spec
  | .mcdiInit => mcdiInit_spec
  | .getVersion =>
      stageSpec_query (show Stage.step env .getVersion = Attach.getVersion env from rfl) rfl rfl
        (by decide) (by decide) fun _ _ => rfl
  | .drvAttach => create_spec hfull .attachment
  | .clearAssertions => clearAssertions_spec
  | .entityReset => entityReset_spec
  | .getMac =>
      stageSpec_query (show Stage.step env .getMac = Attach.getMac env from rfl) rfl rfl
        (by decide) (by decide) fun _ _ => rfl
  | .dumpFuncInfo => dumpFuncInfo_spec
  | .allocVis => create_spec hfull .vis
  | .vadaptorAlloc => create_spec hfull .vadaptor
  | .getPhyCfg =>
      stageSpec_query (show Stage.step env .getPhyCfg = Attach.getPhyCfg env from rfl) rfl rfl
        (by decide) (by decide) fun _ _ => rfl
  | .setMac => setMac_spec
  | .setLink => setLink_spec
  | .getLink => getLink_spec
  | .allocDma => allocDma_spec
  | .intrSetup => intrSetup_spec
  | .initEvq => create_spec hfull (.evq .control)
  | .initDataEvq => create_spec hfull (.evq .data)
  | .initRxq => create_spec hfull .rxq
  | .postRxBuffers => postRxBuffers_spec
  | .initTxq => create_spec hfull .txq
  | .filterInsert => create_spec hfull .rxFilter
  | .makeDev => makeDev_spec

end

end Sfc7120.Attach

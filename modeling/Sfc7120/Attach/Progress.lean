import Sfc7120.Attach.Bringup

/-! How far attach has come. Whether a stage fails is read off the answers it gets, and the
invariant `Reached` says what the driver's flags and the MC agree on before each stage. -/
namespace Sfc7120.Attach

open ByteMemory Mcdi Ladder

/-- What a wrapper returns for the `k`-th sending of its command. -/
def Env.commandRc (env : Env) (op : Op) (k minUsed : ℕ) : Option Errno :=
  match (env.result op k).rc with
  | some e => some e
  | none => if used (env.result op k) < minUsed then some .EPROTO else none

def tolerated (rc : Option Errno) : Option Errno := if rc = some .EACCES then none else rc

/-- GET_ASSERTS is sent again after EINTR and EIO. -/
def Env.assertsRc (env : Env) : ℕ → ℕ → Option Errno → Option Errno
  | 0, _, rc => rc
  | left + 1, retry, _ =>
      let rc := (env.result .getAsserts retry).rc
      if rc ≠ some .EINTR ∧ rc ≠ some Errno.EIO then rc else env.assertsRc left (retry + 1) rc

/-- GET_LINK is sent until it fails or reports the link up. -/
def Env.linkRc (env : Env) : ℕ → ℕ → Option Errno
  | 0, _ => none
  | left + 1, i =>
      match env.commandRc .getLink i 28 with
      | some e => some e
      | none => if linkIsUp (env.result .getLink i) then none else env.linkRc left (i + 1)

/-- The number of VIs the firmware grants. -/
def Env.viCount (env : Env) : BitVec 32 := dwordAt (env.result .allocVis 0).out 0

def Env.dmaFails (env : Env) (b : DmaBuf) : Bool :=
  let reply := env.host.dma b
  reply.tagCreate.isSome || reply.memAlloc.isSome || reply.mapLoad.isSome || reply.paddr == 0

/-- A queue command is not even sent when its instance or its event queue is not among the
VIs. -/
def Env.queueFails (env : Env) (op : Op) (inst : ℕ) : Bool :=
  decide (env.viCount.toNat ≤ inst) || (env.commandRc op 0 0).isSome

/-- Whether a stage fails, from the answers it gets. -/
def Stage.fails (env : Env) : Stage → Bool
  | .bar2 => !env.host.bar2
  | .mcdiInit =>
      env.dmaFails .mcdi || env.host.pciCommand &&& pciCmdReady != pciCmdReady ||
        env.host.hwRevId != hwRevIdReset
  | .getVersion => (env.commandRc .getVersion 0 32).isSome
  | .drvAttach => (env.commandRc .drvAttach 0 4).isSome
  | .clearAssertions => (tolerated (env.assertsRc 3 0 none)).isSome
  | .entityReset => (tolerated (env.commandRc .entityReset 0 0)).isSome
  | .getMac => (env.commandRc .getMacAddresses 0 6).isSome
  | .dumpFuncInfo => false
  | .allocVis => (env.commandRc .allocVis 0 8).isSome
  | .vadaptorAlloc => (env.commandRc .vadaptorAlloc 0 0).isSome
  | .getPhyCfg => (env.commandRc .getPhyCfg 0 48).isSome
  | .setMac => (tolerated (env.commandRc .setMac 0 0)).isSome
  | .setLink => (env.commandRc .setLink 0 0).isSome
  | .getLink => (env.linkRc 30 0).isSome
  | .allocDma => dmaOrder.any env.dmaFails
  | .intrSetup =>
      decide (env.host.msixCount ≤ 0) || !env.host.bar4 || env.host.allocMsix.isSome ||
        env.host.msixGranted != 1 || !env.host.irq || env.host.setupIntr.isSome
  | .initEvq => env.queueFails (.initEvq .control) 0
  | .initDataEvq => env.queueFails (.initEvq .data) 1
  | .initRxq => env.queueFails .initRxq 1
  | .postRxBuffers => false
  | .initTxq => env.queueFails .initTxq 1
  | .filterInsert =>
      (env.commandRc .filterInsert 0 12).isSome || handleInvalid (env.result .filterInsert 0)
  | .makeDev => !env.host.makeDev

def Stage.order : List Stage :=
  [.bar2] ++ ([.mcdiInit] ++ (mcdiStages ++ functionStages) ++ ([.allocDma] ++ queueStages))

/-- The first stage of attach that fails. -/
def Env.firstFailure (env : Env) : Option Stage := Stage.order.find? (Stage.fails env)

def Stage.idx (k : Stage) : ℕ := Stage.order.idxOf k

/-- The stage that creates an object. -/
def McObject.stage : McObject → Stage
  | .attachment => .drvAttach
  | .vis => .allocVis
  | .vadaptor => .vadaptorAlloc
  | .evq .control => .initEvq
  | .evq .data => .initDataEvq
  | .rxq => .initRxq
  | .txq => .initTxq
  | .rxFilter => .filterInsert

/-- Length of the response that the command definitions give for each create command. -/
def Op.fullLen : Op → ℕ
  | .drvAttach => 4
  | .allocVis => 8
  | .initEvq _ => 4
  | .filterInsert => 12
  | _ => 0

/-- A create command answered with success has a full-length response. -/
def Env.FullLength (env : Env) : Prop :=
  ∀ op o k payload, op.kind = .creates o → env.answer op k = .success payload →
    op.fullLen ≤ payload.length

/-- Every release command that is sent succeeds. -/
def Env.ReleasesSucceed (env : Env) : Prop := ∀ held op, (env.release held op).isSuccess = true

/-- What the driver and the MC know about the MC's objects. -/
structure Fw where
  mcdi : Bool
  flag : McObject → Bool
  viCount : BitVec 32
  held : Finset McObject

def St.fw (st : St) : Fw := ⟨st.sc.mcdiInitialized, st.sc.flag, st.sc.viCount, st.held⟩

section
variable {env : Env} {st : St} {k minUsed : ℕ} {store : ExecResult → Softc → Softc}

@[simp] theorem acquire_fw (r : Resource) : (st.acquire r).fw = st.fw := rfl

@[simp] theorem release_fw (r : Resource) : (st.release r).fw = st.fw := rfl

@[simp] theorem setDma_fw (b : DmaBuf) (f : DmaMem → DmaMem) :
    (st.update (setDma b f)).fw = st.fw := rfl

theorem held_of_fw {st st' : St} (h : st.fw = st'.fw) : st.held = st'.held :=
  congrArg Fw.held h

theorem setFlag_flag (sc : Softc) (o : McObject) (b : Bool) :
    (sc.setFlag o b).flag = Function.update sc.flag o b := by
  funext p
  rcases o with _ | _ | _ | (_ | _) | _ | _ | _ <;>
    rcases p with _ | _ | _ | (_ | _) | _ | _ | _ <;> rfl

theorem outLen_le (op : Op) : op.outLen ≤ mcdiPayloadLenMaxV1 := by
  cases op <;> simp [Op.outLen, mcdiPayloadLenMaxV1]

/-- The state after a command that is not a release was sent. -/
def sent (env : Env) (op : Op) (inp : List Byte) (k : ℕ) (st : St) : St :=
  { st with
    held := op.effect (env.answer op k) st.held
    log := st.log ++ [.mcdi op inp (env.answer op k)] }

theorem exec_eq (op : Op) (inp : List Byte) (hm : st.sc.mcdiInitialized = true)
    (hin : inp.length ≤ mcdiPayloadLenMaxV1) (hop : ∀ o, op.kind ≠ .releases o) :
    exec env op inp k st = (sent env op inp k st, env.result op k) := by
  have hreply : env.reply st.held op k = env.answer op k := by
    unfold Env.reply
    split
    next o h => exact absurd h (hop o)
    next => rfl
  have hlen := outLen_le op
  simp only [exec, hm, hreply, Bool.not_true, Bool.false_eq_true, if_false]
  rw [if_neg (by omega)]
  rfl

theorem command_eq (op : Op) (inp : List Byte) (hm : st.sc.mcdiInitialized = true)
    (hin : inp.length ≤ mcdiPayloadLenMaxV1) (hop : ∀ o, op.kind ≠ .releases o) :
    command env op inp k minUsed store st =
      match env.commandRc op k minUsed with
      | some e => (sent env op inp k st, some e)
      | none => ((sent env op inp k st).update (store (env.result op k)), none) := by
  rw [command, exec_eq op inp hm hin hop, Env.commandRc]
  cases (env.result op k).rc with
  | some e => rfl
  | none =>
    simp only
    split <;> rfl

theorem command_rc (op : Op) (inp : List Byte) (hm : st.sc.mcdiInitialized = true)
    (hin : inp.length ≤ mcdiPayloadLenMaxV1) (hop : ∀ o, op.kind ≠ .releases o) :
    (command env op inp k minUsed store st).2 = env.commandRc op k minUsed := by
  rw [command_eq op inp hm hin hop]
  cases env.commandRc op k minUsed <;> rfl

theorem sent_fw_of_query {op : Op} {inp : List Byte} (hop : op.kind = .queries) :
    (sent env op inp k st).fw = st.fw := by
  unfold sent Op.effect
  rw [hop]
  simp only [ite_self]
  rfl

/-- A query leaves flags and MC alone. -/
theorem command_fw_of_query {op : Op} {inp : List Byte}
    (hm : st.sc.mcdiInitialized = true) (hin : inp.length ≤ mcdiPayloadLenMaxV1)
    (hop : op.kind = .queries)
    (hstore : ∀ r (st : St), (st.update (store r)).fw = st.fw) :
    (command env op inp k minUsed store st).1.fw = st.fw := by
  rw [command_eq op inp hm hin (by simp [hop])]
  cases env.commandRc op k minUsed with
  | some e => exact sent_fw_of_query hop
  | none => exact (hstore _ _).trans (sent_fw_of_query hop)

@[simp] theorem update_setFlag_fw (o : McObject) (b : Bool) :
    (st.update (·.setFlag o b)).fw = { st.fw with flag := Function.update st.fw.flag o b } := by
  have hflag := setFlag_flag st.sc o b
  unfold St.fw St.update
  rw [hflag]
  rcases o with _ | _ | _ | (_ | _) | _ | _ | _ <;> rfl

theorem result_rc_of_success {op : Op} {payload : List Byte}
    (h : env.answer op k = .success payload) :
    (env.result op k).rc = none ∧ used (env.result op k) = min payload.length op.outLen := by
  simp [Env.result, h, Answer.result, used]

theorem used_of_not_success {op : Op} (h : (env.answer op k).isSuccess = false) :
    used (env.result op k) = 0 := by
  unfold Env.result
  cases ha : env.answer op k with
  | success payload => simp [ha, Answer.isSuccess] at h
  | _ => rfl

/-- A create command whose wrapper fails got no success: a successful response is long enough. -/
theorem not_success_of_commandRc (hfull : env.FullLength) {op : Op} {o : McObject}
    (hop : op.kind = .creates o) (hlen : minUsed ≤ op.fullLen) (hout : minUsed ≤ op.outLen)
    (h : env.commandRc op k minUsed ≠ none) : (env.answer op k).isSuccess = false := by
  cases ha : env.answer op k with
  | success payload =>
    obtain ⟨hrc, hused⟩ := result_rc_of_success ha
    have hpay := hfull op o k payload hop ha
    rw [Env.commandRc, hrc, hused] at h
    simp only [ne_eq, ite_eq_right_iff, reduceCtorEq, imp_false, not_not] at h
    omega
  | _ => rfl

/-- A wrapper that checks the length succeeds only on a success. -/
theorem success_of_commandRc {op : Op} (hpos : 0 < minUsed)
    (h : env.commandRc op k minUsed = none) :
    (env.answer op k).isSuccess = true := by
  rw [← Bool.not_eq_false]
  intro hno
  unfold Env.commandRc at h
  rw [used_of_not_success hno, if_pos hpos] at h
  cases hrc : (env.result op k).rc <;> simp [hrc] at h

end

/-- Just before the stage at position `n`: an object's flag is set once its stage is done, the
MC holds nothing whose stage is not done, and it does hold the attachment and the VIs, whose
wrappers accept nothing but a success. -/
structure Reached (env : Env) (n : ℕ) (w : Fw) : Prop where
  mcdi : w.mcdi = decide (Stage.mcdiInit.idx < n)
  flag : ∀ o, w.flag o = decide (o.stage.idx < n)
  viCount : Stage.allocVis.idx < n → w.viCount = env.viCount
  created : ∀ o ∈ w.held, o.stage.idx < n
  certain : ∀ o ∈ [McObject.attachment, .vis], o.stage.idx < n → o ∈ w.held

theorem mem_teardownOrder (o : McObject) : o ∈ teardownOrder := by
  rcases o with _ | _ | _ | (_ | _) | _ | _ | _ <;> decide

theorem stage_idx_inj {o p : McObject} (h : o.stage.idx = p.stage.idx) : o = p := by
  have hall : ∀ o ∈ teardownOrder, ∀ p ∈ teardownOrder, o.stage.idx = p.stage.idx → o = p := by
    decide
  exact hall o (mem_teardownOrder o) p (mem_teardownOrder p) h

theorem mcdiInit_lt_stage (o : McObject) : Stage.mcdiInit.idx < o.stage.idx := by
  have hall : ∀ o ∈ teardownOrder, Stage.mcdiInit.idx < o.stage.idx := by decide
  exact hall o (mem_teardownOrder o)

section
variable {env : Env} {n : ℕ} {w w' : Fw}

theorem Reached.start : Reached env 0 St.start.fw where
  mcdi := rfl
  flag o := by rcases o with _ | _ | _ | (_ | _) | _ | _ | _ <;> rfl
  viCount h := absurd h (Nat.not_lt_zero _)
  created o h := absurd h (Finset.notMem_empty o)
  certain _ _ h := absurd h (Nat.not_lt_zero _)

/-- A stage that creates nothing and leaves flags and MC alone. -/
theorem Reached.quiet (h : Reached env n w) (hn : ∀ o : McObject, o.stage.idx ≠ n)
    (hm : Stage.mcdiInit.idx ≠ n) : Reached env (n + 1) w where
  mcdi := by
    rw [h.mcdi]
    simp only [decide_eq_decide]
    omega
  flag o := by
    have ho := hn o
    rw [h.flag]
    simp only [decide_eq_decide]
    omega
  viCount hlt := h.viCount (by
    have hvis : Stage.allocVis.idx ≠ n := hn .vis
    omega)
  created o ho := (h.created o ho).trans (Nat.lt_succ_self n)
  certain o ho hlt := h.certain o ho (by
    have hne := hn o
    omega)

/-- The stage of `o` succeeded: its flag is set, and the MC holds at most `o` more. -/
theorem Reached.create {o : McObject} (h : Reached env o.stage.idx w) (hmcdi : w'.mcdi = w.mcdi)
    (hflag : w'.flag = Function.update w.flag o true)
    (hvi : w'.viCount = if o = .vis then env.viCount else w.viCount)
    (hsub : w.held ⊆ w'.held) (hheld : w'.held ⊆ insert o w.held)
    (hcertain : o ∈ [McObject.attachment, .vis] → o ∈ w'.held) :
    Reached env (o.stage.idx + 1) w' where
  mcdi := by
    have hlt := mcdiInit_lt_stage o
    rw [hmcdi, h.mcdi]
    simp only [decide_eq_decide]
    omega
  flag p := by
    rw [hflag]
    by_cases hp : p = o
    · subst hp
      simp
    · have hne : p.stage.idx ≠ o.stage.idx := fun he => hp (stage_idx_inj he)
      rw [Function.update_of_ne hp, h.flag]
      simp only [decide_eq_decide]
      omega
  viCount hlt := by
    rw [hvi]
    split
    next => rfl
    next hne =>
      have hidx : Stage.allocVis.idx ≠ o.stage.idx := fun he =>
        hne (stage_idx_inj (p := .vis) he.symm)
      exact h.viCount (by omega)
  created p hp := by
    rcases Finset.mem_insert.mp (hheld hp) with rfl | hold
    · exact Nat.lt_succ_self _
    · exact (h.created p hold).trans (Nat.lt_succ_self _)
  certain p hp hlt := by
    by_cases hpo : p = o
    · subst hpo
      exact hcertain hp
    · have hne : p.stage.idx ≠ o.stage.idx := fun he => hpo (stage_idx_inj he)
      exact hsub (h.certain p hp (by omega))

/-- The stage of `o` sent its create command and set its flag. -/
theorem Reached.answered {o : McObject} (h : Reached env o.stage.idx w) (op : Op) (a : Answer)
    (hop : op.kind = .creates o) (hmcdi : w'.mcdi = w.mcdi)
    (hflag : w'.flag = Function.update w.flag o true)
    (hvi : w'.viCount = if o = .vis then env.viCount else w.viCount)
    (hheld : w'.held = op.effect a w.held)
    (hcertain : o ∈ [McObject.attachment, .vis] → a.isSuccess = true) :
    Reached env (o.stage.idx + 1) w' := by
  rw [Op.effect, hop] at hheld
  refine h.create hmcdi hflag hvi ?_ ?_ fun ho => ?_
  · rw [hheld]
    split
    next => exact Finset.subset_insert _ _
    next => exact subset_rfl
  · rw [hheld]
    split
    next => exact subset_rfl
    next => exact Finset.subset_insert _ _
  · rw [hheld, if_pos (hcertain ho)]
    exact Finset.mem_insert_self _ _

theorem Reached.mcdiInitialized {st : St} (h : Reached env n st.fw)
    (hn : Stage.mcdiInit.idx < n) : st.sc.mcdiInitialized = true :=
  h.mcdi.trans (decide_eq_true hn)

end

end Sfc7120.Attach

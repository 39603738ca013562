import Sfc7120.Lib.Custody
import Sfc7120.Attach.Wrappers

/-! What attach and detach do with the host's resources. The log is read back by the rules of
custody: nothing is taken twice, nothing is given back twice or while something still uses it,
and nothing is touched that is not held. -/
namespace Sfc7120.Attach

open ByteMemory Mcdi Ladder Machine Custody

/-- What has to be there for a resource to be acquired: the arguments of the call, and for the
interrupt handler and the node what they touch when they run. -/
def Resource.needs : Resource → List Resource
  | .dmaMem b => [.dmaTag b]
  | .dmaMap b => [.dmaTag b, .dmaMem b]
  | .msix => [.bar4]
  | .irq => [.msix]
  | .intrHandler => [.irq, .scMtx, .bar2, .dmaMem .evq, .dmaMap .evq]
  | .cdev => [.scMtx, .rxMtx, .bar2] ++ dmaOrder.map .dmaMem
  | _ => []

/-- Requests through the node also take `cap_mtx`, which is there only after the node is. -/
def Resource.uses : Resource → List Resource
  | .cdev => .capMtx :: Resource.cdev.needs
  | r => r.needs

def rules : Rules Resource := ⟨Resource.needs, Resource.uses⟩

/-- The other way round: what has to be gone before a resource goes. -/
def Resource.users : Resource → List Resource
  | .scMtx | .rxMtx | .bar2 => [.intrHandler, .cdev]
  | .dmaTag b => [.dmaMem b, .dmaMap b]
  | .dmaMem b => [.dmaMap b, .intrHandler, .cdev]
  | .dmaMap _ => [.intrHandler]
  | .bar4 => [.msix]
  | .msix => [.irq]
  | .irq => [.intrHandler]
  | .capMtx => [.cdev]
  | .busMaster | .mcdiMtx | .intrHandler | .cdev => []

theorem mem_users {r x : Resource} (h : r ∈ x.uses) : x ∈ r.users := by
  cases x <;> simp only [Resource.uses, Resource.needs, List.not_mem_nil, List.mem_cons,
    List.mem_append, List.mem_map, or_false] at h
  all_goals grind [Resource.users]

/-- What sending an MCDI command touches. -/
def mailbox : List Resource :=
  [.bar2, .busMaster, .mcdiMtx, .dmaTag .mcdi, .dmaMem .mcdi, .dmaMap .mcdi]

def Event.custody : Event → List (Custody.Ev Resource)
  | .acquire r => [.acquire r]
  | .release r => [.release r]
  | .use r => [.use r]
  | .mcdi .. => mailbox.map .use

/-- The log keeps the rules, and at its end `H` is held and `D` was given back. -/
def Owns (H D : Finset Resource) (st : St) : Prop :=
  run (Custody.step rules) Ledger.empty (st.log.flatMap Event.custody) = some ⟨H, D⟩

/-- The softc fields by which the driver knows what it holds. -/
structure HostFields where
  mcdi : Bool
  dma : DmaBuf → DmaMem
  mem : Bool
  msixBar : Bool
  nvec : ℤ
  irq : Bool
  irqHandle : Bool
  intr : Bool
  cdev : Bool

def Softc.host (sc : Softc) : HostFields where
  mcdi := sc.mcdiInitialized
  dma := sc.dma
  mem := sc.memResource
  msixBar := sc.msixBarResource
  nvec := sc.msixNvec
  irq := sc.irqResource
  irqHandle := sc.irqHandle
  intr := sc.intrInitialized
  cdev := sc.cdev

/-- Whether the fields say that a resource is held. Not all are recorded in a field. -/
def HostFields.knows (f : HostFields) : Resource → Prop
  | .bar2 => f.mem = true
  | .mcdiMtx => f.mcdi = true
  | .dmaTag b => (f.dma b).dtag = true ∧ (f.dma b).vaddr = true ∧ (f.dma b).paddr ≠ 0
  | .bar4 => f.msixBar = true
  | .msix => 0 < f.nvec
  | .irq => f.irq = true
  | .intrHandler => f.intr = true ∧ f.irqHandle = true
  | .cdev => f.cdev = true
  | _ => True

def intrResources : List Resource := [.bar4, .msix, .irq, .intrHandler]

/-- The fields say that `A` is held; about the interrupt they say no more than that. -/
structure Agree (A : Finset Resource) (f : HostFields) : Prop where
  known : ∀ r ∈ A, f.knows r
  exact : ∀ r ∈ intrResources, f.knows r → r ∈ A

section
variable {A : Finset Resource} {f f' : HostFields} {r : Resource}

theorem Agree.insert (h : Agree A f) (hr : f'.knows r)
    (hframe : ∀ x, x ≠ r → (f'.knows x ↔ f.knows x)) : Agree (insert r A) f' where
  known x hx := by
    by_cases hxr : x = r
    · exact hxr ▸ hr
    · exact (hframe x hxr).mpr (h.known x (Finset.mem_of_mem_insert_of_ne hx hxr))
  exact x hx hknows := by
    by_cases hxr : x = r
    · exact hxr ▸ Finset.mem_insert_self x A
    · exact Finset.mem_insert_of_mem (h.exact x hx ((hframe x hxr).mp hknows))

theorem Agree.erase (h : Agree A f) (hr : r ∈ intrResources → ¬f'.knows r)
    (hframe : ∀ x, x ≠ r → (f'.knows x ↔ f.knows x)) : Agree (A.erase r) f' where
  known x hx :=
    (hframe x (Finset.ne_of_mem_erase hx)).mpr (h.known x (Finset.mem_of_mem_erase hx))
  exact x hx hknows := by
    have hxr : x ≠ r := fun he => hr (he ▸ hx) (he ▸ hknows)
    exact Finset.mem_erase.mpr ⟨hxr, h.exact x hx ((hframe x hxr).mp hknows)⟩

/-- What is not there is stored as not there. -/
theorem Agree.clear (h : Agree A f) (hA : r ∉ A) (hr : r ∈ intrResources → ¬f'.knows r)
    (hframe : ∀ x, x ≠ r → (f'.knows x ↔ f.knows x)) : Agree A f' := by
  rw [← Finset.erase_eq_of_notMem hA]
  exact h.erase hr hframe

/-- Nothing of what `A` says has changed. -/
theorem Agree.frame (h : Agree A f) (hframe : ∀ x ∈ A, f.knows x → f'.knows x)
    (hintr : ∀ x ∈ intrResources, f'.knows x → f.knows x) : Agree A f' where
  known x hx := hframe x hx (h.known x hx)
  exact x hx hknows := h.exact x hx (hintr x hx hknows)

end

section
variable {H H' D D' : Finset Resource} {st st' : St} {r : Resource}

theorem Owns.log (h : Owns H D st) {evs : List Event} (hlog : st'.log = st.log ++ evs)
    (hrun : run (Custody.step rules) ⟨H, D⟩ (evs.flatMap Event.custody) = some ⟨H', D'⟩) :
    Owns H' D' st' := by
  unfold Owns
  rw [hlog, List.flatMap_append]
  exact run_append h hrun

theorem Owns.acquire (h : Owns H D st) (hfree : r ∉ H) (hnew : r ∉ D)
    (hneeds : ∀ x ∈ r.needs, x ∈ H) : Owns (insert r H) D (st.acquire r) :=
  h.log rfl (run_cons.mpr ⟨_, step_acquire hfree hnew hneeds, rfl⟩)

theorem Owns.release (h : Owns H D st) (hheld : r ∈ H) (hunused : ∀ x ∈ r.users, x ∉ H) :
    Owns (H.erase r) (insert r D) (st.release r) :=
  h.log rfl (run_cons.mpr
    ⟨_, step_release hheld fun x hx huses => hunused x (mem_users huses) hx, rfl⟩)

/-- What was taken last goes back. -/
theorem Owns.release_insert (h : Owns (insert r H) D st) (hr : r ∉ H)
    (hunused : ∀ x ∈ r.users, x ∉ insert r H) : Owns H (insert r D) (st.release r) := by
  have hrel := h.release (Finset.mem_insert_self r H) hunused
  rwa [Finset.erase_insert hr] at hrel

theorem Owns.use (h : Owns H D st) (hheld : r ∈ H) : Owns H D (st.use r) :=
  h.log rfl (run_cons.mpr ⟨_, step_use hheld, rfl⟩)

theorem Owns.cast (h : Owns H D st) (hH : H = H') (hD : D = D') : Owns H' D' st := by
  rw [← hH, ← hD]
  exact h

/-- Stores to the softc are not events. -/
theorem Owns.congr (h : Owns H D st) (hlog : st'.log = st.log) : Owns H D st' := by
  unfold Owns
  rw [hlog]
  exact h

theorem Owns.update (h : Owns H D st) (u : Softc → Softc) : Owns H D (st.update u) := h.congr rfl

theorem Owns.mcdi (h : Owns H D st) (hmail : ∀ r ∈ mailbox, r ∈ H) {op : Op} {inp : List Byte}
    {a : Answer} (hlog : st'.log = st.log ++ [.mcdi op inp a]) : Owns H D st' :=
  h.log hlog (by simpa [Event.custody] using run_use hmail)

end

def Event.IsCommand (e : Event) : Prop := ∃ op inp a, e = .mcdi op inp a

def Event.IsQuery (e : Event) : Prop := ∃ op inp a, op.kind = .queries ∧ e = .mcdi op inp a

/-- From `st` to `st'` the host was touched through the mailbox at most. -/
abbrev Silent : St → St → Prop := Grows St.log (fun st => st.sc.host) Event.IsCommand

/-- From `st` to `st'` only commands were sent that create and release nothing, and neither flags
nor host fields were stored. -/
abbrev Asks : St → St → Prop :=
  Grows St.log (fun st => (st.sc.host, st.sc.flag, st.held)) Event.IsQuery

section
variable {env : Env} {st st' : St}

theorem Owns.silent (howns : Owns H D st) (hmail : ∀ r ∈ mailbox, r ∈ H) (h : Silent st st') :
    Owns H D st' := by
  obtain ⟨evs, hlog, hevs⟩ := h.log
  refine howns.log hlog ?_
  clear hlog
  induction evs with
  | nil => rfl
  | cons e evs ih =>
    obtain ⟨⟨op, inp, a, rfl⟩, hrest⟩ := List.forall_mem_cons.mp hevs
    rw [List.flatMap_cons]
    exact run_append (run_use hmail) (ih hrest)

theorem Asks.host (h : Asks st st') : st'.sc.host = st.sc.host := congrArg (·.1) h.view

theorem Asks.flag (h : Asks st st') : st'.sc.flag = st.sc.flag := congrArg (·.2.1) h.view

theorem Asks.held (h : Asks st st') : st'.held = st.held := congrArg (·.2.2) h.view

theorem Asks.silent (h : Asks st st') : Silent st st' := by
  refine h.mono h.host ?_
  rintro e ⟨op, inp, a, -, rfl⟩
  exact ⟨op, inp, a, rfl⟩

theorem stored_host (o : McObject) (r : ExecResult) (sc : Softc) :
    (o.stored r sc).host = sc.host := by
  rcases o with _ | _ | _ | (_ | _) | _ | _ | _ <;> rfl

theorem forgotten_host (o : McObject) (sc : Softc) : (o.forgotten sc).host = sc.host := by
  rcases o with _ | _ | _ | (_ | _) | _ | _ | _ <;> rfl

theorem exec_silent (env : Env) (st : St) (op : Op) (inp : List Byte) (k : ℕ) :
    Silent st (exec env op inp k st).1 := by
  simp only [exec]
  split_ifs
  · exact .refl st
  · exact .refl st
  · exact .single ⟨op, inp, env.reply st.held op k, rfl⟩ rfl rfl

theorem command_silent {op : Op} {inp : List Byte} {k minUsed : ℕ}
    {store : ExecResult → Softc → Softc} (hstore : ∀ r sc, (store r sc).host = sc.host) :
    Silent st (command env op inp k minUsed store st).1 := by
  unfold command
  simp only
  split
  next => exact exec_silent env st op inp k
  next =>
    split
    next => exact exec_silent env st op inp k
    next => exact (exec_silent env st op inp k).store rfl (hstore _ _)

theorem create_silent (o : McObject) : Silent st (o.stage.step env st).1 := by
  have hsent : Silent st (sent env o.createOp (o.createIn st.sc) 0 st) :=
    .single ⟨o.createOp, o.createIn st.sc, env.answer o.createOp 0, rfl⟩ rfl rfl
  have hcases := creates env o st
  generalize o.stage.step env st = x at hcases ⊢
  cases hcases with
  | refused hwhy => exact .refl st
  | present hset => exact .refl st
  | failed flags hrc => exact hsent.store rfl rfl
  | created hgo hnew hrc => exact hsent.store rfl (stored_host o _ _)

theorem releaseOf_silent (o : McObject) : Silent st (releaseOf env o st).1 := by
  have hexec := exec_silent env st o.releaseOp (o.releaseIn st.sc) 0
  rw [releaseOf_eq]
  simp only [releaseObject]
  split_ifs
  · exact .refl st
  · exact hexec
  · exact hexec.store rfl (forgotten_host o _)

theorem exec_asks (env : Env) (st : St) {op : Op} (hop : op.kind = .queries) (inp : List Byte)
    (k : ℕ) : Asks st (exec env op inp k st).1 := by
  simp only [exec]
  split_ifs
  · exact .refl st
  · exact .refl st
  · refine .single ⟨op, inp, env.reply st.held op k, hop, rfl⟩ rfl ?_
    simp only [Op.effect, hop, ite_self]

theorem command_asks {op : Op} (hop : op.kind = .queries) {inp : List Byte} {k minUsed : ℕ}
    {store : ExecResult → Softc → Softc}
    (hstore : ∀ r sc, (store r sc).host = sc.host ∧ (store r sc).flag = sc.flag) :
    Asks st (command env op inp k minUsed store st).1 := by
  have hexec : Asks st (exec env op inp k st).1 := exec_asks env st hop inp k
  unfold command
  simp only
  split
  next => exact hexec
  next =>
    split
    next => exact hexec
    next => exact hexec.store rfl (Prod.ext (hstore _ _).1 (Prod.ext (hstore _ _).2 rfl))

theorem tolerateEacces_fst (f : Attempt St Errno) (st : St) :
    (tolerateEacces f st).1 = (f st).1 := by
  simp only [tolerateEacces]
  split <;> rfl

theorem getAsserts_asks (left retry : ℕ) (rc : Option Errno) :
    Asks st (getAsserts env left retry rc st).1 := by
  induction left generalizing retry rc st with
  | zero => exact .refl st
  | succ left ih =>
    have hexec : Asks st (exec env .getAsserts (dwords [1]) retry st).1 := exec_asks env st rfl _ _
    simp only [getAsserts]
    split
    next => exact hexec
    next => exact hexec.trans (ih (retry + 1) _)

theorem dumpFuncInfo_asks : Asks st (dumpFuncInfo env st).1 := by
  have hport : Asks st (exec env .getPortAssignment [] 0 st).1 := exec_asks env st rfl _ _
  have hinfo := hport.trans (exec_asks env _ (rfl : Op.getFunctionInfo.kind = .queries) [] 0)
  have hexec := hinfo.trans (exec_asks env _ (rfl : Op.getCapabilities.kind = .queries) [] 0)
  simp only [dumpFuncInfo]
  split
  next => exact hexec.store rfl rfl
  next => exact hexec

theorem waitLink_asks (left i : ℕ) : Asks st (waitLink env left i st).1 := by
  induction left generalizing i st with
  | zero => exact .refl st
  | succ left ih =>
    have hlink : Asks st (getLink env i st).1 := command_asks rfl fun _ _ => ⟨rfl, rfl⟩
    simp only [waitLink]
    split
    next => exact hlink
    next =>
      split
      next => exact hlink
      next => exact hlink.trans (ih (i + 1))

/-- The stages that only ask and configure. -/
def queryStages : List Stage :=
  [.getVersion, .clearAssertions, .getMac, .dumpFuncInfo, .getPhyCfg, .setMac, .setLink, .getLink]

theorem stage_asks {k : Stage} (hk : k ∈ queryStages) : Asks st (Stage.step env k st).1 := by
  cases k with
  | getVersion | getMac | getPhyCfg =>
    apply command_asks rfl
    exact fun _ _ => ⟨rfl, rfl⟩
  | setMac =>
    simp only [Stage.step, setMac, tolerateEacces_fst]
    exact command_asks rfl fun _ _ => ⟨rfl, rfl⟩
  | clearAssertions =>
    simp only [Stage.step, clearAssertions, tolerateEacces_fst]
    exact getAsserts_asks 3 0 none
  | setLink =>
    have hstore : Asks st (st.update fun sc =>
        { sc with phyAdvCapMask := st.sc.phySupportedCapMask ||| BitVec.twoPow 32 10 }) :=
      Grows.store (.refl st) rfl rfl
    exact hstore.trans (command_asks rfl fun _ _ => ⟨rfl, rfl⟩)
  | dumpFuncInfo => exact dumpFuncInfo_asks
  | getLink => exact waitLink_asks 30 0
  | bar2 | mcdiInit | drvAttach | entityReset | allocVis | vadaptorAlloc | allocDma | intrSetup
  | initEvq | initDataEvq | initRxq | postRxBuffers | initTxq | filterInsert | makeDev =>
    exact absurd hk (by decide)

/-- The stages that only talk to the MC. -/
def commandStages : List Stage :=
  mcdiStages ++ functionStages ++ [.initEvq, .initDataEvq, .initRxq, .initTxq, .filterInsert]

theorem stage_silent {k : Stage} (hk : k ∈ commandStages) : Silent st (Stage.step env k st).1 := by
  cases k with
  | getVersion | clearAssertions | getMac | dumpFuncInfo | getPhyCfg | setMac | setLink | getLink =>
    exact (stage_asks (by decide)).silent
  | entityReset =>
    simp only [Stage.step, entityReset, tolerateEacces_fst]
    exact command_silent fun _ _ => rfl
  | drvAttach => exact create_silent .attachment
  | allocVis => exact create_silent .vis
  | vadaptorAlloc => exact create_silent .vadaptor
  | initEvq => exact create_silent (.evq .control)
  | initDataEvq => exact create_silent (.evq .data)
  | initRxq => exact create_silent .rxq
  | initTxq => exact create_silent .txq
  | filterInsert => exact create_silent .rxFilter
  | bar2 | mcdiInit | allocDma | intrSetup | postRxBuffers | makeDev => exact absurd hk (by decide)

end

end Sfc7120.Attach

import Sfc7120.Attach.Configured

/-! The two accounts of what the MC holds. `held` follows the driver's own names for the commands;
the tables follow the bytes. They name the same objects after every attach and every detach,
whatever is answered on the way. -/
namespace Sfc7120.Attach

open ByteMemory Mcdi Ladder Machine

/-- The tables hold the objects of `held` and no others. -/
structure Mirrors (t : Tables) (held : Finset McObject) : Prop where
  attached : t.attached = true ↔ .attachment ∈ held
  vis : t.vis.isSome = true ↔ .vis ∈ held
  vadaptors : ∀ i, (t.vadaptors i).isSome = true ↔ i = evbPortIdAssigned ∧ .vadaptor ∈ held
  evqs : ∀ i, (t.evqs i).isSome = true ↔
    (i = 0 ∧ .evq .control ∈ held) ∨ (i = 1 ∧ .evq .data ∈ held)
  rxqs : ∀ i, (t.rxqs i).isSome = true ↔ i = 0 ∧ .rxq ∈ held
  txqs : ∀ i, (t.txqs i).isSome = true ↔ i = 0 ∧ .txq ∈ held
  filters : (∃ i, (t.filters i).isSome = true) ↔ .rxFilter ∈ held

/-- What a command says is what its name says. -/
def Op.Writes (op : Op) (inp : List Byte) (w : Wiring) : Prop :=
  match op.kind with
  | .queries => True
  | .resets => Request.read op.code inp = .reset
  | .creates o => ∃ w', Request.read op.code inp = o.request w'
  | .releases o => Request.read op.code inp = o.discard w

section
variable {t : Tables} {held : Finset McObject} {o : McObject} {w : Wiring} {out : List Byte}

theorem isSome_update {κ ε : Type} [DecidableEq κ] (f : κ → Option ε) (k : κ) (e : Option ε)
    (i : κ) : ((Function.update f k e) i).isSome = true ↔
      (i = k ∧ e.isSome = true) ∨ (i ≠ k ∧ (f i).isSome = true) := by
  by_cases hi : i = k <;> simp [hi]

theorem Mirrors.request (hm : Mirrors t held) :
    Mirrors (t.serve out (o.request w)) (insert o held) := by
  obtain ⟨hatt, hvis, hvad, hevq, hrx, htx, hflt⟩ := hm
  rcases o with _ | _ | _ | (_ | _) | _ | _ | _ <;>
    constructor <;> simp only [McObject.request, Tables.serve, Finset.mem_insert, isSome_update,
      Option.isSome_some, reduceCtorEq, false_or, true_or, hatt, hvis, hvad, hevq, hrx, htx, hflt,
      McObject.evq.injEq, implies_true, Evq.inst, and_true]
  case rxFilter.filters => exact iff_of_true ⟨_, .inl rfl⟩ trivial
  all_goals intro i
  all_goals grind

theorem Mirrors.discard (hm : Mirrors t held)
    (hflt : o = .rxFilter → ∀ i, (t.filters i).isSome = true → i = w.filterHandle) :
    Mirrors (t.serve out (o.discard w)) (held.erase o) := by
  obtain ⟨hatt, hvis, hvad, hevq, hrx, htx, hfilters⟩ := hm
  rcases o with _ | _ | _ | (_ | _) | _ | _ | _ <;>
    constructor <;> simp only [McObject.discard, Tables.serve, Finset.mem_erase, isSome_update,
      Option.isSome_none, reduceCtorEq, ne_eq, not_false_eq_true, true_and, hatt, hvis, hvad, hevq,
      hrx, htx, hfilters, McObject.evq.injEq, implies_true, Evq.inst, and_false, false_or,
      not_true_eq_false, false_and, Bool.false_eq_true]
  case rxFilter.filters =>
    rw [iff_false]
    rintro ⟨i, hne, hi⟩
    exact hne (hflt rfl i hi)
  all_goals intro i
  all_goals grind

theorem Mirrors.reset (hm : Mirrors t held) :
    Mirrors (t.serve out .reset) (held.filter (· = .attachment)) := by
  constructor <;> simp [Tables.serve, Tables.empty, hm.attached]

/-- A command and its answer, in both accounts. -/
theorem Mirrors.command (hm : Mirrors t held) {op : Op} {inp : List Byte} (hw : op.Writes inp w)
    (hflt : op.kind = .releases .rxFilter → ∀ i, (t.filters i).isSome = true → i = w.filterHandle)
    (a : Answer) : Mirrors (t.hear (.mcdi op inp a)) (op.effect a held) := by
  unfold Op.Writes at hw
  unfold Op.effect
  cases a with
  | success payload =>
    simp only [Tables.hear, Answer.isSuccess, if_true]
    cases hop : op.kind with
    | queries =>
      rw [read_query hop]
      exact hm
    | resets =>
      rw [hop] at hw
      simp only at hw ⊢
      rw [hw]
      exact hm.reset
    | creates o =>
      rw [hop] at hw
      simp only at hw ⊢
      obtain ⟨w', hw⟩ := hw
      rw [hw]
      exact hm.request
    | releases o =>
      rw [hop] at hw
      simp only at hw ⊢
      rw [hw]
      exact hm.discard fun ho => hflt (by rw [hop, ho])
  | error payload | wrongSeq | silence => exact hm

end

/-- A filter the driver knows of is the only one, and under the handle it keeps. -/
structure Mirror (st : St) : Prop where
  mirrors : Mirrors (st.tables Tables.empty) st.held
  handle : st.sc.rxFilterInserted = true →
    ∀ i, ((st.tables Tables.empty).filters i).isSome = true → i = st.sc.rxFilterHandle

/-- The driver knows of no filter. -/
structure Dropped (st : St) : Prop where
  mirrors : Mirrors (st.tables Tables.empty) st.held
  clear : st.sc.rxFilterInserted = false

/-- And there is none. -/
structure Bare (st : St) : Prop extends Dropped st where
  none : .rxFilter ∉ st.held

section
variable {env : Env} {st st' : St} {op : Op} {o : McObject} {inp : List Byte} {k minUsed : ℕ}
  {store : ExecResult → Softc → Softc}

theorem Dropped.mirror (hd : Dropped st) : Mirror st :=
  ⟨hd.mirrors, fun hset => absurd (hset.symm.trans hd.clear) (by simp)⟩

theorem Mirror.ends (hm : Mirror st) (h : st'.ends Tables.empty = st.ends Tables.empty) :
    Mirror st' := by
  have htables : st'.tables Tables.empty = st.tables Tables.empty := congrArg (·.1) h
  have hhandle : st'.sc.rxFilterHandle = st.sc.rxFilterHandle := congrArg (·.2.1.filterHandle) h
  have hflag : st'.sc.rxFilterInserted = st.sc.rxFilterInserted := congrArg (·.2.2.flag .rxFilter) h
  have hheld : st'.held = st.held := congrArg (·.2.2.held) h
  constructor
  · rw [htables, hheld]
    exact hm.mirrors
  · rw [htables, hhandle, hflag]
    exact hm.handle

theorem Dropped.keeps (hd : Dropped st)
    (htables : st'.tables Tables.empty = st.tables Tables.empty) (hheld : st'.held = st.held)
    (hflag : st'.sc.flag .rxFilter = st.sc.flag .rxFilter) : Dropped st' := by
  refine ⟨?_, hflag.trans hd.clear⟩
  rw [htables, hheld]
  exact hd.mirrors

theorem Bare.keeps (hb : Bare st) (htables : st'.tables Tables.empty = st.tables Tables.empty)
    (hheld : st'.held = st.held) (hflag : st'.sc.flag .rxFilter = st.sc.flag .rxFilter) :
    Bare st' := ⟨hb.toDropped.keeps htables hheld hflag, by rw [hheld]; exact hb.none⟩

theorem Bare.asks (hb : Bare st) (ha : Asks st st') : Bare st' :=
  hb.keeps ha.tables ha.held (congrFun ha.flag _)

theorem Bare.ends (hb : Bare st) (h : st'.ends Tables.empty = st.ends Tables.empty) : Bare st' :=
  hb.keeps (congrArg (·.1) h) (congrArg (·.2.2.held) h) (congrArg (·.2.2.flag .rxFilter) h)

theorem Dropped.handles (hd : Dropped st) (hh : Handles st st') : Dropped st' :=
  hd.keeps hh.tables (congrArg Fw.held hh.view) (congrFun (congrArg Fw.flag hh.view) .rxFilter)

theorem Bare.handles (hb : Bare st) (hh : Handles st st') : Bare st' :=
  hb.keeps hh.tables (congrArg Fw.held hh.view) (congrFun (congrArg Fw.flag hh.view) .rxFilter)

theorem exec_mirrors (hm : Mirrors (st.tables Tables.empty) st.held)
    (hw : op.Writes inp st.sc.wiring)
    (hflt : op.kind = .releases .rxFilter → ∀ i,
      ((st.tables Tables.empty).filters i).isSome = true → i = st.sc.rxFilterHandle) :
    Mirrors ((exec env op inp k st).1.tables Tables.empty) (exec env op inp k st).1.held := by
  simp only [exec]
  split_ifs
  · exact hm
  · exact hm
  · have hboth := hm.command hw hflt (env.reply st.held op k)
    simp only [St.tables, List.foldl_append]
    exact hboth

theorem exec_held (hop : op.kind ≠ .creates .rxFilter) (hnone : .rxFilter ∉ st.held) :
    .rxFilter ∉ (exec env op inp k st).1.held := by
  simp only [exec]
  split_ifs
  · exact hnone
  · exact hnone
  · unfold Op.effect
    cases hkind : op.kind with
    | creates o =>
      have ho : o ≠ .rxFilter := fun he => hop (by rw [hkind, he])
      simp only
      split
      next => simp [ho.symm, hnone]
      next => exact hnone
    | releases o =>
      simp only
      split
      next => simp [hnone]
      next => exact hnone
    | resets =>
      simp only
      split
      next => simp
      next => exact hnone
    | queries => simpa using hnone

/-- A command that is neither about the filter nor refused by the model of the bytes. -/
theorem exec_bare (hb : Bare st) (hw : op.Writes inp st.sc.wiring)
    (hop : op.kind ≠ .creates .rxFilter) (hrel : op.kind ≠ .releases .rxFilter) :
    Bare (exec env op inp k st).1 := by
  refine ⟨⟨exec_mirrors hb.mirrors hw (absurd · hrel), ?_⟩, exec_held hop hb.none⟩
  rw [exec_sc]
  exact hb.clear

theorem command_bare (hb : Bare st) (hw : op.Writes inp st.sc.wiring)
    (hop : op.kind ≠ .creates .rxFilter) (hrel : op.kind ≠ .releases .rxFilter)
    (hstore : ∀ r sc, (store r sc).rxFilterInserted = sc.rxFilterInserted) :
    Bare (command env op inp k minUsed store st).1 := by
  have hexec : Bare (exec env op inp k st).1 := exec_bare hb hw hop hrel
  unfold command
  simp only
  split
  next => exact hexec
  next =>
    split
    next => exact hexec
    next => exact hexec.keeps rfl rfl (hstore _ _)

/-- A create command, whatever the answer. -/
theorem sent_mirrors (hm : Mirrors (st.tables Tables.empty) st.held) (o : McObject) :
    Mirrors ((sent env o.createOp (o.createIn st.sc) 0 st).tables Tables.empty)
      (sent env o.createOp (o.createIn st.sc) 0 st).held := by
  have hw : o.createOp.Writes (o.createIn st.sc) st.sc.wiring := by
    simp only [Op.Writes, o.createOp_kind]
    exact ⟨st.sc.wiring, read_createIn o st.sc⟩
  have hboth := hm.command hw (by simp [o.createOp_kind]) (env.answer o.createOp 0)
  simp only [St.tables, sent, List.foldl_append]
  exact hboth

theorem stored_clear (ho : o ≠ .rxFilter) (r : ExecResult) (sc : Softc) :
    (o.stored r sc).rxFilterInserted = sc.rxFilterInserted := by
  rcases o with _ | _ | _ | (_ | _) | _ | _ | _ <;> first | rfl | exact absurd rfl ho

theorem create_bare (ho : o ≠ .rxFilter) (hb : Bare st) : Bare (o.stage.step env st).1 := by
  have hsent : Bare (sent env o.createOp (o.createIn st.sc) 0 st) := by
    refine ⟨⟨sent_mirrors hb.mirrors o, hb.clear⟩, ?_⟩
    simp only [sent, Op.effect, o.createOp_kind]
    split
    next => simp [ho.symm, hb.none]
    next => exact hb.none
  have hcases := creates env o st
  generalize o.stage.step env st = x at hcases ⊢
  cases hcases with
  | refused hwhy => exact hb
  | present hset => exact hb
  | failed flags hrc => exact hsent.keeps rfl rfl rfl
  | created hgo hnew hrc => exact hsent.keeps rfl rfl (stored_clear ho _ _)

theorem mcdiInit_bare (hb : Bare st) : Bare (mcdiInit env st).1 := by
  have hsetup : Bare (mcdiSetup env (st.acquire .mcdiMtx)).1 :=
    hb.handles ((handles_acquire st (by simp)).trans (mcdiSetup_handles _))
  unfold mcdiInit
  cases hrc : (mcdiSetup env (st.acquire .mcdiMtx)).2 with
  | none =>
    rw [andThen_of_none hrc]
    exact hsetup.keeps rfl rfl rfl
  | some e =>
    rw [andThen_of_ne (by simp [hrc])]
    exact hsetup

/-- The stages of attach around the filter. -/
theorem stage_bare {k : Stage} (hk : k ≠ .filterInsert) (hb : Bare st) :
    Bare (Stage.step env k st).1 := by
  cases k with
  | getVersion | clearAssertions | getMac | dumpFuncInfo | getPhyCfg | setMac | setLink | getLink =>
    exact hb.asks (stage_asks (by decide))
  | bar2 => exact hb.handles (allocBar2_handles st)
  | mcdiInit => exact mcdiInit_bare hb
  | drvAttach => exact create_bare (o := .attachment) (by simp) hb
  | entityReset =>
    simp only [Stage.step, entityReset, tolerateEacces_fst]
    refine command_bare hb ?_ (by simp [Op.kind]) (by simp [Op.kind]) fun _ _ => rfl
    exact (by decide : Request.read Op.entityReset.code (dwords [1]) = .reset)
  | allocVis => exact create_bare (o := .vis) (by simp) hb
  | vadaptorAlloc => exact create_bare (o := .vadaptor) (by simp) hb
  | allocDma => exact hb.handles (allocBufs_handles dmaOrder st)
  | intrSetup => exact hb.ends (intrSetup_ends st)
  | initEvq => exact create_bare (o := .evq .control) (by simp) hb
  | initDataEvq => exact create_bare (o := .evq .data) (by simp) hb
  | initRxq => exact create_bare (o := .rxq) (by simp) hb
  | initTxq => exact create_bare (o := .txq) (by simp) hb
  | postRxBuffers =>
    exact hb.ends ((use_ends _).trans ((use_ends _).trans (use_ends _)))
  | filterInsert => exact absurd rfl hk
  | makeDev => exact hb.ends (makeDevCapio_ends st)

/-- The handle in the response is the one the only filter is under. -/
theorem filterInsert_mirror (hb : Bare st) : Mirror (Stage.step env .filterInsert st).1 := by
  have hsent : Mirrors ((sent env .filterInsert (McObject.rxFilter.createIn st.sc) 0 st).tables
      Tables.empty) (sent env .filterInsert (McObject.rxFilter.createIn st.sc) 0 st).held :=
    sent_mirrors hb.mirrors .rxFilter
  have hcases : Creates env .rxFilter st (Stage.step env .filterInsert st) := creates env _ st
  generalize Stage.step env .filterInsert st = x at hcases ⊢
  cases hcases with
  | refused hwhy => exact hb.mirror
  | present hset => exact hb.mirror
  | failed flags hrc => exact Dropped.mirror ⟨hsent, hb.clear⟩
  | created hgo hnew hrc =>
    obtain ⟨hcmd, -⟩ := createRc_eq_none_iff.mp hrc
    obtain ⟨-, hlong⟩ := commandRc_eq_none hcmd
    refine ⟨hsent, fun _ i hi => ?_⟩
    cases ha : env.answer .filterInsert 0 with
    | success payload =>
      have hnone : ∀ i, ((st.tables .empty).filters i).isSome ≠ true := fun i hi =>
        hb.none (hb.mirrors.filters.mp ⟨i, hi⟩)
      have htables : (sent env .filterInsert (filterInsertIn st.sc) 0 st).tables .empty =
          (st.tables .empty).serve payload (.filterInsert (filterEntry st.sc.macAddr)) := by
        rw [← read_filterInsert]
        exact tables_success (by rw [sent, ha])
      have hkey : i = qwordAt payload 4 := by
        have hi' : (((sent env .filterInsert (filterInsertIn st.sc) 0 st).tables
          .empty).filters i).isSome = true := hi
        rw [htables, Tables.serve, isSome_update] at hi'
        exact hi'.elim And.left fun hold => absurd hold.2 (hnone i)
      exact hkey.trans (handle_of_success ha (not_lt.mpr hlong)).symm
    | _ =>
      have hno : (env.answer .filterInsert 0).isSuccess = false := by rw [ha]; rfl
      have hused := used_of_not_success hno
      simp [McObject.createOp, McObject.minUsed, hused] at hlong

theorem releaseOf_mirrors (hm : Mirror st) (o : McObject) :
    Mirrors ((releaseOf env o st).1.tables .empty) (releaseOf env o st).1.held := by
  simp only [releaseOf_eq, releaseObject]
  split
  next => exact hm.mirrors
  next hset =>
    have hw : o.releaseOp.Writes (o.releaseIn st.sc) st.sc.wiring := by
      simp only [Op.Writes, o.releaseOp_kind]
      exact read_releaseIn o st.sc
    have hexec : Mirrors ((exec env o.releaseOp (o.releaseIn st.sc) 0 st).1.tables .empty)
        (exec env o.releaseOp (o.releaseIn st.sc) 0 st).1.held := by
      refine exec_mirrors hm.mirrors hw fun hflt => hm.handle ?_
      have ho : o = .rxFilter := by simpa [o.releaseOp_kind] using hflt
      rw [ho] at hset
      simpa [Softc.flag] using hset
    split
    next => exact hexec
    next => exact hexec

/-- The filter is forgotten whatever the answer. -/
theorem filterRemove_dropped (hm : Mirror st) : Dropped (filterRemove env st).1 := by
  refine ⟨releaseOf_mirrors hm .rxFilter, ?_⟩
  simp only [filterRemove, releaseObject]
  split
  next hset => simpa [Softc.flag] using hset
  next => rfl

theorem releaseOf_dropped (hd : Dropped st) (o : McObject) : Dropped (releaseOf env o st).1 := by
  refine ⟨releaseOf_mirrors hd.mirror o, ?_⟩
  have hclear : (exec env o.releaseOp (o.releaseIn st.sc) 0 st).1.sc.rxFilterInserted = false := by
    rw [exec_sc]
    exact hd.clear
  have hforget : ∀ sc : Softc, sc.rxFilterInserted = false →
      (o.forgotten sc).rxFilterInserted = false := by
    intro sc hsc
    rcases o with _ | _ | _ | (_ | _) | _ | _ | _ <;> first | exact hsc | rfl
  simp only [releaseOf_eq, releaseObject]
  split_ifs
  · exact hd.clear
  · exact hclear
  · exact hforget _ hclear

theorem mcdiFini_dropped (hd : Dropped st) : Dropped (mcdiFini st) := by
  have hfreed := hd.handles ((freeDmabuf_handles .mcdi st).trans
    (handles_release _ (r := .mcdiMtx) (by simp)))
  unfold mcdiFini
  split
  next => exact hd
  next => exact hfreed.keeps rfl rfl rfl

theorem hwTeardown_dropped (hm : Mirror st) : Dropped (hwTeardown env st) := by
  -- the filter goes first, while its handle is still known
  have horder : teardownOrder = .rxFilter :: teardownOrder.tail := rfl
  rw [hwTeardown, horder, List.foldl_cons]
  apply mcdiFini_dropped
  exact List.foldlRecOn teardownOrder.tail _ (filterRemove_dropped hm) fun _ hd o _ =>
    releaseOf_dropped hd o

theorem hwInit_bare (env : Env) : Leaves Bare (hwInit env) Bare Dropped := by
  have hstage : ∀ k : Stage, k ≠ .filterInsert → Leaves Bare (Stage.step env k) Bare Bare :=
    fun k hk => Leaves.of_keeps fun st hb => stage_bare hk hb
  have hclimb : ∀ ks : List Stage, .filterInsert ∉ ks →
      Leaves Bare (climb (Stage.step env) ks) Bare Bare := fun ks hks =>
    Leaves.climb fun k hk => hstage k (ne_of_mem_of_not_mem hk hks)
  have hfunction : Leaves Bare (unwinding (fun st => (drvDetach env st).1)
      (climb (Stage.step env) functionStages)) Bare Dropped :=
    (hclimb _ (by decide)).unwinding fun st hb => releaseOf_dropped hb.toDropped .attachment
  have hmcdi : Leaves Bare (climb (Stage.step env) mcdiStages) Bare Dropped :=
    (hclimb _ (by decide)).weaken (fun _ hb => hb) fun _ hb => hb.toDropped
  have hinit : Leaves Bare (Stage.step env .mcdiInit) Bare Dropped :=
    (hstage _ (by simp)).weaken (fun _ hb => hb) fun _ hb => hb.toDropped
  exact hinit.andThen ((hmcdi.andThen hfunction).unwinding fun _ hd => mcdiFini_dropped hd)

theorem queueStages_mirror : Leaves Bare (climb (Stage.step env) queueStages) Mirror Mirror := by
  have hbare : ∀ k : Stage, k ≠ .filterInsert → Leaves Bare (Stage.step env k) Bare Mirror :=
    fun k hk st hb => ⟨fun _ => stage_bare hk hb, fun _ => (stage_bare hk hb).mirror⟩
  have hfilter : Leaves Bare (Stage.step env .filterInsert) Mirror Mirror := fun st hb =>
    ⟨fun _ => filterInsert_mirror hb, fun _ => filterInsert_mirror hb⟩
  have hmake : Leaves Mirror (Stage.step env .makeDev) Mirror Mirror :=
    Leaves.of_keeps fun st hm => hm.ends (makeDevCapio_ends st)
  exact (hbare .intrSetup (by simp)).andThen ((hbare .initEvq (by simp)).andThen
    ((hbare .initDataEvq (by simp)).andThen ((hbare .initRxq (by simp)).andThen
      ((hbare .postRxBuffers (by simp)).andThen ((hbare .initTxq (by simp)).andThen
        (hfilter.andThen (hmake.andThen fun st hm => ⟨fun _ => hm, fun _ => hm⟩)))))))

theorem attach_mirror : Leaves Bare (attach env) Mirror Mirror := by
  have hdma : Leaves Bare (unwinding (hwTeardown env) (Stage.step env .allocDma)) Bare Dropped :=
    (Leaves.of_keeps fun st hb => stage_bare (k := .allocDma) (by simp) hb).unwinding
      fun st hb => hwTeardown_dropped hb.mirror
  have hqueue : Leaves Bare
      (unwinding (fun st => freeDmaResources (hwTeardown env (intrTeardown st)))
        (climb (Stage.step env) queueStages)) Mirror Dropped :=
    queueStages_mirror.unwinding fun st hm =>
      (hwTeardown_dropped (hm.ends (intrTeardown_ends st))).handles (freeDmaResources_handles _)
  have hbus := ((hwInit_bare env).andThen (hdma.andThen hqueue)).unwinding
    (c := fun st => (st.release .busMaster).release .bar2) fun st hd =>
      hd.handles ((handles_release st (by simp)).trans (handles_release _ (by simp)))
  have hbar : Leaves Bare (Stage.step env .bar2) Bare Dropped := fun st hb =>
    ⟨fun _ => stage_bare (by simp) hb, fun _ => (stage_bare (by simp) hb).toDropped⟩
  have hlocks := (hbar.andThen hbus).unwinding
    (c := fun st => (st.release .rxMtx).release .scMtx) fun st hd =>
      hd.handles ((handles_release st (by simp)).trans (handles_release _ (by simp)))
  have hpublish : Leaves Mirror (fun st => (publish st, (none : Option Errno))) Mirror Dropped :=
    fun st hm => ⟨fun _ => hm.ends (publish_ends st), fun hne => absurd rfl hne⟩
  intro st hb
  have hall := (hlocks.andThen hpublish).weaken (fun _ hb => hb) fun _ hd => hd.mirror
  exact hall _ (hb.handles ((handles_acquire st (by simp)).trans (handles_acquire _ (by simp))))

theorem detach_dropped (hm : Mirror st) : Dropped (detach env st) := by
  have hdead : Mirror ((st.use .scMtx).update fun sc => { sc with deviceAttached := false }) :=
    hm.ends ((update_ends rfl).trans (use_ends _))
  have hgone := (hdead.ends (releaseCdev_ends _)).ends (intrTeardown_ends _)
  have hrest : ∀ st : St, Handles st
      (((((releaseBar2 (freeDmaResources st)).release .busMaster).release .capMtx).release
        .rxMtx).release .scMtx) := fun st =>
    (((((freeDmaResources_handles st).trans (releaseBar2_handles _)).trans
      (handles_release _ (by simp))).trans (handles_release _ (by simp))).trans
      (handles_release _ (by simp))).trans (handles_release _ (by simp))
  exact (hwTeardown_dropped hgone).handles (hrest _)

/-- Whatever the MC and the host answer, and wherever attach gives up: the objects that `held`
accounts for are, one by one, the entries of the tables that the bytes on the mailbox add up to,
after attach and after detach. -/
theorem held_mirrors_tables (env : Env) :
    Mirrors ((attach env St.start).1.tables .empty) (attach env St.start).1.held ∧
      Mirrors ((detach env (attach env St.start).1).tables .empty)
        (detach env (attach env St.start).1).held := by
  have hstart : Bare St.start :=
    ⟨⟨by constructor <;> simp [St.tables, St.start, Tables.empty], rfl⟩, by simp [St.start]⟩
  have hattach : Mirror (attach env St.start).1 := by
    cases hrc : (attach env St.start).2 with
    | none => exact (attach_mirror St.start hstart).1 hrc
    | some e => exact (attach_mirror St.start hstart).2 (by simp [hrc])
  exact ⟨hattach.mirrors, (detach_dropped hattach).mirrors⟩

end

end Sfc7120.Attach

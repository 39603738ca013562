import Sfc7120.Attach.Quiesce

/-! The MC's end of the mailbox. It knows of this function what the bytes of the commands say and
what it answered itself: its tables are rebuilt from the log, and every field is read at its offset
in the command's input. -/
namespace Sfc7120.Attach

open ByteMemory Mcdi Ladder Machine

def qwordAt (bs : List Byte) (i : ℕ) : BitVec 64 := dwordAt bs (i + 4) ++ dwordAt bs i

/-- An event queue, as INIT_EVQ describes it. -/
structure EvqEntry where
  size : BitVec 32
  flags : BitVec 32
  irqNum : BitVec 32
  dmaAddr : BitVec 64
  deriving DecidableEq

/-- A descriptor queue, as INIT_RXQ and INIT_TXQ describe it. -/
structure QueueEntry where
  size : BitVec 32
  targetEvq : BitVec 32
  label : BitVec 32
  flags : BitVec 32
  portId : BitVec 32
  dmaAddr : BitVec 64
  deriving DecidableEq

/-- Which frames a filter takes, and where they go. -/
structure FilterEntry where
  portId : BitVec 32
  matchFields : BitVec 32
  rxDest : BitVec 32
  rxQueue : BitVec 32
  dstMac : List Byte
  deriving DecidableEq

/-- A command with its fields; `other` is one that creates and releases nothing. -/
inductive Request where
  | attach | detach | reset | other
  | allocVis (minCount maxCount : BitVec 32) | freeVis
  | vadaptorAlloc (portId flags : BitVec 32) | vadaptorFree (portId : BitVec 32)
  | initEvq (inst : BitVec 32) (e : EvqEntry) | finiEvq (inst : BitVec 32)
  | initRxq (inst : BitVec 32) (e : QueueEntry) | finiRxq (inst : BitVec 32)
  | initTxq (inst : BitVec 32) (e : QueueEntry) | finiTxq (inst : BitVec 32)
  | filterInsert (e : FilterEntry) | filterRemove (handle : BitVec 64)
  deriving DecidableEq

def QueueEntry.read (inp : List Byte) : QueueEntry where
  size := dwordAt inp 0
  targetEvq := dwordAt inp 4
  label := dwordAt inp 8
  flags := dwordAt inp 16
  portId := dwordAt inp 24
  dmaAddr := qwordAt inp 28

/-- DRV_ATTACH carries the new state and whether to take it over, FILTER_OP which operation. -/
def Request.read (code : BitVec 32) (inp : List Byte) : Request :=
  match code.toNat with
  | 0x1c =>
      if dwordAt inp 4 = 0 then .other
      else if (dwordAt inp 0).getLsbD 0 then .attach else .detach
  | 0x20 => if (dwordAt inp 0).getLsbD 0 then .reset else .other
  | 0x8b => .allocVis (dwordAt inp 0) (dwordAt inp 4)
  | 0x8c => .freeVis
  | 0x98 => .vadaptorAlloc (dwordAt inp 0) (dwordAt inp 8)
  | 0x99 => .vadaptorFree (dwordAt inp 0)
  | 0x80 =>
      .initEvq (dwordAt inp 4) ⟨dwordAt inp 0, dwordAt inp 16, dwordAt inp 24, qwordAt inp 36⟩
  | 0x83 => .finiEvq (dwordAt inp 0)
  | 0x81 => .initRxq (dwordAt inp 12) (QueueEntry.read inp)
  | 0x84 => .finiRxq (dwordAt inp 0)
  | 0x82 => .initTxq (dwordAt inp 12) (QueueEntry.read inp)
  | 0x85 => .finiTxq (dwordAt inp 0)
  | 0x8a =>
      if dwordAt inp 0 = 0 then
        .filterInsert ⟨dwordAt inp 12, dwordAt inp 16, dwordAt inp 20, dwordAt inp 24,
          (inp.drop 52).take 6⟩
      else if dwordAt inp 0 = 1 then .filterRemove (qwordAt inp 4) else .other
  | _ => .other

/-- What the MC holds for this function. Filters are found by the handle it gave out. -/
@[ext] structure Tables where
  attached : Bool
  vis : Option (BitVec 32 × BitVec 32)
  vadaptors : BitVec 32 → Option (BitVec 32)
  evqs : BitVec 32 → Option EvqEntry
  rxqs : BitVec 32 → Option QueueEntry
  txqs : BitVec 32 → Option QueueEntry
  filters : BitVec 64 → Option FilterEntry

def Tables.empty : Tables :=
  ⟨false, none, fun _ => none, fun _ => none, fun _ => none, fun _ => none, fun _ => none⟩

/-- A command that the MC answered with success and `out`. The reset spares the attachment. -/
def Tables.serve (t : Tables) (out : List Byte) : Request → Tables
  | .attach => { t with attached := true }
  | .detach => { t with attached := false }
  | .reset => { Tables.empty with attached := t.attached }
  | .other => t
  | .allocVis minCount maxCount => { t with vis := some (minCount, maxCount) }
  | .freeVis => { t with vis := none }
  | .vadaptorAlloc port flags =>
      { t with vadaptors := Function.update t.vadaptors port (some flags) }
  | .vadaptorFree port => { t with vadaptors := Function.update t.vadaptors port none }
  | .initEvq i e => { t with evqs := Function.update t.evqs i (some e) }
  | .finiEvq i => { t with evqs := Function.update t.evqs i none }
  | .initRxq i e => { t with rxqs := Function.update t.rxqs i (some e) }
  | .finiRxq i => { t with rxqs := Function.update t.rxqs i none }
  | .initTxq i e => { t with txqs := Function.update t.txqs i (some e) }
  | .finiTxq i => { t with txqs := Function.update t.txqs i none }
  | .filterInsert e => { t with filters := Function.update t.filters (qwordAt out 4) (some e) }
  | .filterRemove handle => { t with filters := Function.update t.filters handle none }

def Tables.hear (t : Tables) : Event → Tables
  | .mcdi op inp (.success payload) => t.serve payload (Request.read op.code inp)
  | _ => t

/-- The tables after the log, from what they were before it. -/
def St.tables (st : St) (t : Tables) : Tables := st.log.foldl Tables.hear t

/-- The softc fields that commands are written from. -/
structure Wiring where
  vadaptorFlags : BitVec 32
  paddr : DmaBuf → BitVec 64
  macAddr : Fin 6 → Byte
  filterHandle : BitVec 64

def Softc.wiring (sc : Softc) : Wiring where
  vadaptorFlags := Attach.vadaptorFlags sc
  paddr b := (sc.dma b).paddr
  macAddr := sc.macAddr
  filterHandle := sc.rxFilterHandle

/-- Both descriptor queues are instance 0 and report to event queue 1. -/
def queueEntry (flags : BitVec 32) (paddr : BitVec 64) (ndescs : ℕ) : QueueEntry :=
  ⟨.ofNat 32 ndescs, 1, 0, flags, evbPortIdAssigned, paddr⟩

def evqEntry (q : Evq) (paddr : BitVec 64) : EvqEntry :=
  ⟨.ofNat 32 numEvqEntry, evqFlags q, 0, paddr⟩

/-- Destination MAC (match bit 4) to host, receive queue 0. -/
def filterEntry (mac : Fin 6 → Byte) : FilterEntry :=
  ⟨evbPortIdAssigned, 0x10, 1, 0, List.ofFn mac⟩

/-- The command that creates an object. -/
def McObject.request (w : Wiring) : McObject → Request
  | .attachment => .attach
  | .vis => .allocVis 1 32
  | .vadaptor => .vadaptorAlloc evbPortIdAssigned w.vadaptorFlags
  | .evq q => .initEvq (.ofNat 32 q.inst) (evqEntry q (w.paddr q.ring))
  | .rxq => .initRxq 0 (queueEntry 0x300 (w.paddr .rxDesc) numRxDesc)
  | .txq => .initTxq 0 (queueEntry 6 (w.paddr .txDesc) numTxDesc)
  | .rxFilter => .filterInsert (filterEntry w.macAddr)

/-- The command that releases it. -/
def McObject.discard (w : Wiring) : McObject → Request
  | .attachment => .detach
  | .vis => .freeVis
  | .vadaptor => .vadaptorFree evbPortIdAssigned
  | .evq q => .finiEvq (.ofNat 32 q.inst)
  | .rxq => .finiRxq 0
  | .txq => .finiTxq 0
  | .rxFilter => .filterRemove w.filterHandle

/-- A table with at most one entry. -/
def single {κ ε : Type} [DecidableEq κ] (k : κ) (e : Option ε) : κ → Option ε :=
  Function.update (fun _ => none) k e

/-- The tables with the objects `S`, each as the driver's fields describe it, and no others. -/
def configured (S : Finset McObject) (w : Wiring) : Tables where
  attached := decide (.attachment ∈ S)
  vis := if .vis ∈ S then some (1, 32) else none
  vadaptors := single evbPortIdAssigned (if .vadaptor ∈ S then some w.vadaptorFlags else none)
  evqs :=
    Function.update
      (single 0 (if .evq .control ∈ S then some (evqEntry .control (w.paddr .evq)) else none)) 1
      (if .evq .data ∈ S then some (evqEntry .data (w.paddr .dataEvq)) else none)
  rxqs :=
    single 0 (if .rxq ∈ S then some (queueEntry 0x300 (w.paddr .rxDesc) numRxDesc) else none)
  txqs := single 0 (if .txq ∈ S then some (queueEntry 6 (w.paddr .txDesc) numTxDesc) else none)
  filters := single w.filterHandle (if .rxFilter ∈ S then some (filterEntry w.macAddr) else none)

/-- The fields that describe an object are the same. -/
def McObject.Same (w w' : Wiring) : McObject → Prop
  | .attachment | .vis => True
  | .vadaptor => w'.vadaptorFlags = w.vadaptorFlags
  | .evq q => w'.paddr q.ring = w.paddr q.ring
  | .rxq => w'.paddr .rxDesc = w.paddr .rxDesc
  | .txq => w'.paddr .txDesc = w.paddr .txDesc
  | .rxFilter => w'.macAddr = w.macAddr ∧ w'.filterHandle = w.filterHandle

section
variable {S : Finset McObject} {w w' : Wiring} {t : Tables} {o : McObject} {out : List Byte}

@[simp] theorem dwordAt_zero (v : BitVec 32) (bs : List Byte) :
    dwordAt (dwordBytes v ++ bs) 0 = v := by
  rw [dwordAt, List.drop_zero, List.take_left' (dwordBytes_length v), dwordOf_dwordBytes]

@[simp] theorem drop_dwordBytes (v : BitVec 32) (bs : List Byte) (i : ℕ) :
    (dwordBytes v ++ bs).drop (i + 4) = bs.drop i := by
  rw [Nat.add_comm, ← List.drop_drop, List.drop_left' (dwordBytes_length v)]

@[simp] theorem dwordAt_add_four (v : BitVec 32) (bs : List Byte) (i : ℕ) :
    dwordAt (dwordBytes v ++ bs) (i + 4) = dwordAt bs i := by
  rw [dwordAt, drop_dwordBytes, dwordAt]

@[simp] theorem qword_halves (v : BitVec 64) :
    ((v >>> 32).setWidth 32 ++ v.setWidth 32 : BitVec 64) = v := by
  apply BitVec.eq_of_getLsbD_eq
  intro i hi
  simp only [BitVec.getLsbD_append, BitVec.getLsbD_setWidth, BitVec.getLsbD_ushiftRight]
  by_cases h : i < 32
  · simp [h]
  · have hlt : i - 32 < 32 := by omega
    simp [h, hlt, Nat.add_sub_cancel' (not_lt.mp h)]

theorem dwords_cons (v : BitVec 32) (vs : List (BitVec 32)) :
    dwords (v :: vs) = dwordBytes v ++ dwords vs := rfl

theorem read_initEvq (q : Evq) (paddr : BitVec 64) :
    Request.read (Op.initEvq q).code (initEvqIn q paddr numEvqEntry) =
      .initEvq (.ofNat 32 q.inst) (evqEntry q paddr) := by
  have hread : ∀ bs, Request.read (Op.initEvq q).code bs =
      .initEvq (dwordAt bs 4) ⟨dwordAt bs 0, dwordAt bs 16, dwordAt bs 24, qwordAt bs 36⟩ :=
    fun _ => rfl
  have hirq : q = .control → BitVec.ofNat 32 q.inst = 0 := by
    rintro rfl
    rfl
  simpa [hread, initEvqIn, dwords_cons, qwordAt, qword, evqEntry] using hirq

theorem read_initQueueIn (flags : BitVec 32) (paddr : BitVec 64) (n : ℕ) :
    dwordAt (initQueueIn flags 0 1 paddr n) 12 = 0 ∧
      QueueEntry.read (initQueueIn flags 0 1 paddr n) = queueEntry flags paddr n := by
  simp [QueueEntry.read, initQueueIn, dwords_cons, qwordAt, qword, queueEntry]

theorem read_initRxq (flags : BitVec 32) (paddr : BitVec 64) (n : ℕ) :
    Request.read Op.initRxq.code (initQueueIn flags 0 1 paddr n) =
      .initRxq 0 (queueEntry flags paddr n) := by
  obtain ⟨hinst, hentry⟩ := read_initQueueIn flags paddr n
  rw [← hinst, ← hentry]
  rfl

theorem read_initTxq (flags : BitVec 32) (paddr : BitVec 64) (n : ℕ) :
    Request.read Op.initTxq.code (initQueueIn flags 0 1 paddr n) =
      .initTxq 0 (queueEntry flags paddr n) := by
  obtain ⟨hinst, hentry⟩ := read_initQueueIn flags paddr n
  rw [← hinst, ← hentry]
  rfl

theorem read_vadaptorAlloc (flags : BitVec 32) :
    Request.read Op.vadaptorAlloc.code
      (dwords [evbPortIdAssigned, 0, flags, 0, 0, 0] ++ List.replicate 6 0) =
      .vadaptorAlloc evbPortIdAssigned flags := by
  have hread : ∀ bs, Request.read Op.vadaptorAlloc.code bs =
      .vadaptorAlloc (dwordAt bs 0) (dwordAt bs 8) := fun _ => rfl
  simp [hread, dwords_cons]

theorem read_filterInsert (sc : Softc) :
    Request.read Op.filterInsert.code (filterInsertIn sc) =
      .filterInsert (filterEntry sc.macAddr) := by
  have hread : ∀ bs, dwordAt bs 0 = 0 → Request.read Op.filterInsert.code bs =
      .filterInsert ⟨dwordAt bs 12, dwordAt bs 16, dwordAt bs 20, dwordAt bs 24,
        (bs.drop 52).take 6⟩ := fun _ hop => if_pos hop
  rw [hread _ (by simp [filterInsertIn, dwords_cons])]
  simp [filterInsertIn, dwords, filterEntry]

theorem read_filterRemove (handle : BitVec 64) :
    Request.read Op.filterRemove.code (dwords (1 :: qword handle) ++ List.replicate 96 0) =
      .filterRemove handle := by
  have hread : ∀ bs, dwordAt bs 0 = 1 → Request.read Op.filterRemove.code bs =
      .filterRemove (qwordAt bs 4) := by
    intro bs hop
    have hne : dwordAt bs 0 ≠ 0 := by simp [hop]
    exact (if_neg hne).trans (if_pos hop)
  rw [hread _ (by simp [dwords_cons])]
  simp [dwords_cons, qwordAt, qword]

/-- Create and release commands say what the softc fields do. -/
theorem read_createIn (o : McObject) (sc : Softc) :
    Request.read o.createOp.code (o.createIn sc) = o.request sc.wiring := by
  cases o with
  | attachment => exact (by decide : Request.read Op.drvAttach.code (dwords [1, 1, fwDontCare]) =
      .attach)
  | vis => exact (by decide : Request.read Op.allocVis.code (dwords [1, 32]) = .allocVis 1 32)
  | vadaptor => exact read_vadaptorAlloc _
  | evq q => exact read_initEvq q _
  | rxq => exact read_initRxq _ _ _
  | txq => exact read_initTxq _ _ _
  | rxFilter => exact read_filterInsert sc

theorem read_releaseIn (o : McObject) (sc : Softc) :
    Request.read o.releaseOp.code (o.releaseIn sc) = o.discard sc.wiring := by
  cases o with
  | attachment => exact (by decide : Request.read Op.drvAttach.code (dwords [0, 1, fwDontCare]) =
      .detach)
  | vis => rfl
  | vadaptor => exact congrArg Request.vadaptorFree (dwordAt_zero _ [])
  | evq q => exact congrArg Request.finiEvq (dwordAt_zero _ [])
  | rxq => exact congrArg Request.finiRxq (dwordAt_zero _ [])
  | txq => exact congrArg Request.finiTxq (dwordAt_zero _ [])
  | rxFilter => exact read_filterRemove _

theorem stored_wiring (o : McObject) (r : ExecResult) (sc : Softc) :
    (o.stored r sc).wiring = if o = .rxFilter then
      { sc.wiring with filterHandle := dwordAt r.out 8 ++ dwordAt r.out 4 } else sc.wiring := by
  rcases o with _ | _ | _ | (_ | _) | _ | _ | _ <;> rfl

theorem forgotten_wiring (o : McObject) (sc : Softc) : (o.forgotten sc).wiring = sc.wiring := by
  rcases o with _ | _ | _ | (_ | _) | _ | _ | _ <;> rfl

/-- A query is none of the commands the tables are made of. -/
theorem read_query {op : Op} (hop : op.kind = .queries) (inp : List Byte) :
    Request.read op.code inp = .other := by
  cases op <;> first | rfl | exact absurd hop (by simp [Op.kind])

theorem hear_query {e : Event} (he : e.IsQuery) : t.hear e = t := by
  obtain ⟨op, inp, a, hop, rfl⟩ := he
  cases a with
  | success payload =>
    rw [Tables.hear, read_query hop]
    rfl
  | error payload | wrongSeq | silence => rfl

theorem hear_ofHost {e : Event} (he : e.OfHost) : t.hear e = t := by
  cases e with
  | acquire r | release r | use r => rfl
  | mcdi op inp a => exact he.elim

theorem foldl_hear_of_fixed {evs : List Event} (hevs : ∀ e ∈ evs, t.hear e = t) :
    evs.foldl Tables.hear t = t := by
  induction evs with
  | nil => rfl
  | cons e evs ih =>
    obtain ⟨he, hrest⟩ := List.forall_mem_cons.mp hevs
    rw [List.foldl_cons, he]
    exact ih hrest

/-- Further events that the tables do not hear. -/
theorem tables_of_fixed {st st' : St} {evs : List Event} (hlog : st'.log = st.log ++ evs)
    (hevs : ∀ e ∈ evs, ∀ t : Tables, t.hear e = t) : st'.tables t = st.tables t := by
  rw [St.tables, hlog, List.foldl_append]
  exact foldl_hear_of_fixed fun e he => hevs e he _

theorem Asks.tables {st st' : St} (ha : Asks st st') : st'.tables t = st.tables t := by
  obtain ⟨evs, hlog, hevs⟩ := ha.log
  exact tables_of_fixed hlog fun e he t => hear_query (hevs e he)

theorem Handles.tables {st st' : St} (hh : Handles st st') : st'.tables t = st.tables t := by
  obtain ⟨evs, hlog, hevs⟩ := hh.log
  exact tables_of_fixed hlog fun e he t => hear_ofHost (hevs e he)

/-- One more command that succeeded. -/
theorem tables_success {st st' : St} {op : Op} {inp payload : List Byte}
    (hlog : st'.log = st.log ++ [.mcdi op inp (.success payload)]) :
    st'.tables t = (st.tables t).serve payload (Request.read op.code inp) := by
  rw [St.tables, hlog, List.foldl_append]
  rfl

theorem configured_congr (h : ∀ o ∈ S, o.Same w w') : configured S w' = configured S w := by
  have hvad : .vadaptor ∈ S → w'.vadaptorFlags = w.vadaptorFlags := h .vadaptor
  have hctl : .evq .control ∈ S → w'.paddr .evq = w.paddr .evq := h (.evq .control)
  have hdata : .evq .data ∈ S → w'.paddr .dataEvq = w.paddr .dataEvq := h (.evq .data)
  have hrx : .rxq ∈ S → w'.paddr .rxDesc = w.paddr .rxDesc := h .rxq
  have htx : .txq ∈ S → w'.paddr .txDesc = w.paddr .txDesc := h .txq
  have hflt : .rxFilter ∈ S → w'.macAddr = w.macAddr ∧ w'.filterHandle = w.filterHandle :=
    h .rxFilter
  unfold configured single
  congr 1 <;> funext i <;> grind

theorem single_set {κ ε : Type} [DecidableEq κ] (k : κ) (e e' : Option ε) :
    Function.update (single k e) k e' = single k e' := Function.update_idem ..

/-- The control queue's entry is set below the data queue's. -/
theorem evqs_set (e e' e'' : Option EvqEntry) :
    Function.update (Function.update (single (0 : BitVec 32) e) 1 e')
        (.ofNat 32 Evq.control.inst) e'' = Function.update (single 0 e'') 1 e' := by
  have hne : (1 : BitVec 32) ≠ 0 := by decide
  rw [show BitVec.ofNat 32 Evq.control.inst = 0 from rfl, Function.update_comm hne, single_set]

/-- The create command of an object adds it. -/
theorem serve_request (hout : o = .rxFilter → qwordAt out 4 = w.filterHandle) :
    (configured S w).serve out (o.request w) = configured (insert o S) w := by
  rcases o with _ | _ | _ | (_ | _) | _ | _ | _ <;>
    simp only [McObject.request, Tables.serve, configured, Finset.mem_insert, reduceCtorEq,
      false_or, true_or, decide_true, if_true, McObject.evq.injEq, single_set, evqs_set, hout]
  case evq.control => rfl
  case evq.data =>
    rw [show BitVec.ofNat 32 Evq.data.inst = 1 from rfl, Function.update_idem]
    rfl

/-- Its release command takes it away. -/
theorem serve_discard : (configured S w).serve out (o.discard w) = configured (S.erase o) w := by
  rcases o with _ | _ | _ | (_ | _) | _ | _ | _ <;>
    simp only [McObject.discard, Tables.serve, configured, Finset.mem_erase, ne_eq, reduceCtorEq,
      not_false_eq_true, not_true_eq_false, true_and, false_and, decide_false, if_false,
      McObject.evq.injEq, single_set, evqs_set]
  case evq.data => rw [show BitVec.ofNat 32 Evq.data.inst = 1 from rfl, Function.update_idem]

theorem configured_empty (w : Wiring) : configured ∅ w = Tables.empty := by
  simp [configured, Tables.empty, single]

end

end Sfc7120.Attach

import Sfc7120.Attach.Progress

/-! The wrappers that create and release the MC's objects, at the arguments attach calls them
with. What a wrapper can do is said once for all objects; the results on attach and detach cite
that. -/
namespace Sfc7120.Attach

open ByteMemory Mcdi Ladder

def Evq.ring : Evq → DmaBuf
  | .control => .evq
  | .data => .dataEvq

namespace McObject

def createOp : McObject → Op
  | .attachment => .drvAttach
  | .vis => .allocVis
  | .vadaptor => .vadaptorAlloc
  | .evq q => .initEvq q
  | .rxq => .initRxq
  | .txq => .initTxq
  | .rxFilter => .filterInsert

/-- What the create command is sent with. -/
def createIn (sc : Softc) : McObject → List Byte
  | .attachment => dwords [1, 1, fwDontCare]
  | .vis => dwords [1, 32]
  | .vadaptor =>
      dwords [evbPortIdAssigned, 0, vadaptorFlags sc, 0, 0, 0] ++ List.replicate 6 0
  | .evq q => initEvqIn q (sc.dma q.ring).paddr numEvqEntry
  | .rxq => initQueueIn 0x300 0 1 (sc.dma .rxDesc).paddr numRxDesc
  | .txq => initQueueIn 6 0 1 (sc.dma .txDesc).paddr numTxDesc
  | .rxFilter => filterInsertIn sc

/-- The shortest response that is taken for a success. -/
def minUsed : McObject → ℕ
  | .attachment => 4
  | .vis => 8
  | .rxFilter => 12
  | .vadaptor | .evq _ | .rxq | .txq => 0

/-- The driver does not even send the create command. -/
def Refused (sc : Softc) : McObject → Prop
  | .evq q => sc.viCount.toNat ≤ q.inst
  | .rxq | .txq => sc.vadaptorAllocated = false ∨ sc.viCount.toNat ≤ 1
  | .attachment | .vis | .vadaptor | .rxFilter => False

/-- The stores of a create that succeeded. -/
def stored (r : ExecResult) (sc : Softc) : McObject → Softc
  | .attachment =>
      { sc.setFlag .attachment true with
        mcdiFuncFlags := if 8 ≤ used r then dwordAt r.out 4 else 0 }
  | .vis =>
      { sc.setFlag .vis true with viCount := dwordAt r.out 0, viBase := dwordAt r.out 4 }
  | .evq q => (storeEvq sc).setFlag (.evq q) true
  | .rxFilter =>
      { sc.setFlag .rxFilter true with rxFilterHandle := dwordAt r.out 8 ++ dwordAt r.out 4 }
  | o => sc.setFlag o true

def releaseOp : McObject → Op
  | .attachment => .drvDetach
  | .vis => .freeVis
  | .vadaptor => .vadaptorFree
  | .evq q => .finiEvq q
  | .rxq => .finiRxq
  | .txq => .finiTxq
  | .rxFilter => .filterRemove

/-- What the release command is sent with. -/
def releaseIn (sc : Softc) : McObject → List Byte
  | .attachment => dwords [0, 1, fwDontCare]
  | .vis => []
  | .vadaptor => dwords [evbPortIdAssigned]
  | .evq q => dwords [.ofNat 32 q.inst]
  | .rxq | .txq => dwords [.ofNat 32 0]
  | .rxFilter => dwords (1 :: qword sc.rxFilterHandle) ++ List.replicate 96 0

/-- The result of the release command leaves the flag set. -/
def keeps (rc : Option Errno) : McObject → Bool
  | .attachment | .vis => rc.isSome
  | .evq _ => rc == some .EBUSY
  | .vadaptor | .rxq | .txq | .rxFilter => false

/-- The stores of a release. -/
def forgotten (sc : Softc) : McObject → Softc
  | .vis => { sc.setFlag .vis false with viCount := 0, viBase := 0 }
  | o => sc.setFlag o false

section
variable {o : McObject} {sc : Softc} {r : ExecResult}

theorem createOp_kind (o : McObject) : o.createOp.kind = .creates o := by
  cases o <;> rfl

theorem releaseOp_kind (o : McObject) : o.releaseOp.kind = .releases o := by
  cases o <;> rfl

theorem createIn_length (o : McObject) (sc : Softc) :
    (o.createIn sc).length ≤ mcdiPayloadLenMaxV1 := by
  cases o <;> simp [createIn, initEvqIn, initQueueIn, filterInsertIn, dwords, qword,
    mcdiPayloadLenMaxV1]

theorem releaseIn_length (o : McObject) (sc : Softc) :
    (o.releaseIn sc).length ≤ mcdiPayloadLenMaxV1 := by
  cases o <;> simp [releaseIn, dwords, qword, mcdiPayloadLenMaxV1]

theorem minUsed_le_fullLen (o : McObject) : o.minUsed ≤ o.createOp.fullLen := by
  cases o <;> simp [minUsed, createOp, Op.fullLen]

theorem minUsed_le_outLen (o : McObject) : o.minUsed ≤ o.createOp.outLen := by
  cases o <;> simp [minUsed, createOp, Op.outLen]

theorem keeps_none (o : McObject) : o.keeps none = false := by
  cases o <;> rfl

theorem forgotten_flag (o : McObject) (sc : Softc) :
    (o.forgotten sc).flag = Function.update sc.flag o false := by
  rw [← setFlag_flag]
  cases o <;> rfl

/-- `init_evq` sets the control queue's flag for either instance: by the time of the data queue
it is set already. -/
theorem stored_flag (hctl : o = .evq .data → sc.flag (.evq .control) = true) :
    (o.stored r sc).flag = Function.update sc.flag o true := by
  have hset := setFlag_flag sc o true
  rcases o with _ | _ | _ | (_ | _) | _ | _ | _
  case evq.control =>
    have hfirst : (storeEvq sc).flag = Function.update sc.flag (.evq .control) true := hset
    rw [stored, setFlag_flag, hfirst, Function.update_idem]
  case evq.data =>
    have hfirst : (storeEvq sc).flag = Function.update sc.flag (.evq .control) true :=
      setFlag_flag sc (.evq .control) true
    have hsame : Function.update sc.flag (.evq .control) true = sc.flag :=
      Function.update_eq_self_iff.mpr (hctl rfl).symm
    rw [stored, setFlag_flag, hfirst, hsame]
  all_goals exact hset

end

end McObject

/-- What the wrapper of an object returns once its create command was sent. -/
def Env.createRc (env : Env) (o : McObject) : Option Errno :=
  match env.commandRc o.createOp 0 o.minUsed with
  | some e => some e
  | none =>
      if o = .rxFilter ∧ handleInvalid (env.result .filterInsert 0) = true then some Errno.EIO
      else none

/-- All that a create wrapper can do: refuse by itself, find the object there, give up on the
answer, or store what came back. -/
inductive Creates (env : Env) (o : McObject) (st : St) : St × Option Errno → Prop where
  | refused {e : Errno} (hwhy : st.sc.mcdiInitialized = false ∨ o.Refused st.sc) :
      Creates env o st (st, some e)
  | present (hset : st.sc.flag o = true) : Creates env o st (st, none)
  | failed {e : Errno} (flags : BitVec 32) (hrc : env.createRc o = some e) :
      Creates env o st ((sent env o.createOp (o.createIn st.sc) 0 st).update fun sc =>
        { sc with mcdiFuncFlags := flags }, some e)
  | created (hgo : ¬o.Refused st.sc) (hnew : o = .rxFilter → st.sc.flag o = false)
      (hrc : env.createRc o = none) :
      Creates env o st ((sent env o.createOp (o.createIn st.sc) 0 st).update fun sc =>
        o.stored (env.result o.createOp 0) sc, none)

section
variable {env : Env} {o : McObject} {st : St} {op : Op} {k minUsed : ℕ}

theorem exec_of_not_initialized (env : Env) (op : Op) (inp : List Byte) (k : ℕ)
    (hm : st.sc.mcdiInitialized = false) :
    (exec env op inp k st).1 = st ∧ (exec env op inp k st).2.rc = some Errno.ENXIO := by
  simp [exec, hm]

theorem commandRc_eq_none (h : env.commandRc op k minUsed = none) :
    (env.result op k).rc = none ∧ minUsed ≤ used (env.result op k) := by
  unfold Env.commandRc at h
  cases hr : (env.result op k).rc with
  | some e => simp [hr] at h
  | none => simpa [hr] using h

theorem createRc_eq_none_iff : env.createRc o = none ↔ env.commandRc o.createOp 0 o.minUsed = none ∧
    (o = .rxFilter → handleInvalid (env.result .filterInsert 0) = false) := by
  unfold Env.createRc
  cases env.commandRc o.createOp 0 o.minUsed <;> simp

theorem createRc_of_ne (ho : o ≠ .rxFilter) :
    env.createRc o = env.commandRc o.createOp 0 o.minUsed := by
  unfold Env.createRc
  cases env.commandRc o.createOp 0 o.minUsed <;> simp [ho]

/-- A wrapper that sends its command and stores what came back. -/
theorem creates_command (ho : o ≠ .rxFilter) (hgo : ¬o.Refused st.sc) :
    Creates env o st (command env o.createOp (o.createIn st.sc) 0 o.minUsed
      (fun r sc => o.stored r sc) st) := by
  cases hm : st.sc.mcdiInitialized with
  | false =>
    obtain ⟨hst, hrc⟩ := exec_of_not_initialized env o.createOp (o.createIn st.sc) 0 hm
    simp only [command, hst, hrc]
    exact .refused (.inl hm)
  | true =>
    rw [command_eq _ _ hm (o.createIn_length st.sc) (by simp [o.createOp_kind])]
    have hrc : env.createRc o = env.commandRc o.createOp 0 o.minUsed := createRc_of_ne ho
    cases hcmd : env.commandRc o.createOp 0 o.minUsed with
    | some e => exact .failed st.sc.mcdiFuncFlags (hrc.trans hcmd)
    | none => exact .created hgo (absurd · ho) (hrc.trans hcmd)

/-- A store that follows a command on success is part of what the command stores. -/
theorem command_andThen_update {inp : List Byte} {store : ExecResult → Softc → Softc}
    {g : Softc → Softc} :
    andThen (command env op inp k minUsed store) (fun st => (st.update g, none)) st =
      command env op inp k minUsed (fun r sc => g (store r sc)) st := by
  simp only [andThen, command]
  cases (exec env op inp k st).2.rc with
  | some e => rfl
  | none =>
    by_cases h : used (exec env op inp k st).2 < minUsed
    · simp [h]
    · simp [h, St.update]

theorem creates_attachment (env : Env) (st : St) :
    Creates env .attachment st (drvAttach env st) := by
  cases hm : st.sc.mcdiInitialized with
  | false =>
    obtain ⟨hst, hrc⟩ :=
      exec_of_not_initialized env .drvAttach (dwords [1, 1, fwDontCare]) 0 hm
    simp only [drvAttach, hst, hrc]
    exact .refused (.inl hm)
  | true =>
    have hexec : exec env .drvAttach (dwords [1, 1, fwDontCare]) 0 st =
        (sent env .drvAttach (dwords [1, 1, fwDontCare]) 0 st, env.result .drvAttach 0) :=
      exec_eq _ _ hm (by decide) (by simp [Op.kind])
    have hrc : env.createRc .attachment = env.commandRc .drvAttach 0 4 :=
      createRc_of_ne (by simp)
    simp only [drvAttach, hexec]
    unfold Env.commandRc at hrc
    cases hres : (env.result .drvAttach 0).rc with
    | some e =>
      rw [hres] at hrc
      exact .failed st.sc.mcdiFuncFlags hrc
    | none =>
      simp only [hres] at hrc ⊢
      by_cases hshort : used (env.result .drvAttach 0) < 4
      · rw [if_pos hshort] at hrc
        rw [if_neg (by omega), if_pos hshort]
        exact .failed 0 hrc
      · rw [if_neg hshort] at hrc
        rw [if_neg hshort]
        have hcreated : Creates env .attachment st
            ((sent env .drvAttach (dwords [1, 1, fwDontCare]) 0 st).update fun sc =>
              McObject.stored (env.result .drvAttach 0) sc .attachment, none) :=
          .created id (absurd · (by simp)) hrc
        unfold McObject.stored at hcreated
        split
        next hlong =>
          simp only [if_pos hlong] at hcreated
          exact hcreated
        next hlong =>
          simp only [if_neg hlong] at hcreated
          exact hcreated

theorem creates_vadaptor (env : Env) (st : St) :
    Creates env .vadaptor st (vadaptorAlloc env st) := by
  unfold vadaptorAlloc
  split
  next hset => exact .present hset
  next => exact creates_command (o := .vadaptor) (by simp) id

/-- Attach sets the flag of either event queue after `init_evq`. -/
theorem creates_evq (env : Env) (q : Evq) (st : St) :
    Creates env (.evq q) st (andThen (initEvq env q (st.sc.dma q.ring).paddr numEvqEntry)
      (fun st => (st.update (·.setFlag (.evq q) true), none)) st) := by
  have hsize : ringSizeOk 32768 numEvqEntry = true := by decide
  by_cases hvi : st.sc.viCount.toNat ≤ q.inst
  · have hinit : initEvq env q (st.sc.dma q.ring).paddr numEvqEntry st = (st, some .EINVAL) := by
      simp [initEvq, hsize, hvi]
    have hstep : andThen (initEvq env q (st.sc.dma q.ring).paddr numEvqEntry)
        (fun st => (st.update (·.setFlag (.evq q) true), none)) st = (st, some .EINVAL) :=
      (andThen_of_ne (by simp [hinit])).trans hinit
    rw [hstep]
    exact .refused (.inr hvi)
  · have hinit : initEvq env q (st.sc.dma q.ring).paddr numEvqEntry st =
        command env (.initEvq q) (initEvqIn q (st.sc.dma q.ring).paddr numEvqEntry) 0 0
          (fun _ sc => storeEvq sc) st := by
      simp [initEvq, hsize, hvi]
    rw [andThen_congr hinit, command_andThen_update]
    exact creates_command (o := .evq q) (by simp) hvi

/-- Both descriptor queues, with the event queue that `initQueue` also asks the VIs for. -/
theorem creates_queue (ho : o = .rxq ∨ o = .txq) (flags : BitVec 32) (b : DmaBuf) (n : ℕ)
    (hsize : ringSizeOk 4096 n = true)
    (hin : o.createIn st.sc = initQueueIn flags 0 1 (st.sc.dma b).paddr n) :
    Creates env o st (initQueue env o.createOp o flags 0 1 (st.sc.dma b).paddr n st) := by
  have hrefused : o.Refused st.sc ↔
      st.sc.vadaptorAllocated = false ∨ st.sc.viCount.toNat ≤ 1 := by
    rcases ho with rfl | rfl <;> rfl
  have hcmd : ¬o.Refused st.sc → Creates env o st
      (command env o.createOp (o.createIn st.sc) 0 0 (fun _ sc => sc.setFlag o true) st) := by
    intro hgo
    rcases ho with rfl | rfl
    · exact creates_command (o := .rxq) (by simp) hgo
    · exact creates_command (o := .txq) (by simp) hgo
  simp only [initQueue, hsize, Bool.not_true, Bool.false_eq_true, if_false]
  split_ifs with hvad hvi hvi'
  · exact .refused (.inr (hrefused.mpr (.inl (by simpa using hvad))))
  · exact .refused (.inr (hrefused.mpr (.inr (by omega))))
  · exact .refused (.inr (hrefused.mpr (.inr hvi')))
  · rw [← hin]
    refine hcmd fun hr => ?_
    exact (hrefused.mp hr).elim (fun hno => hvad (by simp [hno])) hvi'

theorem creates_rxFilter (env : Env) (st : St) :
    Creates env .rxFilter st (filterInsert env st) := by
  cases hset : st.sc.rxFilterInserted with
  | true =>
    simp only [filterInsert, hset, if_true]
    exact .present hset
  | false =>
    simp only [filterInsert, hset, Bool.false_eq_true, if_false]
    cases hm : st.sc.mcdiInitialized with
    | false =>
      obtain ⟨hst, hrc⟩ := exec_of_not_initialized env .filterInsert (filterInsertIn st.sc) 0 hm
      simp only [hst, hrc]
      exact .refused (.inl hm)
    | true =>
      have hexec : exec env .filterInsert (filterInsertIn st.sc) 0 st =
          (sent env .filterInsert (filterInsertIn st.sc) 0 st, env.result .filterInsert 0) :=
        exec_eq _ _ hm (McObject.createIn_length .rxFilter st.sc) (by simp [Op.kind])
      simp only [hexec]
      cases hres : (env.result .filterInsert 0).rc with
      | some e =>
        apply Creates.failed st.sc.mcdiFuncFlags
        simp [Env.createRc, Env.commandRc, McObject.createOp, hres]
      | none =>
        by_cases hshort : used (env.result .filterInsert 0) < 12
        · simp only [if_pos hshort]
          apply Creates.failed st.sc.mcdiFuncFlags
          simp [Env.createRc, Env.commandRc, McObject.createOp, McObject.minUsed, hres, hshort]
        · have hcmd : env.commandRc .filterInsert 0 12 = none := by
            simp [Env.commandRc, hres, hshort]
          simp only [if_neg hshort]
          split
          next hbad =>
            apply Creates.failed st.sc.mcdiFuncFlags
            simp [Env.createRc, McObject.createOp, McObject.minUsed, hcmd, hbad]
          next hbad =>
            refine .created id (fun _ => hset) ?_
            simp [Env.createRc, McObject.createOp, McObject.minUsed, hcmd, hbad]

/-- The stages of attach that create an object. -/
theorem creates (env : Env) (o : McObject) (st : St) :
    Creates env o st (o.stage.step env st) := by
  cases o with
  | attachment => exact creates_attachment env st
  | vis => exact creates_command (o := .vis) (by simp) id
  | vadaptor => exact creates_vadaptor env st
  | evq q => cases q <;> exact creates_evq env _ st
  | rxq => exact creates_queue (.inl rfl) 0x300 .rxDesc numRxDesc (by decide) rfl
  | txq => exact creates_queue (.inr rfl) 6 .txDesc numTxDesc (by decide) rfl
  | rxFilter => exact creates_rxFilter env st

/-- The release wrappers, at the arguments teardown calls them with. -/
theorem releaseOf_eq (env : Env) (o : McObject) : releaseOf env o =
    releaseObject env o.releaseOp o o.releaseIn o.keeps o.forgotten := by
  cases o <;> rfl

theorem releaseOf_of_clear (hclear : st.sc.flag o = false) : releaseOf env o st = (st, none) := by
  simp [releaseOf_eq, releaseObject, hclear]

/-- A release that the MC accepts. -/
theorem releaseOf_of_accepted (hset : st.sc.flag o = true) (hm : st.sc.mcdiInitialized = true)
    (hyes : (env.release st.held o.releaseOp).isSuccess = true) :
    (releaseOf env o st).1 = {
      sc := o.forgotten st.sc
      held := st.held.erase o
      log := st.log ++
        [.mcdi o.releaseOp (o.releaseIn st.sc) (env.release st.held o.releaseOp)] } := by
  have hop := o.releaseOp_kind
  have hin := o.releaseIn_length st.sc
  have hlen := outLen_le o.releaseOp
  have hrep : env.reply st.held o.releaseOp 0 = env.release st.held o.releaseOp := by
    unfold Env.reply
    rw [hop]
  have hfits : ¬(mcdiPayloadLenMaxV1 < (o.releaseIn st.sc).length ∨
      mcdiPayloadLenMaxV1 < o.releaseOp.outLen) := by omega
  have hrc : ((env.release st.held o.releaseOp).result
      (List.replicate o.releaseOp.outLen 0)).rc = none := by
    cases ha : env.release st.held o.releaseOp with
    | success payload => rfl
    | _ => simp [ha, Answer.isSuccess] at hyes
  simp only [releaseOf_eq, releaseObject, hset, exec, hm, hrep, if_neg hfits, hrc, o.keeps_none,
    Bool.not_true, Bool.false_eq_true, if_false]
  simp only [St.update, Op.effect, hyes, hop, if_true]

end

end Sfc7120.Attach

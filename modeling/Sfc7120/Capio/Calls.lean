import Sfc7120.Capio.Regions

/-! `capio_mmap_single_extra` and `revoke_cap_token` as whole calls, with every exit. The VM
system's answers are parameters; the lock is part of what a call runs on. -/
namespace Sfc7120.Capio

open Sealing

/-- What a call runs on: the CAPIO state and whether its thread holds `cap_mtx`. -/
structure Held (Cap : Type*) where
  sc : Softc Cap
  locked : Bool

section
variable {Cap : Type*}

def Held.lock (h : Held Cap) : Held Cap := { h with locked := true }

def Held.unlock (h : Held Cap) : Held Cap := { h with locked := false }

/-- `capio_pager_ctor` with its lock. -/
def Held.pagerCtor (h : Held Cap) (type : ℤ) : Held Cap :=
  { h.lock with sc := Capio.pagerCtor h.sc type }.unlock

end

/-- What one mmap meets: the two `is_dying` tests, the `malloc` of the handle, and
`cdev_pager_allocate`, which runs the constructor when it succeeds. -/
structure MmapEnv where
  dyingFirst : Bool
  handle : Bool
  object : Bool
  dyingLast : Bool
  deriving DecidableEq

section
variable {Cap : Type*} [DecidableEq Cap] (C : Ops Cap) (getBufferSize : ℤ → ℕ)

/-- `capio_mmap_single_extra`; `extra` is `none` for the NULL request. -/
def mmapSingleExtra (env : MmapEnv) (h : Held Cap) (extra : Option (MapReq Cap)) :
    Held Cap × Option Errno :=
  match extra with
  | none => (h, some .EINVAL)
  | some req =>
      match checkCapToken C h.sc req.sealedCap with
      | some e => (h, some e)
      | none =>
          if req.capProt then (h, some .EINVAL)
          else
            let h := h.lock
            if req.offset ≠ 0 then (h.unlock, some .EINVAL)
            else
              let h := h.unlock
              if env.dyingFirst then (h, some Errno.ENXIO)
              else if !C.tag req.userCap then (h, some .EINVAL)
              else if req.size ≠ getBufferSize req.mapType then (h, some .EINVAL)
              else
                let h := h.lock
                match mmapScan h.sc req.mapType with
                | some e => (h.unlock, some e)
                | none =>
                    let h := h.unlock
                    if !env.handle then (h, some .ENOMEM)
                    else if !env.object then (h, some Errno.ENXIO)
                    else
                      let h := h.pagerCtor req.mapType
                      -- "Just release the VM object", says the comment; nothing does
                      if env.dyingLast then (h, some Errno.ENXIO) else (h, none)

/-- The first refusal before anything is changed: token, request, mapped region, allocations. -/
def mmapRefusal (env : MmapEnv) (sc : Softc Cap) (req : MapReq Cap) : Option Errno :=
  (checkCapToken C sc req.sealedCap).or <|
    (mmapValidate C getBufferSize env.dyingFirst req).or <|
      (mmapScan sc req.mapType).or <|
        (if env.handle then none else some .ENOMEM).or <|
          if env.object then none else some Errno.ENXIO

variable {C getBufferSize} {env : MmapEnv} {h : Held Cap} {req : MapReq Cap}

/-- The call is its checks, then the constructor, then the last look at `is_dying`. -/
theorem mmapSingleExtra_some (hfree : h.locked = false) :
    mmapSingleExtra C getBufferSize env h (some req) =
      match mmapRefusal C getBufferSize env h.sc req with
      | some e => (h, some e)
      | none => (⟨pagerCtor h.sc req.mapType, false⟩,
          if env.dyingLast then some Errno.ENXIO else none) := by
  obtain ⟨sc, locked⟩ := h
  obtain rfl : locked = false := hfree
  unfold mmapSingleExtra mmapRefusal mmapValidate
  cases htoken : checkCapToken C sc req.sealedCap with
  | some e => simp [htoken]
  | none =>
    by_cases hprot : req.capProt
    · simp [hprot, htoken]
    by_cases hoffset : req.offset = 0
    · by_cases hdying : env.dyingFirst
      · simp [hprot, hoffset, hdying, Held.lock, Held.unlock, htoken]
      by_cases htag : C.tag req.userCap
      · by_cases hsize : req.size = getBufferSize req.mapType
        · cases hscan : mmapScan sc req.mapType with
          | some e =>
            simp [hprot, hoffset, hdying, htag, hsize, Held.lock, Held.unlock, hscan, htoken]
          | none =>
            cases hhandle : env.handle <;> cases hobject : env.object <;>
              cases env.dyingLast <;>
              simp [hprot, hoffset, hdying, htag, hsize, Held.lock, Held.unlock, hscan, htoken,
                Held.pagerCtor]
        · simp [hprot, hoffset, hdying, htag, hsize, Held.lock, Held.unlock, htoken]
      · simp [hprot, hoffset, hdying, htag, Held.lock, Held.unlock, htoken]
    · simp [hprot, hoffset, Held.lock, Held.unlock, htoken]

end

/-- The constructor changes nothing on a table without the type, in a state that is mapped
already. -/
theorem pagerCtor_eq_self_iff {Cap : Type*} {sc : Softc Cap} {type : ℤ}
    (hscan : mmapScan sc type = none) :
    pagerCtor sc type = sc ↔
      sc.mapped = true ∧ ∀ smem ∈ sc.sharedMemRegs, smem.type ≠ type := by
  constructor
  · intro heq
    have hmapped : sc.mapped = true := (congrArg Softc.mapped heq).symm
    have hregs : sc.sharedMemRegs.map (Region.setMapped type true) = sc.sharedMemRegs :=
      congrArg Softc.sharedMemRegs heq
    refine ⟨hmapped, fun smem hmem htype => ?_⟩
    have hset : ∀ smem ∈ sc.sharedMemRegs, Region.setMapped type true smem = id smem :=
      List.map_inj_left.mp (hregs.trans (List.map_id _).symm)
    have hsome : (sc.sharedMemRegs.find? fun smem => smem.type = type).isSome :=
      List.find?_isSome.mpr ⟨smem, hmem, by simpa using htype⟩
    obtain ⟨first, hfirst⟩ := Option.isSome_iff_exists.mp hsome
    have htype' : first.type = type := by simpa using List.find?_some hfirst
    have hfirst' := hset first (List.mem_of_find?_eq_some hfirst)
    rw [Region.setMapped, if_pos htype'] at hfirst'
    have htrue : first.mapped = true := (congrArg Region.mapped hfirst').symm
    simp [mmapScan, hfirst, htrue] at hscan
  · rintro ⟨hmapped, hnone⟩
    have hregs : sc.sharedMemRegs.map (Region.setMapped type true) = sc.sharedMemRegs.map id :=
      List.map_congr_left fun smem hmem => if_neg (hnone smem hmem)
    rw [pagerCtor, hregs, List.map_id, ← hmapped]

theorem mmapScan_of_refusal {Cap : Type*} [DecidableEq Cap] {C : Ops Cap} {getBufferSize : ℤ → ℕ}
    {env : MmapEnv} {sc : Softc Cap} {req : MapReq Cap}
    (h : mmapRefusal C getBufferSize env sc req = none) : mmapScan sc req.mapType = none := by
  simp only [mmapRefusal, Option.or_eq_none_iff] at h
  exact h.2.2.1

/-- A failed mmap leaves lock and state as they were exactly when it is not the last `is_dying`
test that fails it, or the constructor had nothing to mark. -/
theorem failed_mmap_changes_nothing_iff {Cap : Type*} [DecidableEq Cap] (C : Ops Cap)
    (getBufferSize : ℤ → ℕ) (env : MmapEnv) (extra : Option (MapReq Cap)) {h : Held Cap}
    (hfree : h.locked = false) :
    (∀ h' e, mmapSingleExtra C getBufferSize env h extra = (h', some e) →
        h'.locked = false ∧ h'.sc = h.sc) ↔
      ∀ req, extra = some req → mmapRefusal C getBufferSize env h.sc req = none →
        env.dyingLast = true →
        h.sc.mapped = true ∧ ∀ smem ∈ h.sc.sharedMemRegs, smem.type ≠ req.mapType := by
  cases extra with
  | none =>
    refine iff_of_true (fun h' e hcall => ?_) (fun req hreq => by cases hreq)
    obtain ⟨rfl, -⟩ : _ ∧ _ := by simpa [mmapSingleExtra] using hcall
    exact ⟨hfree, rfl⟩
  | some req =>
    rw [mmapSingleExtra_some hfree]
    cases hrefusal : mmapRefusal C getBufferSize env h.sc req with
    | some e =>
      refine iff_of_true (fun h' e' hcall => ?_) (fun req' hreq hnone => ?_)
      · obtain ⟨rfl, -⟩ : _ ∧ _ := by simpa using hcall
        exact ⟨hfree, rfl⟩
      · obtain rfl := Option.some.inj hreq
        rw [hrefusal] at hnone
        cases hnone
    | none =>
      have hctor := pagerCtor_eq_self_iff (mmapScan_of_refusal hrefusal)
      cases hdying : env.dyingLast with
      | false => exact iff_of_true (fun h' e hcall => by simp at hcall) (by simp)
      | true =>
        constructor
        · rintro hkept req' hreq - -
          obtain rfl := Option.some.inj hreq
          exact hctor.mp (hkept _ _ rfl).2
        · intro hcond h' e hcall
          obtain ⟨rfl, -⟩ : _ ∧ _ := by simpa using hcall
          exact ⟨rfl, hctor.mpr (hcond req rfl hrefusal rfl)⟩

/-- A client's session on a freshly attached device with a 1 MB BAR. -/
def openSession : Softc MorelloCap where
  originalCap := ⟨true, 0, 16⟩
  sealedCap := (morello 0x1234).sealCap ⟨true, 0, 16⟩
  mapped := false
  sharedMemRegs := smem 0x100000

/-- Its request for the data EVQ. -/
def mapEvq : MapReq MorelloCap where
  sealedCap := (morello 0x1234).sealCap ⟨true, 0, 16⟩
  userCap := ⟨true, 0, 16⟩
  mapType := 5
  size := 4096
  offset := 0
  capProt := false

/-- With no memory for the pager object the call fails and leaves everything as it was. -/
theorem failed_mmap_changes_nothing_no_object :
    let r := mmapSingleExtra (morello 0x1234) (getBufferSize 0x100000) ⟨false, true, false, true⟩
      ⟨openSession, false⟩ (some mapEvq)
    r.2 = some Errno.ENXIO ∧ r.1.locked = false ∧ r.1.sc = openSession := by
  intro r
  have herror : r.2 = some Errno.ENXIO := by decide
  refine ⟨herror, (failed_mmap_changes_nothing_iff _ _ _ _ rfl).mpr ?_ _ _ (Prod.ext rfl herror)⟩
  intro req hreq hnone _
  obtain rfl := Option.some.inj hreq
  exact absurd hnone (by decide)

/-- Detach starts while the pager object is being made: the call fails with `ENXIO` and the data
EVQ stays marked mapped, for an object nobody holds. -/
theorem failed_mmap_leaves_region_mapped :
    ¬ ∀ (env : MmapEnv) (h : Held MorelloCap) (extra : Option (MapReq MorelloCap))
      (h' : Held MorelloCap) (e : Errno), h.locked = false →
      mmapSingleExtra (morello 0x1234) (getBufferSize 0x100000) env h extra = (h', some e) →
      h'.locked = false ∧ h'.sc = h.sc := by
  intro hkept
  have hsc := (hkept ⟨false, true, true, true⟩ ⟨openSession, false⟩ (some mapEvq)
    ⟨pagerCtor openSession 5, false⟩ Errno.ENXIO rfl rfl).2
  exact absurd (congrArg Softc.mapped hsc) (by decide)

/-- What the VM system makes of one removal. `removed` names the regions of the pager objects that
lost their last reference, `gone` is `KERN_INVALID_ADDRESS`. -/
inductive VmAnswer where
  | noVmspace
  | lookupFails
  | removed (dtors : List ℤ)
  | gone
  | removeFails
  deriving DecidableEq

def VmAnswer.dtors : VmAnswer → List ℤ
  | .removed dtors => dtors
  | _ => []

/-- The return value of `delete_mapping_from_user`. -/
def VmAnswer.result : VmAnswer → Option Errno
  | .removeFails => some Errno.EIO
  | _ => none

/-- The loop of `revoke_cap_token`: its state and `error`, with the regions visited and those
whose removal was attempted. -/
structure Revoked (Cap : Type*) where
  sc : Softc Cap
  error : Option Errno
  visited : List ℕ
  attempted : List ℕ

section
variable {Cap : Type*}

/-- `delete_mapping_from_user`, with the destructors the removal runs. -/
def deleteMappingFromUser (sc : Softc Cap) (answer : VmAnswer) : Softc Cap × Option Errno :=
  (answer.dtors.foldl pagerDtor sc, answer.result)

/-- One round of the loop. -/
def revokeRegion (vm : ℕ → VmAnswer) (st : Revoked Cap) (i : ℕ) : Revoked Cap :=
  match st.sc.sharedMemRegs[i]? with
  | none => st
  | some smem =>
      if smem.offset ≠ 0 then
        let r := deleteMappingFromUser st.sc (vm i)
        { sc := if r.2.isNone then clearOffset r.1 i else r.1
          error := r.2
          visited := st.visited ++ [i]
          attempted := st.attempted ++ [i] }
      else { st with visited := st.visited ++ [i] }

/-- `revoke_cap_token`, `vm i` being the VM system's answer for region `i`. -/
def revokeCapToken (C : Ops Cap) (vm : ℕ → VmAnswer) (sc : Softc Cap) : Revoked Cap :=
  (List.range sc.sharedMemRegs.length).foldl (revokeRegion vm) ⟨clearCapToken C sc, none, [], []⟩

/-- The regions below `n` that have a mapping to remove. -/
def mappedBelow (sc : Softc Cap) (n : ℕ) : List ℕ :=
  (List.range n).filter fun i => (sc.sharedMemRegs[i]?.any fun smem => smem.offset != 0)

/-- Regions whose destructor ran while the first `n` regions were done. -/
def dtorsBelow (vm : ℕ → VmAnswer) (sc : Softc Cap) (n : ℕ) : List ℤ :=
  (mappedBelow sc n).flatMap fun i => (vm i).dtors

/-- A region whose offset may have been cleared and whose flag went down if its destructor ran. -/
def Region.after (dtors : List ℤ) (cleared : Bool) (smem : Region) : Region :=
  { smem with
    offset := if cleared then 0 else smem.offset
    mapped := smem.mapped && !dtors.contains smem.type }

/-- The table when the first `n` regions are done: the offsets cleared are those whose removal
succeeded. -/
def regionsAfter (vm : ℕ → VmAnswer) (sc : Softc Cap) (n : ℕ) : List Region :=
  sc.sharedMemRegs.mapIdx fun i smem =>
    smem.after (dtorsBelow vm sc n) (decide (i < n) && (vm i).result.isNone)

/-- The state of the loop before round `n`. -/
structure RevokeInv (C : Ops Cap) (vm : ℕ → VmAnswer) (sc : Softc Cap) (n : ℕ)
    (st : Revoked Cap) : Prop where
  token : st.sc.originalCap = C.null ∧ st.sc.sealedCap = C.null
  visited : st.visited = List.range n
  attempted : st.attempted = mappedBelow sc n
  regions : st.sc.sharedMemRegs = regionsAfter vm sc n
  error : st.error = (mappedBelow sc n).getLast?.bind fun i => (vm i).result

theorem Region.after_nil : Region.after [] false = id :=
  funext fun smem => by simp [Region.after]

theorem foldl_pagerDtor (sc : Softc Cap) (types : List ℤ) :
    (types.foldl pagerDtor sc).sharedMemRegs =
        sc.sharedMemRegs.map (Region.after types false) ∧
      (types.foldl pagerDtor sc).originalCap = sc.originalCap ∧
      (types.foldl pagerDtor sc).sealedCap = sc.sealedCap := by
  induction types generalizing sc with
  | nil => simp [Region.after_nil]
  | cons type types ih =>
    obtain ⟨hregs, horig, hsealed⟩ := ih (pagerDtor sc type)
    refine ⟨?_, horig, hsealed⟩
    rw [List.foldl_cons, hregs, pagerDtor]
    simp only [List.map_map]
    refine List.map_congr_left fun smem _ => ?_
    by_cases htype : smem.type = type
    · simp [Region.after, Region.setMapped, htype]
    · simp [Region.after, Region.setMapped, htype]

section
variable {C : Ops Cap} {vm : ℕ → VmAnswer} {sc : Softc Cap} {n : ℕ} {st : Revoked Cap}
  {smem : Region}

theorem mappedBelow_succ (hn : sc.sharedMemRegs[n]? = some smem) :
    mappedBelow sc (n + 1) = mappedBelow sc n ++ if smem.offset ≠ 0 then [n] else [] := by
  rw [mappedBelow, List.range_succ, List.filter_append, ← mappedBelow]
  by_cases hoff : smem.offset = 0 <;> simp [hn, hoff]

theorem mem_mappedBelow {i : ℕ} : i ∈ mappedBelow sc n ↔
    i < n ∧ ∃ smem, sc.sharedMemRegs[i]? = some smem ∧ smem.offset ≠ 0 := by
  simp only [mappedBelow, List.mem_filter, List.mem_range, Option.any_eq_true, bne_iff_ne]

theorem getElem?_regionsAfter (i : ℕ) : (regionsAfter vm sc n)[i]? =
    sc.sharedMemRegs[i]?.map
      (Region.after (dtorsBelow vm sc n) (decide (i < n) && (vm i).result.isNone)) := by
  simp [regionsAfter, List.getElem?_mapIdx]

/-- A region without a mapping costs nothing. -/
theorem RevokeInv.skip (h : RevokeInv C vm sc n st) (hn : sc.sharedMemRegs[n]? = some smem)
    (hoff : smem.offset = 0) :
    RevokeInv C vm sc (n + 1) { st with visited := st.visited ++ [n] } := by
  have hbelow : mappedBelow sc (n + 1) = mappedBelow sc n := by
    rw [mappedBelow_succ hn, if_neg (not_not.mpr hoff), List.append_nil]
  refine ⟨h.token, ?_, hbelow ▸ h.attempted, ?_, hbelow ▸ h.error⟩
  · rw [List.range_succ, h.visited]
  · rw [h.regions]
    refine List.ext_getElem? fun i => ?_
    rw [getElem?_regionsAfter, getElem?_regionsAfter, dtorsBelow, dtorsBelow, hbelow]
    by_cases hi : i = n
    · subst hi
      simp [hn, hoff, Region.after]
    · rw [show decide (i < n + 1) = decide (i < n) by simp; omega]

/-- A mapped region: whatever the removal does, the table follows, and its result is the one
kept. -/
theorem RevokeInv.remove (h : RevokeInv C vm sc n st) (hn : sc.sharedMemRegs[n]? = some smem)
    (hoff : smem.offset ≠ 0) :
    RevokeInv C vm sc (n + 1)
      { sc := if (deleteMappingFromUser st.sc (vm n)).2.isNone then
          clearOffset (deleteMappingFromUser st.sc (vm n)).1 n
        else (deleteMappingFromUser st.sc (vm n)).1
        error := (deleteMappingFromUser st.sc (vm n)).2
        visited := st.visited ++ [n]
        attempted := st.attempted ++ [n] } := by
  have hbelow : mappedBelow sc (n + 1) = mappedBelow sc n ++ [n] := by
    rw [mappedBelow_succ hn, if_pos hoff]
  obtain ⟨hregs, horig, hsealed⟩ := foldl_pagerDtor st.sc (vm n).dtors
  have hdtors : ∀ i, ((vm n).dtors.foldl pagerDtor st.sc).sharedMemRegs[i]? =
      sc.sharedMemRegs[i]?.map (Region.after (dtorsBelow vm sc (n + 1))
        (decide (i < n) && (vm i).result.isNone)) := by
    intro i
    rw [hregs, h.regions, List.getElem?_map, getElem?_regionsAfter, Option.map_map, dtorsBelow,
      dtorsBelow, hbelow]
    congr 1
    funext smem
    simp [Region.after, Bool.and_assoc]
  refine ⟨?_, ?_, ?_, List.ext_getElem? fun i => ?_, ?_⟩
  · dsimp only
    split_ifs
    · exact ⟨horig.trans h.token.1, hsealed.trans h.token.2⟩
    · exact ⟨horig.trans h.token.1, hsealed.trans h.token.2⟩
  · rw [List.range_succ, h.visited]
  · rw [hbelow, h.attempted]
  · rw [getElem?_regionsAfter]
    by_cases hi : i = n
    · subst hi
      cases hresult : (vm i).result with
      | none => simp [deleteMappingFromUser, hresult, clearOffset, hdtors, hn, Region.after]
      | some e => simp [deleteMappingFromUser, hresult, hdtors]
    · have hlt : decide (i < n + 1) = decide (i < n) := by
        simp only [decide_eq_decide]
        omega
      rw [hlt, ← hdtors i]
      dsimp only
      split_ifs
      · simp [clearOffset, deleteMappingFromUser, Ne.symm hi]
      · rfl
  · simp [hbelow, deleteMappingFromUser]

theorem RevokeInv.round (h : RevokeInv C vm sc n st) (hn : n < sc.sharedMemRegs.length) :
    RevokeInv C vm sc (n + 1) (revokeRegion vm st n) := by
  have hget : sc.sharedMemRegs[n]? = some sc.sharedMemRegs[n] := List.getElem?_eq_getElem hn
  have hnow : st.sc.sharedMemRegs[n]? =
      some (Region.after (dtorsBelow vm sc n) false sc.sharedMemRegs[n]) := by
    rw [h.regions, getElem?_regionsAfter, hget]
    simp
  rw [revokeRegion, hnow]
  by_cases hoff : sc.sharedMemRegs[n].offset = 0
  · simpa [Region.after, hoff] using h.skip hget hoff
  · simpa [Region.after, hoff] using h.remove hget hoff

theorem revokeLoop_inv (C : Ops Cap) (vm : ℕ → VmAnswer) (hn : n ≤ sc.sharedMemRegs.length) :
    RevokeInv C vm sc n
      ((List.range n).foldl (revokeRegion vm) ⟨clearCapToken C sc, none, [], []⟩) := by
  induction n with
  | zero =>
    refine ⟨⟨rfl, rfl⟩, rfl, rfl, List.ext_getElem? fun i => ?_, rfl⟩
    have hnone : dtorsBelow vm sc 0 = [] := rfl
    simp [getElem?_regionsAfter, hnone, Region.after_nil, clearCapToken]
  | succ n ih =>
    rw [List.range_succ, List.foldl_append]
    exact (ih (Nat.le_of_succ_le hn)).round hn

/-- An offset is left exactly where a removal failed. -/
theorem regionsAfter_clear_iff (vm : ℕ → VmAnswer) (sc : Softc Cap) :
    (∀ smem ∈ regionsAfter vm sc sc.sharedMemRegs.length, smem.offset = 0) ↔
      ∀ i ∈ mappedBelow sc sc.sharedMemRegs.length, (vm i).result = none := by
  constructor
  · intro h i hi
    obtain ⟨-, smem, hget, hoff⟩ := mem_mappedBelow.mp hi
    by_contra hfail
    obtain ⟨e, he⟩ := Option.ne_none_iff_exists'.mp hfail
    have hafter : (regionsAfter vm sc sc.sharedMemRegs.length)[i]? =
        some (smem.after (dtorsBelow vm sc sc.sharedMemRegs.length) false) := by
      rw [getElem?_regionsAfter, hget]
      simp [he]
    have hzero := h _ (List.mem_of_getElem? hafter)
    exact hoff hzero
  · intro h smem' hmem
    obtain ⟨i, hi⟩ := List.mem_iff_getElem?.mp hmem
    rw [getElem?_regionsAfter] at hi
    obtain ⟨smem, hget, rfl⟩ := Option.map_eq_some_iff.mp hi
    have hlt : i < sc.sharedMemRegs.length := (List.getElem?_eq_some_iff.mp hget).1
    by_cases hoff : smem.offset = 0
    · simp [Region.after, hoff]
    · simp [Region.after, hlt, h i (mem_mappedBelow.mpr ⟨hlt, smem, hget, hoff⟩)]

end

/-- A revocation does its work and reports it: every region is visited, removal attempted where
there is a mapping, the table left as the removals left it, the token gone, and 0 returned just
when no offset is left. -/
structure Revokes (C : Ops Cap) (vm : ℕ → VmAnswer) (sc : Softc Cap) (r : Revoked Cap) : Prop where
  visited : r.visited = List.range sc.sharedMemRegs.length
  attempted : r.attempted = mappedBelow sc sc.sharedMemRegs.length
  regions : r.sc.sharedMemRegs = regionsAfter vm sc sc.sharedMemRegs.length
  token : r.sc.originalCap = C.null ∧ r.sc.sealedCap = C.null
  reported : r.error = none ↔ ∀ smem ∈ r.sc.sharedMemRegs, smem.offset = 0

end

/-- A revocation reports every failure exactly when no failed removal is followed by a last one
that succeeds. -/
theorem revocation_reports_iff {Cap : Type*} (C : Ops Cap) (vm : ℕ → VmAnswer) (sc : Softc Cap) :
    Revokes C vm sc (revokeCapToken C vm sc) ↔
      ((∃ i ∈ mappedBelow sc sc.sharedMemRegs.length, (vm i).result ≠ none) →
        ∀ j, (mappedBelow sc sc.sharedMemRegs.length).getLast? = some j →
          (vm j).result ≠ none) := by
  have h := revokeLoop_inv C vm (Nat.le_refl sc.sharedMemRegs.length)
  rw [← revokeCapToken] at h
  have hall := regionsAfter_clear_iff vm sc
  have herror := h.error
  generalize mappedBelow sc sc.sharedMemRegs.length = tries at hall herror ⊢
  constructor
  · rintro hrev ⟨i, hi, hfail⟩ j hj hok
    have hnone : (revokeCapToken C vm sc).error = none := by rw [herror, hj]; exact hok
    exact hfail (hall.mp (h.regions ▸ hrev.reported.mp hnone) i hi)
  · intro hcond
    refine ⟨h.visited, h.attempted, h.regions, h.token, ?_⟩
    rw [h.regions, hall]
    constructor
    · intro hnone i hi
      by_contra hfail
      obtain ⟨j, hj⟩ := Option.ne_none_iff_exists'.mp
        (mt List.getLast?_eq_none_iff.mp (List.ne_nil_of_mem hi))
      rw [herror, hj] at hnone
      exact hcond ⟨i, hi, hfail⟩ j hj hnone
    · intro hok
      rw [herror]
      cases hlast : tries.getLast? with
      | none => rfl
      | some j => exact hok j (List.mem_of_getLast? hlast)

/-- Two mapped regions, the second of which cannot be removed: the error is reported. -/
theorem revocation_reports_last : Revokes (morello 0x1234)
    (fun i => if i = 1 then .removeFails else .removed [i])
    ⟨⟨true, 0, 16⟩, ⟨true, 0x1234, 16⟩, true, [⟨0, 4096, 4096, true⟩, ⟨1, 8192, 4096, true⟩]⟩
    (revokeCapToken (morello 0x1234) (fun i => if i = 1 then .removeFails else .removed [i])
      ⟨⟨true, 0, 16⟩, ⟨true, 0x1234, 16⟩, true,
        [⟨0, 4096, 4096, true⟩, ⟨1, 8192, 4096, true⟩]⟩) :=
  (revocation_reports_iff _ _ _).mpr fun _ j hj => by
    obtain rfl : 1 = j := by simpa [mappedBelow, List.range_succ] using hj
    decide

/-- The first of two mapped regions cannot be removed and the second can: 0 is returned, with the
first region's offset still in the table. -/
theorem revocation_unreported :
    ¬ ∀ (vm : ℕ → VmAnswer) (sc : Softc MorelloCap),
      Revokes (morello 0x1234) vm sc (revokeCapToken (morello 0x1234) vm sc) := by
  intro h
  have hrev := h (fun i => if i = 0 then .removeFails else .removed [i])
    ⟨⟨true, 0, 16⟩, ⟨true, 0x1234, 16⟩, true, [⟨0, 4096, 4096, true⟩, ⟨1, 8192, 4096, true⟩]⟩
  have hzero := hrev.reported.mp (by decide) ⟨0, 4096, 4096, true⟩ (by decide)
  exact absurd hzero (by decide)

end Sfc7120.Capio

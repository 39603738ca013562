import Sfc7120.Lib.AddressMap
import Sfc7120.Capio.Restart

/-! CAPIO together with the address maps of the processes that use it. Revocation removes the
range it finds recorded for a region from the map of whoever triggered it; the record outlives the
mapping, and it does not say whose it was. -/
namespace Sfc7120.Capio

open Sealing Machine AddressMap

/-- What a map entry is backed by: this device's object for a region, or anything else. -/
inductive Backing where
  | region (type : ℤ)
  | other
  deriving DecidableEq

structure World (Cap : Type*) where
  sys : Sys Cap
  space : List (Entry Backing)
  /-- Revocations between `vm_map_lookup` and `vm_map_remove`, with what the lookup said. -/
  looked : List (ℕ × Bool)
  /-- The process each region's range was recorded for last. -/
  owner : ℤ → ℕ

inductive WorldAct (Cap : Type*) where
  | capio (a : Act Cap)
  | lookup (r : ℕ)
  | mapOther (proc start len : ℕ)
  | unmapOther (proc start len : ℕ)

section
variable {Cap : Type*}

/-- The object an insertion is for. -/
def Sys.toInsert (s : Sys Cap) (id : ℕ) : Option Obj :=
  s.objects.find? fun o => o.id = id && o.owned && o.place.isNone

variable [DecidableEq Cap] (C : Ops Cap) (getBufferSize : ℤ → ℕ)

def World.step (w : World Cap) : WorldAct Cap → Option (World Cap)
  | .capio (.mapInsert id proc vaddr) =>
      match w.sys.toInsert id with
      | none => none
      | some o =>
          if Free w.space proc vaddr (getBufferSize o.type) then
            (Capio.step C getBufferSize w.sys (.mapInsert id proc vaddr)).map fun sys =>
              { w with
                sys := sys
                space := ⟨proc, vaddr, getBufferSize o.type, .region o.type⟩ :: w.space
                owner := Function.update w.owner o.type proc }
          else none
  | .capio (.munmap id) =>
      match w.sys.objects.find? fun o => o.id = id && o.owned with
      | none => none
      | some o => (Capio.step C getBufferSize w.sys (.munmap id)).map fun sys =>
          match o.place with
          | none => { w with sys := sys }
          | some (proc, vaddr) =>
              { w with sys := sys, space := remove w.space proc vaddr (getBufferSize o.type) }
  | .lookup r =>
      match w.sys.reqs[r]?, w.looked.lookup r with
      | some (.removing proc _ offset _), none =>
          some { w with looked := (r, AddressMap.lookup w.space proc offset) :: w.looked }
      | _, _ => none
  | .capio (.revokeRemove r fails) =>
      match w.sys.reqs[r]?, w.looked.lookup r with
      | some (.removing proc i offset len), some found =>
          let looked := w.looked.filter fun x => x.1 ≠ r
          if found then
            (Capio.step C getBufferSize w.sys (.revokeRemove r fails)).map fun sys =>
              { w with
                sys := sys
                space := if fails then w.space else remove w.space proc offset len
                looked := looked }
          else if fails then none
          -- "mapping likely already removed": nothing is done, and that is a success
          else some { w with sys := w.sys.setReq r (.cleaning proc i), looked := looked }
      | _, _ => none
  | .capio a => (Capio.step C getBufferSize w.sys a).map fun sys => { w with sys := sys }
  | .mapOther proc start len =>
      if Free w.space proc start len then
        some { w with space := ⟨proc, start, len, .other⟩ :: w.space }
      else none
  | .unmapOther proc start len =>
      if ∀ e ∈ w.space, e.Meets proc start len → e.backing = .other then
        some { w with space := remove w.space proc start len }
      else none

end

section
variable {Cap : Type*}

def World.start (C : Ops Cap) (barSize : ℕ) (space : List (Entry Backing)) : World Cap where
  sys := Capio.start C (smem barSize)
  space := space
  looked := []
  owner _ := 0

/-- Where a revocation loop is, and in whose name it runs. -/
def Pc.loop : Pc Cap → Option (ℕ × ℕ)
  | .revoking proc i => some (proc, i)
  | .removing proc i _ _ => some (proc, i)
  | .cleaning proc i => some (proc, i)
  | _ => none

/-- The process a step starts a revocation for. -/
def Act.revoker (s : Sys Cap) : Act Cap → Option ℕ
  | .close proc => some proc
  | .goodbyeClear r =>
      match s.reqs[r]? with
      | some (.goodbyeChecked _ proc) => some proc
      | _ => none
  | _ => none

/-- A range revocation will remove: what region it is recorded for, and whose map it is in. -/
structure Record where
  proc : ℕ
  type : ℤ
  offset : ℕ
  len : ℕ
  deriving DecidableEq

def World.recorded (w : World Cap) : List Record :=
  (w.sys.sc.sharedMemRegs.filter fun smem => smem.offset ≠ 0).map fun smem =>
    ⟨w.owner smem.type, smem.type, smem.offset, smem.len⟩

/-- The range a revocation has read and not removed yet. -/
def Pc.copied (regs : List Region) : Pc Cap → Option Record
  | .removing proc i offset len => regs[i]?.map fun smem => ⟨proc, smem.type, offset, len⟩
  | _ => none

/-- The records that stand: those in the table and those a revocation holds a copy of. -/
def World.standing (w : World Cap) : List Record :=
  w.recorded ++ w.sys.reqs.filterMap (Pc.copied w.sys.sc.sharedMemRegs)

def Record.Holds (rec : Record) (e : Entry Backing) : Prop := e.Meets rec.proc rec.offset rec.len

instance (rec : Record) (e : Entry Backing) : Decidable (rec.Holds e) :=
  inferInstanceAs (Decidable (e.Meets _ _ _))

/-- The entry a step adds to a map. -/
def World.newEntry (getBufferSize : ℤ → ℕ) (w : World Cap) :
    WorldAct Cap → Option (Entry Backing)
  | .mapOther proc start len => some ⟨proc, start, len, .other⟩
  | .capio (.mapInsert id proc vaddr) => (w.sys.toInsert id).map fun o =>
      ⟨proc, vaddr, getBufferSize o.type, .region o.type⟩
  | _ => none

def WorldAct.revoker (w : World Cap) : WorldAct Cap → Option ℕ
  | .capio a => a.revoker w.sys
  | _ => none

/-- While a record stands, the process it was made for maps nothing else into the range; and only
that process revokes, with no revocation of another process under way when a region is mapped. -/
def Undisturbed (getBufferSize : ℤ → ℕ) (w : World Cap) (a : WorldAct Cap) : Prop :=
  (∀ e ∈ w.newEntry getBufferSize a,
    (∀ rec ∈ w.standing, rec.Holds e → e.backing = .region rec.type) ∧
    (e.backing ≠ .other → ∀ p ∈ w.sys.reqs, ∀ l ∈ p.loop, l.1 = e.proc)) ∧
  ∀ proc ∈ a.revoker w, ∀ rec ∈ w.recorded, rec.proc = proc

instance (getBufferSize : ℤ → ℕ) (w : World Cap) (a : WorldAct Cap) :
    Decidable (Undisturbed getBufferSize w a) :=
  inferInstanceAs (Decidable (_ ∧ _))

/-- A record that stands is in the table, or a revocation took a copy of it. -/
theorem mem_standing {w : World Cap} {rec : Record} : rec ∈ w.standing ↔
    (∃ (k : ℕ) (x : ℤ × ℕ × ℕ), (ranges w.sys.sc.sharedMemRegs)[k]? = some x ∧ x.2.1 ≠ 0 ∧
      rec = ⟨w.owner x.1, x.1, x.2.1, x.2.2⟩) ∨
    ∃ (proc i offset len : ℕ) (x : ℤ × ℕ × ℕ), .removing proc i offset len ∈ w.sys.reqs ∧
      (ranges w.sys.sc.sharedMemRegs)[i]? = some x ∧ rec = ⟨proc, x.1, offset, len⟩ := by
  unfold World.standing World.recorded
  rw [List.mem_append]
  refine or_congr ?_ ?_
  · simp only [List.mem_map, List.mem_filter, ranges, List.getElem?_map]
    constructor
    · rintro ⟨smem, ⟨hmem, hne⟩, rfl⟩
      obtain ⟨k, hk⟩ := List.mem_iff_getElem?.mp hmem
      exact ⟨k, (smem.type, smem.offset, smem.len), by simp [hk], by simpa using hne, rfl⟩
    · rintro ⟨k, x, hx, hne, rfl⟩
      obtain ⟨smem, hsmem, rfl⟩ := Option.map_eq_some_iff.mp hx
      exact ⟨smem, ⟨List.mem_of_getElem? hsmem, by simpa using hne⟩, rfl⟩
  · simp only [List.mem_filterMap, ranges, List.getElem?_map]
    constructor
    · rintro ⟨p, hp, hcopy⟩
      cases p <;> simp only [Pc.copied, reduceCtorEq] at hcopy
      next proc i offset len =>
        obtain ⟨smem, hsmem, rfl⟩ := Option.map_eq_some_iff.mp hcopy
        exact ⟨proc, i, offset, len, (smem.type, smem.offset, smem.len), hp, by simp [hsmem], rfl⟩
    · rintro ⟨proc, i, offset, len, x, hp, hx, rfl⟩
      obtain ⟨smem, hsmem, rfl⟩ := Option.map_eq_some_iff.mp hx
      exact ⟨_, hp, by simp [Pc.copied, hsmem]⟩

/-- What a step does to the records and to the revocations under way, mapping apart: a record can
only go away, and a revocation goes on, copies a record, or is one of those `starts` allows. -/
structure StepLoops (s t : Sys Cap) (starts : ℕ → Prop) : Prop where
  types : (ranges t.sc.sharedMemRegs).map Prod.fst = (ranges s.sc.sharedMemRegs).map Prod.fst
  records : ∀ (k : ℕ) (x : ℤ × ℕ × ℕ), (ranges t.sc.sharedMemRegs)[k]? = some x → x.2.1 ≠ 0 →
    (ranges s.sc.sharedMemRegs)[k]? = some x
  loops : ∀ p ∈ t.reqs, ∀ proc i, p.loop = some (proc, i) →
    starts proc ∨ ∃ q ∈ s.reqs, ∃ j ≤ i, q.loop = some (proc, j)
  copies : ∀ proc i offset len, .removing proc i offset len ∈ t.reqs →
    .removing proc i offset len ∈ s.reqs ∨ ∃ type, offset ≠ 0 ∧
      (ranges s.sc.sharedMemRegs)[i]? = some (type, offset, len) ∧ .revoking proc i ∈ s.reqs

section
variable {s t u : Sys Cap} {P : ℕ → Prop}

theorem StepLoops.quiet (hranges : ranges t.sc.sharedMemRegs = ranges s.sc.sharedMemRegs)
    (hreqs : ∀ p ∈ t.reqs, p ∈ s.reqs ∨ p.loop = none) : StepLoops s t P where
  types := by rw [hranges]
  records k x hx _ := hranges ▸ hx
  loops p hp proc i hl := by
    rcases hreqs p hp with hold | hnone
    · exact .inr ⟨p, hold, i, Nat.le_refl i, hl⟩
    · rw [hnone] at hl
      cases hl
  copies proc i offset len hp := by
    rcases hreqs _ hp with hold | hnone
    · exact .inl hold
    · cases hnone

theorem StepLoops.addReq {p : Pc Cap} (hp : p.loop = none) : StepLoops s (s.addReq p) P := by
  refine .quiet rfl fun q hq => ?_
  rcases List.mem_append.mp hq with hold | hnew
  · exact .inl hold
  · rw [List.mem_singleton.mp hnew]
    exact .inr hp

/-- A request moves on, with the table as it was or with an offset cleared. -/
theorem StepLoops.moved {r : ℕ} {p : Pc Cap}
    (htypes : (ranges t.sc.sharedMemRegs).map Prod.fst = (ranges s.sc.sharedMemRegs).map Prod.fst)
    (hrecords : ∀ (k : ℕ) (x : ℤ × ℕ × ℕ), (ranges t.sc.sharedMemRegs)[k]? = some x → x.2.1 ≠ 0 →
      (ranges s.sc.sharedMemRegs)[k]? = some x)
    (hreqs : t.reqs = s.reqs.set r p)
    (hloop : ∀ proc i, p.loop = some (proc, i) →
      P proc ∨ ∃ q ∈ s.reqs, ∃ j ≤ i, q.loop = some (proc, j))
    (hcopy : ∀ proc i offset len, p = .removing proc i offset len → ∃ type, offset ≠ 0 ∧
      (ranges s.sc.sharedMemRegs)[i]? = some (type, offset, len) ∧ .revoking proc i ∈ s.reqs) :
    StepLoops s t P where
  types := htypes
  records := hrecords
  loops q hq proc i hl := by
    rw [hreqs] at hq
    rcases List.mem_or_eq_of_mem_set hq with hold | rfl
    · exact .inr ⟨q, hold, i, Nat.le_refl i, hl⟩
    · exact hloop proc i hl
  copies proc i offset len hp := by
    rw [hreqs] at hp
    rcases List.mem_or_eq_of_mem_set hp with hold | hnew
    · exact .inl hold
    · exact .inr (hcopy proc i offset len hnew.symm)

/-- A request that is no revocation moves on. -/
theorem StepLoops.setReq {r : ℕ} {p : Pc Cap}
    (hranges : ranges t.sc.sharedMemRegs = ranges s.sc.sharedMemRegs)
    (hreqs : t.reqs = s.reqs.set r p) (hp : p.loop = none) : StepLoops s t P := by
  refine .quiet hranges fun q hq => ?_
  rw [hreqs] at hq
  rcases List.mem_or_eq_of_mem_set hq with hold | rfl
  · exact .inl hold
  · exact .inr hp

/-- A revocation loop moves on without touching the table. -/
theorem StepLoops.advance {r proc i : ℕ} {q p : Pc Cap} (hr : s.reqs[r]? = some q)
    (hq : q.loop = some (proc, i)) (hp : p.loop = none ∨ ∃ j, i ≤ j ∧ p.loop = some (proc, j))
    (hcopy : ∀ proc i offset len, p = .removing proc i offset len → ∃ type, offset ≠ 0 ∧
      (ranges s.sc.sharedMemRegs)[i]? = some (type, offset, len) ∧ .revoking proc i ∈ s.reqs) :
    StepLoops s (s.setReq r p) P := by
  refine .moved (r := r) rfl (fun k x hx _ => hx) rfl (fun proc' k hl => ?_) hcopy
  rcases hp with hnone | ⟨j, hij, hj⟩
  · rw [hnone] at hl
    cases hl
  · obtain ⟨rfl, rfl⟩ : proc = proc' ∧ j = k := by simpa using hj.symm.trans hl
    exact .inr ⟨q, List.mem_of_getElem? hr, i, hij, hq⟩

theorem StepLoops.started (proc : ℕ) (hsc : t.sc.sharedMemRegs = s.sc.sharedMemRegs)
    (hreqs : ∀ p ∈ t.reqs, p ∈ s.reqs ∨ p = .revoking proc 0) (hP : P proc) :
    StepLoops s t P where
  types := by rw [hsc]
  records k x hx _ := hsc ▸ hx
  loops p hp q i hl := by
    rcases hreqs p hp with hold | rfl
    · exact .inr ⟨p, hold, i, Nat.le_refl i, hl⟩
    · simp only [Pc.loop, Option.some.injEq, Prod.mk.injEq] at hl
      exact .inl (hl.1 ▸ hP)
  copies q i offset len hp := by
    rcases hreqs _ hp with hold | hnew
    · exact .inl hold
    · cases hnew

theorem ranges_clearOffset (sc : Softc Cap) (i : ℕ) : ranges (clearOffset sc i).sharedMemRegs =
    (ranges sc.sharedMemRegs).modify i fun x => (x.1, 0, x.2.2) := by
  unfold clearOffset
  generalize sc.sharedMemRegs = regs
  induction regs generalizing i with
  | nil => simp [ranges]
  | cons smem rest ih =>
    cases i with
    | zero => simp [ranges]
    | succ i => simpa [ranges] using ih i

theorem StepLoops.clear {r proc i : ℕ} (hr : s.reqs[r]? = some (.cleaning proc i)) :
    StepLoops s ({ s with sc := clearOffset s.sc i }.setReq r (.revoking proc (i + 1))) P := by
  have hmem := List.mem_of_getElem? hr
  refine .moved (r := r) (p := .revoking proc (i + 1)) ?_ ?_ rfl ?_ ?_
  · simp only [Sys.setReq, ranges_clearOffset]
    apply List.ext_getElem?
    intro k
    simp only [List.getElem?_map, List.getElem?_modify]
    split <;> cases (ranges s.sc.sharedMemRegs)[k]? <;> rfl
  · intro k x hx hne
    simp only [Sys.setReq, ranges_clearOffset, List.getElem?_modify] at hx
    split_ifs at hx with hik
    · obtain ⟨y, -, rfl⟩ := Option.map_eq_some_iff.mp hx
      exact absurd rfl hne
    · simpa using hx
  · intro q j hl
    simp only [Pc.loop, Option.some.injEq, Prod.mk.injEq] at hl
    obtain ⟨rfl, rfl⟩ := hl
    exact .inr ⟨_, hmem, i, Nat.le_succ i, rfl⟩
  · intro q j offset len hp
    cases hp

end

section
variable [DecidableEq Cap] {C : Ops Cap} {getBufferSize : ℤ → ℕ} {s t : Sys Cap} {P : ℕ → Prop}

theorem step_loops {a : Act Cap} (hmap : ∀ id proc vaddr, a ≠ .mapInsert id proc vaddr)
    (hstep : step C getBufferSize s a = some t) :
    StepLoops s t fun proc => a.revoker s = some proc := by
  cases step_moves hstep with
  | mapInsert ho => exact absurd rfl (hmap _ _ _)
  | goodbye hcheck hsession => exact .addReq rfl
  | ioctl hcheck hsession => exact .addReq rfl
  | mmap hcheck hsession => exact .addReq rfl
  | @goodbyeClear r k proc hr =>
    exact .started proc rfl (fun p hp => List.mem_or_eq_of_mem_set hp) (by simp [Act.revoker, hr])
  | @close proc hcdev =>
    refine .started proc rfl (fun p hp => ?_) rfl
    rcases List.mem_append.mp hp with hold | hnew
    · exact .inl hold
    · exact .inr (List.mem_singleton.mp hnew)
  | revokeDone hr hend => exact .advance hr rfl (.inl rfl) fun _ _ _ _ hp => by cases hp
  | @revokeRead r proc i smem hr hsmem hoffset =>
    refine .advance hr rfl (.inr ⟨i, Nat.le_refl i, rfl⟩) fun q j offset len hp => ?_
    obtain ⟨rfl, rfl, rfl, rfl⟩ :
        proc = q ∧ i = j ∧ smem.offset = offset ∧ smem.len = len := by simpa using hp
    exact ⟨smem.type, hoffset, by simp [ranges, hsmem], List.mem_of_getElem? hr⟩
  | @revokeSkip r proc i smem hr hsmem hoffset =>
    exact .advance hr rfl (.inr ⟨i + 1, Nat.le_succ i, rfl⟩) fun _ _ _ _ hp => by cases hp
  | @removeFailed r proc i offset len hr =>
    exact .advance hr rfl (.inr ⟨i + 1, Nat.le_succ i, rfl⟩) fun _ _ _ _ hp => by cases hp
  | @revokeRemove r proc i offset len hr =>
    have hframe := foldl_destroyObj (s.mappedIn proc offset len) s
    refine .moved (r := r) (p := .cleaning proc i) (by rw [Sys.setReq, hframe.ranges])
      (fun k x hx _ => by rw [Sys.setReq, hframe.ranges] at hx; exact hx)
      (by rw [Sys.setReq, hframe.reqs]) (fun q j hl => ?_) fun _ _ _ _ hp => by cases hp
    obtain ⟨rfl, rfl⟩ : proc = q ∧ i = j := by simpa [Pc.loop] using hl
    exact .inr ⟨_, List.mem_of_getElem? hr, i, Nat.le_refl i, rfl⟩
  | revokeClear hr => exact .clear hr
  | mmapAlloc hr => exact .setReq (ranges_setMapped _ _ _) rfl rfl
  | ioctlRun | mmapInvalid | mmapValidate | mmapBusy | mmapScan | allocFailed | lateDying
  | mmapLate => exact .setReq rfl rfl rfl
  | munmap ho => exact .quiet (ranges_setMapped _ _ _) fun p hp => .inl hp
  | refused | attach | detachDying | destroyDev | freeDma | capioDestroy =>
    exact .quiet rfl fun p hp => .inl hp

end

/-- In the map of the process a record is for, only the region is in its range; and a revocation
under way belongs to the process whose records it has yet to visit. -/
structure SpaceInv (w : World Cap) : Prop where
  distinct : ((ranges w.sys.sc.sharedMemRegs).map Prod.fst).Nodup
  inTable : ∀ proc i offset len, .removing proc i offset len ∈ w.sys.reqs →
    i < (ranges w.sys.sc.sharedMemRegs).length
  own : ∀ rec ∈ w.standing, ∀ e ∈ w.space, rec.Holds e → e.backing = .region rec.type
  loops : ∀ p ∈ w.sys.reqs, ∀ proc i, p.loop = some (proc, i) → ∀ (k : ℕ) (x : ℤ × ℕ × ℕ),
    (ranges w.sys.sc.sharedMemRegs)[k]? = some x → i ≤ k → x.2.1 ≠ 0 → w.owner x.1 = proc

theorem spaceInv_start (C : Ops Cap) (barSize : ℕ) (space : List (Entry Backing)) :
    SpaceInv (World.start C barSize space) := by
  have hzero : ∀ (k : ℕ) (x : ℤ × ℕ × ℕ),
      (ranges (start C (smem barSize)).sc.sharedMemRegs)[k]? = some x → x.2.1 = 0 := by
    intro k x hx
    have hmem := List.mem_of_getElem? hx
    simp only [start, ranges, List.map_map, List.mem_map, Function.comp_apply] at hmem
    obtain ⟨smem, -, rfl⟩ := hmem
    rfl
  refine ⟨?_, fun _ _ _ _ hp => (by cases hp), fun rec hrec => ?_, fun p hp => (by cases hp)⟩
  · simp only [World.start, start, ranges, smem, List.map_map, Function.comp_def]
    decide
  · rcases mem_standing.mp hrec with ⟨k, x, hx, hne, -⟩ | ⟨_, _, _, _, _, hp, -⟩
    · exact absurd (hzero k x hx) hne
    · cases hp

section
variable {w v : World Cap} {P : ℕ → Prop}

/-- The table has the same regions at the same places. -/
theorem type_at_of_types {regs regs' : List Region} {k : ℕ} {x : ℤ × ℕ × ℕ}
    (h : (ranges regs').map Prod.fst = (ranges regs).map Prod.fst)
    (hx : (ranges regs')[k]? = some x) : ∃ y, (ranges regs)[k]? = some y ∧ y.1 = x.1 := by
  have hk := congrArg (fun l => l[k]?) h
  simp only [List.getElem?_map, hx, Option.map_some] at hk
  exact Option.map_eq_some_iff.mp hk.symm

theorem mem_recorded_of_range {k : ℕ} {x : ℤ × ℕ × ℕ}
    (hx : (ranges w.sys.sc.sharedMemRegs)[k]? = some x) (hne : x.2.1 ≠ 0) :
    ⟨w.owner x.1, x.1, x.2.1, x.2.2⟩ ∈ w.recorded := by
  simp only [ranges, List.getElem?_map] at hx
  obtain ⟨smem, hsmem, rfl⟩ := Option.map_eq_some_iff.mp hx
  exact List.mem_map.mpr
    ⟨smem, List.mem_filter.mpr ⟨List.mem_of_getElem? hsmem, by simpa using hne⟩, rfl⟩

/-- A step that maps no region makes no record: a copy is of a record of the same process. -/
theorem SpaceInv.standing_of_loops (h : SpaceInv w) (hl : StepLoops w.sys v.sys P)
    (howner : v.owner = w.owner) {rec : Record} (hrec : rec ∈ v.standing) : rec ∈ w.standing := by
  rcases mem_standing.mp hrec with ⟨k, x, hx, hne, rfl⟩ | ⟨proc, i, offset, len, x, hp, hx, rfl⟩
  · exact mem_standing.mpr (.inl ⟨k, x, hl.records k x hx hne, hne, by rw [howner]⟩)
  · obtain ⟨y, hy, hyx⟩ := type_at_of_types hl.types hx
    rcases hl.copies proc i offset len hp with hold | ⟨type, hne, hi, hloop⟩
    · exact mem_standing.mpr (.inr ⟨proc, i, offset, len, y, hold, hy, by rw [hyx]⟩)
    · obtain rfl : (type, offset, len) = y := Option.some.inj (hi.symm.trans hy)
      have hproc := h.loops _ hloop proc i rfl i _ hi (Nat.le_refl i) hne
      exact mem_standing.mpr (.inl ⟨i, _, hi, hne, by rw [hproc, ← hyx]⟩)

theorem SpaceInv.of_loops (h : SpaceInv w) (hl : StepLoops w.sys v.sys P)
    (hstarts : ∀ proc, P proc → ∀ rec ∈ w.recorded, rec.proc = proc)
    (howner : v.owner = w.owner)
    (hspace : ∀ e ∈ v.space, ∃ x ∈ w.space, e.backing = x.backing ∧
      ∀ p a n, e.Meets p a n → x.Meets p a n) : SpaceInv v := by
  have hlen : (ranges v.sys.sc.sharedMemRegs).length = (ranges w.sys.sc.sharedMemRegs).length := by
    simpa using congrArg List.length hl.types
  refine ⟨hl.types ▸ h.distinct, ?_, ?_, ?_⟩
  · intro proc i offset len hp
    rw [hlen]
    rcases hl.copies proc i offset len hp with hold | ⟨type, -, hi, -⟩
    · exact h.inTable proc i offset len hold
    · exact (List.getElem?_eq_some_iff.mp hi).1
  · intro rec hrec e he hholds
    obtain ⟨x, hx, hback, hmeets⟩ := hspace e he
    rw [hback]
    exact h.own rec (h.standing_of_loops hl howner hrec) x hx (hmeets _ _ _ hholds)
  · intro p hp proc i hloop k x hx hik hne
    have hold := hl.records k x hx hne
    rw [howner]
    rcases hl.loops p hp proc i hloop with hstart | ⟨q, hq, j, hji, hqloop⟩
    · exact hstarts proc hstart _ (mem_recorded_of_range hold hne)
    · exact h.loops q hq proc j hqloop k x hold (Nat.le_trans hji hik) hne

/-- Something is mapped elsewhere, and the system does not change. -/
theorem SpaceInv.insert (h : SpaceInv w) {e : Entry Backing} (hsys : v.sys = w.sys)
    (howner : v.owner = w.owner) (hspace : v.space = e :: w.space)
    (hfar : ∀ rec ∈ w.standing, rec.Holds e → e.backing = .region rec.type) : SpaceInv v := by
  refine ⟨hsys ▸ h.distinct, hsys ▸ h.inTable, ?_, ?_⟩
  · intro rec hrec x hx hholds
    have hrec' : rec ∈ w.standing := by
      rw [World.standing, World.recorded, hsys, howner] at hrec
      exact hrec
    rw [hspace] at hx
    rcases List.mem_cons.mp hx with rfl | hx
    · exact hfar rec hrec' hholds
    · exact h.own rec hrec' x hx hholds
  · rw [hsys, howner]
    exact h.loops

/-- In a table of distinct regions a report changes the one region of its type. -/
theorem getElem?_ranges_updateFirst {regs : List Region} {type : ℤ} {vaddr size k : ℕ}
    {x : ℤ × ℕ × ℕ} (hdistinct : ((ranges regs).map Prod.fst).Nodup)
    (hx : (ranges (updateFirst type (fun smem => { smem with offset := vaddr, len := size })
      regs))[k]? = some x) :
    (x.1 ≠ type ∧ (ranges regs)[k]? = some x) ∨ x = (type, vaddr, size) := by
  induction regs generalizing k with
  | nil => simp [updateFirst, ranges] at hx
  | cons smem rest ih =>
    obtain ⟨hnot, hrest⟩ := List.nodup_cons.mp hdistinct
    unfold updateFirst at hx
    split_ifs at hx with htype
    · cases k with
      | zero =>
        obtain rfl : x = _ := (Option.some.inj hx).symm
        exact .inr (by simp [htype])
      | succ k =>
        refine .inl ⟨?_, hx⟩
        rintro rfl
        exact hnot (List.mem_map.mpr ⟨x, List.mem_of_getElem? hx, htype.symm⟩)
    · cases k with
      | zero =>
        obtain rfl : x = _ := (Option.some.inj hx).symm
        exact .inl ⟨htype, rfl⟩
      | succ k => exact ih hrest hx

theorem types_updateFirst (regs : List Region) (type : ℤ) (vaddr size : ℕ) :
    (ranges (updateFirst type (fun smem => { smem with offset := vaddr, len := size })
      regs)).map Prod.fst = (ranges regs).map Prod.fst := by
  induction regs with
  | nil => rfl
  | cons smem rest ih =>
    unfold updateFirst
    split
    · rfl
    · exact congrArg (smem.type :: ·) ih

/-- A region is mapped into a free range: its record is replaced, and every other stands. -/
theorem SpaceInv.mapRegion (h : SpaceInv w) {type : ℤ} {proc vaddr size : ℕ}
    (hfree : Free w.space proc vaddr size)
    (hfar : ∀ rec ∈ w.standing, rec.Holds ⟨proc, vaddr, size, .region type⟩ →
      Backing.region type = .region rec.type)
    (hloops : ∀ p ∈ w.sys.reqs, ∀ l ∈ p.loop, l.1 = proc)
    (hsc : v.sys.sc = vaddrCallback w.sys.sc type vaddr size) (hreqs : v.sys.reqs = w.sys.reqs)
    (howner : v.owner = Function.update w.owner type proc)
    (hspace : v.space = ⟨proc, vaddr, size, .region type⟩ :: w.space) : SpaceInv v := by
  have htypes : (ranges v.sys.sc.sharedMemRegs).map Prod.fst =
      (ranges w.sys.sc.sharedMemRegs).map Prod.fst := by
    rw [hsc]
    exact types_updateFirst _ _ _ _
  have hlen : (ranges v.sys.sc.sharedMemRegs).length = (ranges w.sys.sc.sharedMemRegs).length := by
    simpa using congrArg List.length htypes
  have hrange : ∀ (k : ℕ) (x : ℤ × ℕ × ℕ), (ranges v.sys.sc.sharedMemRegs)[k]? = some x →
      (x.1 ≠ type ∧ (ranges w.sys.sc.sharedMemRegs)[k]? = some x) ∨ x = (type, vaddr, size) := by
    intro k x hx
    rw [hsc] at hx
    exact getElem?_ranges_updateFirst h.distinct hx
  have hstanding : ∀ rec ∈ v.standing, rec ∈ w.standing ∨ rec = ⟨proc, type, vaddr, size⟩ := by
    intro rec hrec
    rcases mem_standing.mp hrec with ⟨k, x, hx, hne, rfl⟩ | ⟨q, i, offset, len, x, hp, hx, rfl⟩
    · rcases hrange k x hx with ⟨hother, hold⟩ | rfl
      · refine .inl (mem_standing.mpr (.inl ⟨k, x, hold, hne, ?_⟩))
        rw [howner, Function.update_of_ne hother]
      · refine .inr ?_
        rw [howner, Function.update_self]
    · obtain ⟨y, hy, hyx⟩ := type_at_of_types htypes hx
      exact .inl (mem_standing.mpr (.inr ⟨q, i, offset, len, y, hreqs ▸ hp, hy, by rw [hyx]⟩))
  refine ⟨htypes ▸ h.distinct, fun q i offset len hp => ?_, fun rec hrec e he hholds => ?_,
    fun p hp q i hloop k x hx hik hne => ?_⟩
  · rw [hlen]
    exact h.inTable q i offset len (hreqs ▸ hp)
  · rw [hspace] at he
    rcases hstanding rec hrec with hold | rfl
    · rcases List.mem_cons.mp he with rfl | he
      · exact hfar rec hold hholds
      · exact h.own rec hold e he hholds
    · rcases List.mem_cons.mp he with rfl | he
      · rfl
      · exact absurd hholds (hfree e he)
  · rw [hreqs] at hp
    rcases hrange k x hx with ⟨hother, hold⟩ | rfl
    · rw [howner, Function.update_of_ne hother]
      exact h.loops p hp q i hloop k x hold hik hne
    · rw [howner, Function.update_self]
      exact (hloops p hp (q, i) hloop).symm

end

section
variable [DecidableEq Cap] {C : Ops Cap} {getBufferSize : ℤ → ℕ} {w v : World Cap}

theorem World.step_revokeRemove {r : ℕ} {fails : Bool}
    (hstep : w.step C getBufferSize (.capio (.revokeRemove r fails)) = some v) :
    ∃ proc i offset len, w.sys.reqs[r]? = some (.removing proc i offset len) ∧
      StepLoops w.sys v.sys (fun proc => (Act.revokeRemove r fails).revoker w.sys = some proc) ∧
      v.owner = w.owner ∧ (v.space = w.space ∨ v.space = remove w.space proc offset len) := by
  simp only [World.step] at hstep
  split at hstep
  next proc i offset len found hr hlooked =>
    refine ⟨proc, i, offset, len, hr, ?_⟩
    have hsteps : ∀ sys, Capio.step C getBufferSize w.sys (.revokeRemove r fails) = some sys →
        StepLoops w.sys sys fun proc => (Act.revokeRemove r fails).revoker w.sys = some proc :=
      fun sys hsys => step_loops (fun _ _ _ heq => by cases heq) hsys
    split_ifs at hstep
    · obtain ⟨sys, hsys, rfl⟩ := Option.map_eq_some_iff.mp hstep
      exact ⟨hsteps sys hsys, rfl, .inl rfl⟩
    · obtain ⟨sys, hsys, rfl⟩ := Option.map_eq_some_iff.mp hstep
      exact ⟨hsteps sys hsys, rfl, .inr rfl⟩
    · obtain rfl := Option.some.inj hstep
      refine ⟨?_, rfl, .inl rfl⟩
      exact .advance hr rfl (.inr ⟨i, Nat.le_refl i, rfl⟩) fun _ _ _ _ hp => by cases hp
  next => cases hstep

theorem World.step_cases {a : Act Cap} (hstep : w.step C getBufferSize (.capio a) = some v) :
    (∃ id proc vaddr o, a = .mapInsert id proc vaddr ∧ w.sys.toInsert id = some o ∧
      Free w.space proc vaddr (getBufferSize o.type) ∧
      v.sys.sc = vaddrCallback w.sys.sc o.type vaddr (getBufferSize o.type) ∧
      v.sys.reqs = w.sys.reqs ∧ v.owner = Function.update w.owner o.type proc ∧
      v.space = ⟨proc, vaddr, getBufferSize o.type, .region o.type⟩ :: w.space) ∨
    (StepLoops w.sys v.sys (fun proc => a.revoker w.sys = some proc) ∧ v.owner = w.owner ∧
      (v.space = w.space ∨ ∃ proc lo len, v.space = remove w.space proc lo len)) := by
  cases a with
  | mapInsert id proc vaddr =>
    simp only [World.step] at hstep
    split at hstep
    next => cases hstep
    next o ho =>
      split_ifs at hstep with hfree
      obtain ⟨sys, hsys, rfl⟩ := Option.map_eq_some_iff.mp hstep
      cases step_moves hsys with
      | refused hasks => cases hasks
      | mapInsert ho' =>
        obtain rfl := Option.some.inj (ho'.symm.trans ho)
        exact .inl ⟨id, proc, vaddr, _, rfl, ho, hfree, rfl, rfl, rfl, rfl⟩
  | munmap id =>
    simp only [World.step] at hstep
    split at hstep
    next => cases hstep
    next o ho =>
      obtain ⟨sys, hsys, hv⟩ := Option.map_eq_some_iff.mp hstep
      have hloops := step_loops (fun _ _ _ heq => by cases heq) hsys
      cases hplace : o.place with
      | none =>
        rw [hplace] at hv
        subst hv
        exact .inr ⟨hloops, rfl, .inl rfl⟩
      | some place =>
        rw [hplace] at hv
        subst hv
        exact .inr ⟨hloops, rfl, .inr ⟨_, _, _, rfl⟩⟩
  | revokeRemove r fails =>
    obtain ⟨proc, i, offset, len, -, hloops, howner, hspace⟩ := World.step_revokeRemove hstep
    rcases hspace with hspace | hspace
    · exact .inr ⟨hloops, howner, .inl hspace⟩
    · exact .inr ⟨hloops, howner, .inr ⟨proc, offset, len, hspace⟩⟩
  | attach _ | goodbye _ _ | goodbyeClear _ | close _ | revokeRead _ | revokeClear _ | ioctl _
  | ioctlRun _ | mmap _ _ | mmapValidate _ | mmapScan _ | mmapAlloc _ _ | mmapLate _
  | detachDying | destroyDev | freeDma | capioDestroy =>
    obtain ⟨sys, hsys, rfl⟩ := Option.map_eq_some_iff.mp hstep
    exact .inr ⟨step_loops (fun _ _ _ heq => by cases heq) hsys, rfl, .inl rfl⟩

theorem SpaceInv.step (h : SpaceInv w) {a : WorldAct Cap} (ha : Undisturbed getBufferSize w a)
    (hstep : w.step C getBufferSize a = some v) : SpaceInv v := by
  have hsame : ∀ e ∈ w.space, ∃ x ∈ w.space, e.backing = x.backing ∧
      ∀ p a n, e.Meets p a n → x.Meets p a n := fun e he => ⟨e, he, rfl, fun _ _ _ hm => hm⟩
  cases a with
  | capio a =>
    rcases World.step_cases hstep with
      ⟨id, proc, vaddr, o, rfl, ho, hfree, hsc, hreqs, howner, hspace⟩ | ⟨hloops, howner, hspace⟩
    · have hnew : w.newEntry getBufferSize (.capio (.mapInsert id proc vaddr)) =
          some ⟨proc, vaddr, getBufferSize o.type, .region o.type⟩ := by
        simp [World.newEntry, ho]
      obtain ⟨hfar, hloops⟩ := ha.1 _ hnew
      exact h.mapRegion hfree hfar (hloops (by simp)) hsc hreqs howner hspace
    · refine h.of_loops hloops (fun proc hproc => ha.2 proc hproc) howner fun e he => ?_
      rcases hspace with hspace | ⟨proc, lo, len, hspace⟩
      · exact hsame e (hspace ▸ he)
      · rw [hspace] at he
        exact exists_of_mem_remove he
  | lookup r =>
    simp only [World.step] at hstep
    split at hstep
    next =>
      obtain rfl := Option.some.inj hstep
      exact h.of_loops (P := fun _ => False) (.quiet rfl fun p hp => .inl hp)
        (fun _ hf => hf.elim) rfl hsame
    next => cases hstep
  | mapOther proc start len =>
    simp only [World.step] at hstep
    split_ifs at hstep
    obtain rfl := Option.some.inj hstep
    exact h.insert rfl rfl rfl (ha.1 _ rfl).1
  | unmapOther proc start len =>
    simp only [World.step] at hstep
    split_ifs at hstep
    obtain rfl := Option.some.inj hstep
    exact h.of_loops (P := fun _ => False) (.quiet rfl fun p hp => .inl hp)
      (fun _ hf => hf.elim) rfl fun e he => exists_of_mem_remove he

/-- What a revocation takes out of the caller's map is the region's; the rest is left alone. -/
def RemovesOwn (w v : World Cap) (r : ℕ) : Prop :=
  (∀ e ∈ w.space, e ∉ v.space → ∃ proc i offset len smem,
    w.sys.reqs[r]? = some (.removing proc i offset len) ∧
    w.sys.sc.sharedMemRegs[i]? = some smem ∧ e.proc = proc ∧ e.backing = .region smem.type) ∧
  ∀ e ∈ w.space, e.backing = .other → e ∈ v.space

theorem SpaceInv.removesOwn (h : SpaceInv w) {r : ℕ} {fails : Bool}
    (hstep : w.step C getBufferSize (.capio (.revokeRemove r fails)) = some v) :
    RemovesOwn w v r := by
  have hown : ∀ e ∈ w.space, e ∉ v.space → ∃ proc i offset len smem,
      w.sys.reqs[r]? = some (.removing proc i offset len) ∧
      w.sys.sc.sharedMemRegs[i]? = some smem ∧ e.proc = proc ∧
      e.backing = .region smem.type := by
    intro e he hgone
    obtain ⟨proc, i, offset, len, hr, -, -, hspace⟩ := World.step_revokeRemove hstep
    rcases hspace with hsame | hremoved
    · exact absurd (hsame ▸ he) hgone
    · -- whatever is gone met the range, and the range is a standing record
      have hmeets : e.Meets proc offset len :=
        not_not.mp fun hnot => hgone (hremoved ▸ mem_remove_of_not_meets he hnot)
      have hp := List.mem_of_getElem? hr
      obtain ⟨x, hx⟩ : ∃ x, (ranges w.sys.sc.sharedMemRegs)[i]? = some x :=
        ⟨_, List.getElem?_eq_getElem (h.inTable proc i offset len hp)⟩
      have hback := h.own ⟨proc, x.1, offset, len⟩
        (mem_standing.mpr (.inr ⟨proc, i, offset, len, x, hp, hx, rfl⟩)) e he hmeets
      simp only [ranges, List.getElem?_map] at hx
      obtain ⟨smem, hsmem, rfl⟩ := Option.map_eq_some_iff.mp hx
      exact ⟨proc, i, offset, len, smem, hr, hsmem, hmeets.1, hback⟩
  refine ⟨hown, fun e he hother => not_not.mp fun hgone => ?_⟩
  obtain ⟨proc, i, offset, len, smem, -, -, -, hback⟩ := hown e he hgone
  rw [hother] at hback
  cases hback

end

end

/-- In every run in which no process maps anything else into a range recorded for it, and only
the process with the records revokes, every revocation removes this device's mappings only. -/
theorem revocation_removes_own {Cap : Type*} [DecidableEq Cap] {C : Ops Cap} {barSize : ℕ}
    {space : List (Entry Backing)} {acts : List (WorldAct Cap)} {w v : World Cap} {r : ℕ}
    {fails : Bool}
    (hquiet : Along (World.step C (getBufferSize barSize)) (Undisturbed (getBufferSize barSize))
      (World.start C barSize space) acts)
    (hrun : run (World.step C (getBufferSize barSize)) (World.start C barSize space) acts = some w)
    (hstep : w.step C (getBufferSize barSize) (.capio (.revokeRemove r fails)) = some v) :
    RemovesOwn w v r :=
  (run_invariant_along (fun _ _ _ h ha hs => h.step ha hs) (spaceInv_start C barSize space)
    hquiet hrun).removesOwn hstep

/-- One client of the TX buffer: it maps it at 0x5000 and something of its own at `addr`, before
or after it unmapped the buffer again, and says goodbye. -/
def oneClient (unmaps : Bool) (addr : ℕ) : List (WorldAct MorelloCap) :=
  [.capio (.attach (userCapAt 0x1000)), .capio (.mmap 1 txMapReq), .capio (.mmapValidate 0),
    .capio (.mmapScan 0), .capio (.mmapAlloc 0 false), .capio (.mmapLate 0),
    .capio (.mapInsert 0 1 0x5000)] ++
  (if unmaps then [.capio (.munmap 0)] else []) ++
  [.mapOther 1 addr 0x1000, .capio (.goodbye 1 (tokenAt 0x1000)), .capio (.goodbyeClear 1),
    .capio (.revokeRead 1), .lookup 1]

/-- The client library's own order: unmap, then goodbye. Memory the process was given in between
at the address the buffer had is taken away. -/
theorem reused_range_removed : ¬ ∀ (barSize : ℕ) (space : List (Entry Backing))
    (acts : List (WorldAct MorelloCap)) (w v : World MorelloCap) (r : ℕ) (fails : Bool),
      run (World.step (morello 0x1234) (getBufferSize barSize))
        (World.start (morello 0x1234) barSize space) acts = some w →
      w.step (morello 0x1234) (getBufferSize barSize) (.capio (.revokeRemove r fails)) = some v →
      RemovesOwn w v r := by
  intro hall
  have hend : ((run (World.step (morello 0x1234) (getBufferSize 4096))
      (World.start (morello 0x1234) 4096 []) (oneClient true 0x5000)).bind fun w =>
        (w.step (morello 0x1234) (getBufferSize 4096) (.capio (.revokeRemove 1 false))).map
          fun v => (w.space, v.space)) = some ([⟨1, 0x5000, 0x1000, .other⟩], []) := by
    decide +kernel
  obtain ⟨w, hw, hv⟩ := Option.bind_eq_some_iff.mp hend
  obtain ⟨v, hstep, hspaces⟩ := Option.map_eq_some_iff.mp hv
  obtain ⟨hbefore, hafter⟩ := Prod.mk.inj hspaces
  have hkept := (hall 4096 [] _ w v 1 false hw hstep).2 ⟨1, 0x5000, 0x1000, .other⟩
    (by simp [hbefore]) rfl
  rw [hafter] at hkept
  cases hkept

/-- With its own memory elsewhere and the buffer still mapped, revocation takes the buffer. -/
theorem revocation_removes_own_mapped :
    ∃ w v, run (World.step (morello 0x1234) (getBufferSize 4096))
        (World.start (morello 0x1234) 4096 []) (oneClient false 0x400000) = some w ∧
      w.step (morello 0x1234) (getBufferSize 4096) (.capio (.revokeRemove 1 false)) = some v ∧
      w.space.length = 2 ∧ v.space = [⟨1, 0x400000, 0x1000, .other⟩] ∧ RemovesOwn w v 1 := by
  have hend : ((run (World.step (morello 0x1234) (getBufferSize 4096))
      (World.start (morello 0x1234) 4096 []) (oneClient false 0x400000)).bind fun w =>
        (w.step (morello 0x1234) (getBufferSize 4096) (.capio (.revokeRemove 1 false))).map
          fun v => (w.space.length, v.space)) = some (2, [⟨1, 0x400000, 0x1000, .other⟩]) := by
    decide +kernel
  obtain ⟨w, hw, hv⟩ := Option.bind_eq_some_iff.mp hend
  obtain ⟨v, hstep, hspaces⟩ := Option.map_eq_some_iff.mp hv
  obtain ⟨hbefore, hafter⟩ := Prod.mk.inj hspaces
  exact ⟨w, v, hw, hstep, hbefore, hafter, revocation_removes_own (by decide +kernel) hw hstep⟩

end Sfc7120.Capio

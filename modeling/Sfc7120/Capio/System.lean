import Sfc7120.Lib.Machine
import Sfc7120.Capio.Softc

/-! CAPIO as a system: any number of requests from any number of processes, each cut at its lock
boundaries, the VM system holding pager objects, and the driver's detach. -/
namespace Sfc7120.Capio

open Sealing Machine

/-- A pager object of some region. A request owns no reference once `cdev_pager_allocate`
returned: the object is the VM system's when mmap succeeds and nobody's when it fails late. -/
structure Obj where
  id : ℕ
  type : ℤ
  owned : Bool
  /-- Process and address it is mapped at. -/
  place : Option (ℕ × ℕ)
  deriving DecidableEq

def Obj.own (id : ℕ) (o : Obj) : Obj := if o.id = id then { o with owned := true } else o

def Obj.mapAt (id proc vaddr : ℕ) (o : Obj) : Obj :=
  if o.id = id then { o with place := some (proc, vaddr) } else o

/-- Where a request is. `k` is the session whose token passed its check. -/
inductive Pc (Cap : Type*) where
  | done
  | goodbyeChecked (k proc : ℕ)
  | revoking (proc i : ℕ)
  | removing (proc i offset len : ℕ)
  | cleaning (proc i : ℕ)
  | ioctlChecked (k : ℕ)
  | mmapChecked (k proc : ℕ) (req : MapReq Cap)
  | mmapValidated (k proc : ℕ) (req : MapReq Cap)
  | mmapScanned (k proc : ℕ) (req : MapReq Cap)
  | mmapAllocated (proc id : ℕ) (req : MapReq Cap)

def Pc.isDone {Cap : Type*} : Pc Cap → Bool
  | .done => true
  | _ => false

/-- How far `sfc7120_fbsd_detach` is. -/
inductive Phase where
  | attached
  | dying
  | devDestroyed
  | dmaFreed
  | capioDestroyed
  deriving DecidableEq

/-- The cdev's methods can be entered. -/
def Phase.hasCdev : Phase → Bool
  | .attached => true
  | .dying => true
  | _ => false

def Phase.isDying : Phase → Bool
  | .attached => false
  | _ => true

inductive EffectKind where
  | goodbye
  | ioctl
  | mmap
  deriving DecidableEq

/-- An authorised request acting: the session it was checked against and the one current now. -/
structure Effect where
  kind : EffectKind
  checked : ℕ
  current : Option ℕ
  deriving DecidableEq

structure Sys (Cap : Type*) where
  sc : Softc Cap
  phase : Phase
  reqs : List (Pc Cap)
  objects : List Obj
  nextId : ℕ
  /-- User capability and token of every session, by session number. -/
  granted : List (Cap × Cap)
  /-- The session opened last, until its token is cleared. -/
  session : Option ℕ
  effects : List Effect
  /-- A pager destructor ran after `capio_destroy`. -/
  dtorOnDestroyed : Bool

inductive Act (Cap : Type*) where
  | attach (userCap : Cap)
  | goodbye (proc : ℕ) (capToken : Cap)
  | goodbyeClear (r : ℕ)
  | close (proc : ℕ)
  | revokeRead (r : ℕ)
  | revokeRemove (r : ℕ) (fails : Bool)
  | revokeClear (r : ℕ)
  | ioctl (capToken : Cap)
  | ioctlRun (r : ℕ)
  | mmap (proc : ℕ) (req : MapReq Cap)
  | mmapValidate (r : ℕ)
  | mmapScan (r : ℕ)
  | mmapAlloc (r : ℕ) (fails : Bool)
  | mmapLate (r : ℕ)
  | mapInsert (id proc vaddr : ℕ)
  | munmap (id : ℕ)
  | detachDying
  | destroyDev
  | freeDma
  | capioDestroy

section
variable {Cap : Type*}

def Sys.setReq (s : Sys Cap) (r : ℕ) (p : Pc Cap) : Sys Cap := { s with reqs := s.reqs.set r p }

def Sys.addReq (s : Sys Cap) (p : Pc Cap) : Sys Cap := { s with reqs := s.reqs ++ [p] }

/-- The last reference to a pager object goes away. -/
def Sys.destroyObj (s : Sys Cap) (o : Obj) : Sys Cap :=
  { s with
    sc := pagerDtor s.sc o.type
    objects := s.objects.erase o
    dtorOnDestroyed := s.dtorOnDestroyed || s.phase = .capioDestroyed }

/-- What the destructors of pager objects leave alone. -/
structure Destroyed (s t : Sys Cap) : Prop where
  originalCap : t.sc.originalCap = s.sc.originalCap
  sealedCap : t.sc.sealedCap = s.sc.sealedCap
  ranges : ranges t.sc.sharedMemRegs = Capio.ranges s.sc.sharedMemRegs
  session : t.session = s.session
  granted : t.granted = s.granted
  reqs : t.reqs = s.reqs
  effects : t.effects = s.effects
  phase : t.phase = s.phase
  dtor : s.phase ≠ .capioDestroyed → t.dtorOnDestroyed = s.dtorOnDestroyed

theorem foldl_destroyObj (os : List Obj) (s : Sys Cap) :
    Destroyed s (os.foldl Sys.destroyObj s) := by
  have hself : Destroyed s s := ⟨rfl, rfl, rfl, rfl, rfl, rfl, rfl, rfl, fun _ => rfl⟩
  apply List.foldlRecOn os Sys.destroyObj hself
  intro t h o _
  refine ⟨h.originalCap, h.sealedCap, (ranges_setMapped _ _ _).trans h.ranges, h.session,
    h.granted, h.reqs, h.effects, h.phase, fun hphase => ?_⟩
  rw [Sys.destroyObj, h.phase, h.dtor hphase]
  simp [hphase]

/-- The pager objects `vm_map_remove` takes out of a process. -/
def Sys.mappedIn (s : Sys Cap) (proc offset len : ℕ) : List Obj :=
  s.objects.filter fun o => match o.place with
    | some (p, va) => p = proc ∧ offset ≤ va ∧ va < offset + len
    | none => False

variable [DecidableEq Cap] (C : Ops Cap) (getBufferSize : ℤ → ℕ)

def Sys.clear (s : Sys Cap) : Sys Cap := { s with sc := clearCapToken C s.sc, session := none }

def Sys.act (s : Sys Cap) (kind : EffectKind) (k : ℕ) : Sys Cap :=
  { s with effects := s.effects ++ [⟨kind, k, s.session⟩] }

/-- A request that must present a token: refused, or let through in the current session. -/
def Sys.authorise (s : Sys Cap) (capToken : Cap) (p : ℕ → Pc Cap) : Option (Sys Cap) :=
  if s.phase.hasCdev then
    match checkCapToken C s.sc capToken, s.session with
    | none, some k => some (s.addReq (p k))
    | _, _ => some s
  else none

def step (s : Sys Cap) : Act Cap → Option (Sys Cap)
  | .attach userCap =>
      if s.phase.hasCdev then
        match setCapToken C s.sc userCap with
        | .error _ => some s
        | .ok (sc, token) =>
            some { s with
              sc := sc, granted := s.granted ++ [(userCap, token)],
              session := some s.granted.length }
      else none
  | .goodbye proc capToken => s.authorise C capToken fun k => .goodbyeChecked k proc
  | .goodbyeClear r =>
      match s.reqs[r]? with
      | some (.goodbyeChecked k proc) =>
          some (((s.act .goodbye k).clear C).setReq r (.revoking proc 0))
      | _ => none
  | .close proc =>
      if s.phase.hasCdev then some ((s.clear C).addReq (.revoking proc 0)) else none
  | .revokeRead r =>
      match s.reqs[r]? with
      | some (.revoking proc i) =>
          match s.sc.sharedMemRegs[i]? with
          | none => some (s.setReq r .done)
          | some smem =>
              if smem.offset ≠ 0 then some (s.setReq r (.removing proc i smem.offset smem.len))
              else some (s.setReq r (.revoking proc (i + 1)))
      | _ => none
  | .revokeRemove r fails =>
      match s.reqs[r]? with
      | some (.removing proc i offset len) =>
          -- only vm_map_remove's unknown errors are failures, and they remove nothing; a removal
          -- takes every object placed in the recorded range with it, those that a lookup of the
          -- address would not have found and ranges that overlap in part being the business of
          -- `Capio/AddressSpace`, which knows what each address maps
          if fails then some (s.setReq r (.revoking proc (i + 1)))
          else
            some (((s.mappedIn proc offset len).foldl Sys.destroyObj s).setReq r (.cleaning proc i))
      | _ => none
  | .revokeClear r =>
      match s.reqs[r]? with
      | some (.cleaning proc i) =>
          some ({ s with sc := clearOffset s.sc i }.setReq r (.revoking proc (i + 1)))
      | _ => none
  | .ioctl capToken => s.authorise C capToken .ioctlChecked
  | .ioctlRun r =>
      match s.reqs[r]? with
      | some (.ioctlChecked k) => some ((s.act .ioctl k).setReq r .done)
      | _ => none
  | .mmap proc req => s.authorise C req.sealedCap fun k => .mmapChecked k proc req
  | .mmapValidate r =>
      match s.reqs[r]? with
      | some (.mmapChecked k proc req) =>
          match Capio.mmapValidate C getBufferSize s.phase.isDying req with
          | some _ => some (s.setReq r .done)
          | none => some (s.setReq r (.mmapValidated k proc req))
      | _ => none
  | .mmapScan r =>
      match s.reqs[r]? with
      | some (.mmapValidated k proc req) =>
          match Capio.mmapScan s.sc req.mapType with
          | some _ => some (s.setReq r .done)
          | none => some (s.setReq r (.mmapScanned k proc req))
      | _ => none
  | .mmapAlloc r fails =>
      match s.reqs[r]? with
      | some (.mmapScanned k proc req) =>
          if fails then some (s.setReq r .done)
          else
            let u := s.act .mmap k
            some ({ u with
              sc := pagerCtor s.sc req.mapType
              objects := ⟨s.nextId, req.mapType, false, none⟩ :: s.objects
              nextId := s.nextId + 1 }.setReq r (.mmapAllocated proc s.nextId req))
      | _ => none
  | .mmapLate r =>
      match s.reqs[r]? with
      | some (.mmapAllocated _ id _) =>
          -- the object is not released on this path
          if s.phase.isDying then some (s.setReq r .done)
          else some ({ s with objects := s.objects.map (Obj.own id) }.setReq r .done)
      | _ => none
  | .mapInsert id proc vaddr =>
      match s.objects.find? fun o => o.id = id && o.owned && o.place.isNone with
      | none => none
      | some o => some { s with
          sc := vaddrCallback s.sc o.type vaddr (getBufferSize o.type)
          objects := s.objects.map (Obj.mapAt id proc vaddr) }
  | .munmap id =>
      match s.objects.find? fun o => o.id = id && o.owned with
      | none => none
      | some o => some (s.destroyObj o)
  | .detachDying => if s.phase = .attached then some { s with phase := .dying } else none
  | .destroyDev =>
      -- destroy_dev waits for the cdev methods that are running
      if s.phase = .dying ∧ s.reqs.all Pc.isDone then
        some { s with phase := .devDestroyed }
      else none
  | .freeDma => if s.phase = .devDestroyed then some { s with phase := .dmaFreed } else none
  | .capioDestroy =>
      if s.phase = .dmaFreed then some { s with phase := .capioDestroyed } else none

/-- After attach: no session, the given regions, none of them mapped. -/
def start (regs : List Region) : Sys Cap where
  sc := ⟨C.null, C.null, false, regs.map fun smem => { smem with offset := 0, mapped := false }⟩
  phase := .attached
  reqs := []
  objects := []
  nextId := 0
  granted := []
  session := none
  effects := []
  dtorOnDestroyed := false

/-- The requests that can be refused with nothing changed. -/
def Act.asks : Act Cap → Bool
  | .attach _ | .goodbye _ _ | .ioctl _ | .mmap _ _ => true
  | _ => false

/-- What a step comes to, one constructor for each way through it. -/
inductive Moves (s : Sys Cap) : Act Cap → Sys Cap → Prop where
  | refused {a : Act Cap} (hasks : a.asks = true) : Moves s a s
  | attach {u : Cap} (hnull : C.isNull u = false) (hclosed : C.isNull s.sc.sealedCap = true) :
      Moves s (.attach u)
        { s with
          sc := { s.sc with originalCap := u, sealedCap := C.sealCap u }
          granted := s.granted ++ [(u, C.sealCap u)]
          session := some s.granted.length }
  | goodbye {proc k : ℕ} {tok : Cap} (hcheck : checkCapToken C s.sc tok = none)
      (hsession : s.session = some k) :
      Moves s (.goodbye proc tok) (s.addReq (.goodbyeChecked k proc))
  | ioctl {k : ℕ} {tok : Cap} (hcheck : checkCapToken C s.sc tok = none)
      (hsession : s.session = some k) : Moves s (.ioctl tok) (s.addReq (.ioctlChecked k))
  | mmap {proc k : ℕ} {req : MapReq Cap} (hcheck : checkCapToken C s.sc req.sealedCap = none)
      (hsession : s.session = some k) :
      Moves s (.mmap proc req) (s.addReq (.mmapChecked k proc req))
  | goodbyeClear {r k proc : ℕ} (hr : s.reqs[r]? = some (.goodbyeChecked k proc)) :
      Moves s (.goodbyeClear r) (((s.act .goodbye k).clear C).setReq r (.revoking proc 0))
  | close {proc : ℕ} (hcdev : s.phase.hasCdev = true) :
      Moves s (.close proc) ((s.clear C).addReq (.revoking proc 0))
  | revokeDone {r proc i : ℕ} (hr : s.reqs[r]? = some (.revoking proc i))
      (hend : s.sc.sharedMemRegs[i]? = none) : Moves s (.revokeRead r) (s.setReq r .done)
  | revokeRead {r proc i : ℕ} {smem : Region} (hr : s.reqs[r]? = some (.revoking proc i))
      (hsmem : s.sc.sharedMemRegs[i]? = some smem) (hoffset : smem.offset ≠ 0) :
      Moves s (.revokeRead r) (s.setReq r (.removing proc i smem.offset smem.len))
  | revokeSkip {r proc i : ℕ} {smem : Region} (hr : s.reqs[r]? = some (.revoking proc i))
      (hsmem : s.sc.sharedMemRegs[i]? = some smem) (hoffset : smem.offset = 0) :
      Moves s (.revokeRead r) (s.setReq r (.revoking proc (i + 1)))
  | removeFailed {r proc i offset len : ℕ}
      (hr : s.reqs[r]? = some (.removing proc i offset len)) :
      Moves s (.revokeRemove r true) (s.setReq r (.revoking proc (i + 1)))
  | revokeRemove {r proc i offset len : ℕ}
      (hr : s.reqs[r]? = some (.removing proc i offset len)) :
      Moves s (.revokeRemove r false)
        (((s.mappedIn proc offset len).foldl Sys.destroyObj s).setReq r (.cleaning proc i))
  | revokeClear {r proc i : ℕ} (hr : s.reqs[r]? = some (.cleaning proc i)) :
      Moves s (.revokeClear r)
        ({ s with sc := clearOffset s.sc i }.setReq r (.revoking proc (i + 1)))
  | ioctlRun {r k : ℕ} (hr : s.reqs[r]? = some (.ioctlChecked k)) :
      Moves s (.ioctlRun r) ((s.act .ioctl k).setReq r .done)
  | mmapInvalid {r k proc : ℕ} {req : MapReq Cap} {e : Errno}
      (hr : s.reqs[r]? = some (.mmapChecked k proc req))
      (hvalid : Capio.mmapValidate C getBufferSize s.phase.isDying req = some e) :
      Moves s (.mmapValidate r) (s.setReq r .done)
  | mmapValidate {r k proc : ℕ} {req : MapReq Cap}
      (hr : s.reqs[r]? = some (.mmapChecked k proc req))
      (hvalid : Capio.mmapValidate C getBufferSize s.phase.isDying req = none) :
      Moves s (.mmapValidate r) (s.setReq r (.mmapValidated k proc req))
  | mmapBusy {r k proc : ℕ} {req : MapReq Cap} {e : Errno}
      (hr : s.reqs[r]? = some (.mmapValidated k proc req))
      (hscan : Capio.mmapScan s.sc req.mapType = some e) :
      Moves s (.mmapScan r) (s.setReq r .done)
  | mmapScan {r k proc : ℕ} {req : MapReq Cap}
      (hr : s.reqs[r]? = some (.mmapValidated k proc req))
      (hscan : Capio.mmapScan s.sc req.mapType = none) :
      Moves s (.mmapScan r) (s.setReq r (.mmapScanned k proc req))
  | allocFailed {r k proc : ℕ} {req : MapReq Cap}
      (hr : s.reqs[r]? = some (.mmapScanned k proc req)) :
      Moves s (.mmapAlloc r true) (s.setReq r .done)
  | mmapAlloc {r k proc : ℕ} {req : MapReq Cap}
      (hr : s.reqs[r]? = some (.mmapScanned k proc req)) :
      Moves s (.mmapAlloc r false)
        ({ s.act .mmap k with
          sc := pagerCtor s.sc req.mapType
          objects := ⟨s.nextId, req.mapType, false, none⟩ :: s.objects
          nextId := s.nextId + 1 }.setReq r (.mmapAllocated proc s.nextId req))
  | lateDying {r proc id : ℕ} {req : MapReq Cap}
      (hr : s.reqs[r]? = some (.mmapAllocated proc id req)) (hdying : s.phase.isDying = true) :
      Moves s (.mmapLate r) (s.setReq r .done)
  | mmapLate {r proc id : ℕ} {req : MapReq Cap}
      (hr : s.reqs[r]? = some (.mmapAllocated proc id req)) (hdying : s.phase.isDying = false) :
      Moves s (.mmapLate r) ({ s with objects := s.objects.map (Obj.own id) }.setReq r .done)
  | mapInsert {id proc vaddr : ℕ} {o : Obj}
      (ho : s.objects.find? (fun o => o.id = id && o.owned && o.place.isNone) = some o) :
      Moves s (.mapInsert id proc vaddr)
        { s with
          sc := vaddrCallback s.sc o.type vaddr (getBufferSize o.type)
          objects := s.objects.map (Obj.mapAt id proc vaddr) }
  | munmap {id : ℕ} {o : Obj} (ho : s.objects.find? (fun o => o.id = id && o.owned) = some o) :
      Moves s (.munmap id) (s.destroyObj o)
  | detachDying (hphase : s.phase = .attached) : Moves s .detachDying { s with phase := .dying }
  | destroyDev (hphase : s.phase = .dying) (hdone : s.reqs.all Pc.isDone = true) :
      Moves s .destroyDev { s with phase := .devDestroyed }
  | freeDma (hphase : s.phase = .devDestroyed) : Moves s .freeDma { s with phase := .dmaFreed }
  | capioDestroy (hphase : s.phase = .dmaFreed) :
      Moves s .capioDestroy { s with phase := .capioDestroyed }

variable {C getBufferSize} {s t : Sys Cap}

theorem authorise_cases {capToken : Cap} {p : ℕ → Pc Cap}
    (h : s.authorise C capToken p = some t) :
    t = s ∨ ∃ k, checkCapToken C s.sc capToken = none ∧ s.session = some k ∧
      t = s.addReq (p k) := by
  unfold Sys.authorise at h
  split_ifs at h
  split at h
  next k hcheck hsession => exact .inr ⟨k, hcheck, hsession, (Option.some.inj h).symm⟩
  next => exact .inl (Option.some.inj h).symm

/-- The step function does nothing else. -/
theorem step_moves {a : Act Cap} (h : step C getBufferSize s a = some t) :
    Moves C getBufferSize s a t := by
  cases a <;> simp only [step] at h
  case attach u =>
    split_ifs at h
    split at h
    next => exact Option.some.inj h ▸ .refused rfl
    next sc token hset =>
      obtain ⟨hnull, hclosed, rfl, rfl⟩ := setCapToken_ok hset
      exact Option.some.inj h ▸ .attach hnull hclosed
  case goodbye proc tok =>
    rcases authorise_cases h with rfl | ⟨k, hcheck, hsession, rfl⟩
    · exact .refused rfl
    · exact .goodbye hcheck hsession
  case ioctl tok =>
    rcases authorise_cases h with rfl | ⟨k, hcheck, hsession, rfl⟩
    · exact .refused rfl
    · exact .ioctl hcheck hsession
  case mmap proc req =>
    rcases authorise_cases h with rfl | ⟨k, hcheck, hsession, rfl⟩
    · exact .refused rfl
    · exact .mmap hcheck hsession
  case goodbyeClear r =>
    split at h
    next hr => exact Option.some.inj h ▸ .goodbyeClear hr
    next => cases h
  case close proc =>
    split_ifs at h with hcdev
    exact Option.some.inj h ▸ .close hcdev
  case revokeRead r =>
    split at h
    next hr =>
      split at h
      next hend => exact Option.some.inj h ▸ .revokeDone hr hend
      next hsmem =>
        split_ifs at h with hoffset
        · exact Option.some.inj h ▸ .revokeRead hr hsmem hoffset
        · exact Option.some.inj h ▸ .revokeSkip hr hsmem (not_not.mp hoffset)
    next => cases h
  case revokeRemove r fails =>
    split at h
    next hr =>
      cases fails with
      | true => exact Option.some.inj h ▸ .removeFailed hr
      | false => exact Option.some.inj h ▸ .revokeRemove hr
    next => cases h
  case revokeClear r =>
    split at h
    next hr => exact Option.some.inj h ▸ .revokeClear hr
    next => cases h
  case ioctlRun r =>
    split at h
    next hr => exact Option.some.inj h ▸ .ioctlRun hr
    next => cases h
  case mmapValidate r =>
    split at h
    next hr =>
      split at h
      next hvalid => exact Option.some.inj h ▸ .mmapInvalid hr hvalid
      next hvalid => exact Option.some.inj h ▸ .mmapValidate hr hvalid
    next => cases h
  case mmapScan r =>
    split at h
    next hr =>
      split at h
      next hscan => exact Option.some.inj h ▸ .mmapBusy hr hscan
      next hscan => exact Option.some.inj h ▸ .mmapScan hr hscan
    next => cases h
  case mmapAlloc r fails =>
    split at h
    next hr =>
      cases fails with
      | true => exact Option.some.inj h ▸ .allocFailed hr
      | false => exact Option.some.inj h ▸ .mmapAlloc hr
    next => cases h
  case mmapLate r =>
    split at h
    next hr =>
      split_ifs at h with hdying
      · exact Option.some.inj h ▸ .lateDying hr hdying
      · exact Option.some.inj h ▸ .mmapLate hr (Bool.not_eq_true _ ▸ hdying)
    next => cases h
  case mapInsert id proc vaddr =>
    split at h
    next => cases h
    next ho => exact Option.some.inj h ▸ .mapInsert ho
  case munmap id =>
    split at h
    next => cases h
    next ho => exact Option.some.inj h ▸ .munmap ho
  case detachDying =>
    split_ifs at h with hphase
    exact Option.some.inj h ▸ .detachDying hphase
  case destroyDev =>
    split_ifs at h with hguard
    exact Option.some.inj h ▸ .destroyDev hguard.1 hguard.2
  case freeDma =>
    split_ifs at h with hphase
    exact Option.some.inj h ▸ .freeDma hphase
  case capioDestroy =>
    split_ifs at h with hphase
    exact Option.some.inj h ▸ .capioDestroy hphase

end

end Sfc7120.Capio

import Sfc7120.Lib.Machine
import Sfc7120.Capio.Regions

/-! From `make_dev_capio` to the end of attach, with clients at the node. The handlers refuse a
request while `si_drv1` is NULL; attach stores it right after the node exists, and sets up what the
handlers use only later, in `init_capio_sc`. -/
namespace Sfc7120.Capio

open Sealing Machine

/-- The store attach comes to next, once the node exists. -/
inductive AttachPc where
  | siDrv1
  | fillSmem (i : ℕ)
  | lockInit
  | sealingKey
  | sharedMemRegsLen
  | sharedMemRegs
  | capioOps
  | attached
  deriving DecidableEq

/-- `create_sealing_key`; `rootBase` is the base of `kernel_root_sealcap`, and a key is the object
type it seals with. -/
def createSealingKey (rootBase id : ℕ) : Option ℕ :=
  if id ≥ rootBase then none else some (rootBase + id)

inductive Request (Cap : Type*) where
  | attach (userCap : Cap)
  | goodbye (capToken : Cap)
  | ioctl (capToken : Cap)
  | mmap (capToken : Cap)
  | close

/-- A request past the NULL test. -/
inductive RequestPc (Cap : Type*) where
  | entered (q : Request Cap)
  | checked (q : Request Cap)
  | done

/-- What a request finds when it runs: which parts are set up and, when it checks a token, the key
the installed one was sealed with and the key of the check. -/
structure Seen where
  capMtx : Bool
  capioOps : Bool
  sharedMemRegs : Bool
  sealingKey : Bool
  keys : Option (Option ℕ × Option ℕ)

structure Boot (Cap : Type*) where
  pc : AttachPc
  siDrv1 : Bool
  smem : List Region
  sc : Softc Cap
  capMtx : Bool
  sealingKey : Option ℕ
  sharedMemRegsLen : ℕ
  /-- The pointer is not NULL. -/
  sharedMemRegs : Bool
  capioOps : Bool
  /-- The key the installed token was sealed with. -/
  sealedWith : Option ℕ
  reqs : List (RequestPc Cap)
  seen : List Seen

inductive BootAct (Cap : Type*) where
  | attachStep
  | openDev
  | enter (q : Request Cap)
  | serve (r : ℕ)

section
variable {Cap : Type*}

/-- One store of attach. -/
def Boot.attachStep (rootBase barSize : ℕ) (s : Boot Cap) : Option (Boot Cap) :=
  match s.pc with
  | .siDrv1 => some { s with siDrv1 := true, pc := .fillSmem 0 }
  | .fillSmem i =>
      match (Capio.smem barSize)[i]? with
      | some smem => some { s with smem := s.smem ++ [smem], pc := .fillSmem (i + 1) }
      -- the smem array is full: init_capio_sc
      | none => some { s with pc := .lockInit }
  | .lockInit => some { s with capMtx := true, pc := .sealingKey }
  | .sealingKey =>
      some { s with sealingKey := createSealingKey rootBase 0x1234, pc := .sharedMemRegsLen }
  | .sharedMemRegsLen =>
      some { s with sharedMemRegsLen := VmMapType.all.length, pc := .sharedMemRegs }
  | .sharedMemRegs =>
      some { s with
        sc := { s.sc with sharedMemRegs := s.smem }, sharedMemRegs := true, pc := .capioOps }
  | .capioOps => some { s with capioOps := true, pc := .attached }
  | .attached => none

/-- A request runs: note what it finds. -/
def Boot.see (s : Boot Cap) (keys : Option (Option ℕ × Option ℕ)) : Boot Cap :=
  { s with
    seen := s.seen ++
      [⟨s.capMtx, s.capioOps, s.sharedMemRegs, s.sealingKey.isSome, keys⟩] }

def Boot.setReq (s : Boot Cap) (r : ℕ) (p : RequestPc Cap) : Boot Cap :=
  { s with reqs := s.reqs.set r p }

variable [DecidableEq Cap] (K : Keyed Cap)

/-- `check_cap_token` with whatever key is there. -/
def Boot.check (s : Boot Cap) (r : ℕ) (q : Request Cap) (capToken : Cap) : Boot Cap :=
  let C := K.ops s.sealingKey
  let keys := if C.isNull s.sc.sealedCap then none else some (s.sealedWith, s.sealingKey)
  (s.see keys).setReq r
    (if checkCapToken C s.sc capToken = none then .checked q else .done)

def Boot.step (rootBase barSize : ℕ) (s : Boot Cap) : BootAct Cap → Option (Boot Cap)
  | .attachStep => s.attachStep rootBase barSize
  | .openDev => some s
  | .enter q =>
      if s.siDrv1 then some { s.see none with reqs := s.reqs ++ [.entered q] } else some s
  | .serve r =>
      match s.reqs[r]? with
      | some (.entered (.attach userCap)) =>
          match setCapToken (K.ops s.sealingKey) s.sc userCap with
          | .error _ => some ((s.see none).setReq r .done)
          | .ok (sc, _) =>
              some ({ s.see none with sc := sc, sealedWith := s.sealingKey }.setReq r .done)
      | some (.entered (.goodbye capToken)) => some (s.check K r (.goodbye capToken) capToken)
      | some (.entered (.ioctl capToken)) => some (s.check K r (.ioctl capToken) capToken)
      | some (.entered (.mmap capToken)) => some (s.check K r (.mmap capToken) capToken)
      | some (.entered .close) | some (.checked (.goodbye _)) =>
          some ({ s.see none with sc := clearCapToken (K.ops s.sealingKey) s.sc }.setReq r .done)
      | some (.checked _) => some ((s.see none).setReq r .done)
      | _ => none

/-- The node has just been made. -/
def Boot.start : Boot Cap where
  pc := .siDrv1
  siDrv1 := false
  smem := []
  sc := ⟨K.null, K.null, false, []⟩
  capMtx := false
  sealingKey := none
  sharedMemRegsLen := 0
  sharedMemRegs := false
  capioOps := false
  sealedWith := none
  reqs := []
  seen := []

end

section
variable {Cap : Type*}

/-- Everything the handlers use was set up, and the check used the key of the token. -/
def Seen.Ready (x : Seen) : Prop :=
  x.capMtx = true ∧ x.capioOps = true ∧ x.sharedMemRegs = true ∧ x.sealingKey = true ∧
    ∀ k ∈ x.keys, k.1 = k.2

/-- Every request that got past the NULL test ran with CAPIO initialised. -/
def Served (s : Boot Cap) : Prop := ∀ x ∈ s.seen, x.Ready

/-- No request comes in between the store to `si_drv1` and the end of `init_capio_sc`. -/
def OutsideWindow (s : Boot Cap) : BootAct Cap → Prop
  | .enter _ => s.siDrv1 = true → s.pc = .attached
  | _ => True

instance OutsideWindow.decidable (s : Boot Cap) : (a : BootAct Cap) → Decidable (OutsideWindow s a)
  | .enter _ => inferInstanceAs (Decidable (s.siDrv1 = true → s.pc = .attached))
  | .attachStep | .openDev | .serve _ => inferInstanceAs (Decidable True)

/-- What is set up by the time attach comes to a store; `capio_ops` is the last. -/
structure Stored (s : Boot Cap) : Prop where
  capMtx : s.pc ∈ [.sealingKey, .sharedMemRegsLen, .sharedMemRegs, .capioOps, .attached] →
    s.capMtx = true
  sealingKey : s.pc ∈ [.sharedMemRegsLen, .sharedMemRegs, .capioOps, .attached] →
    s.sealingKey.isSome = true
  sharedMemRegs : s.pc ∈ [.capioOps, .attached] → s.sharedMemRegs = true
  capioOps : s.capioOps = true ↔ s.pc = .attached

/-- A step that is not one of attach's: its fields stay, and what requests found is kept. -/
structure SameBoot (s t : Boot Cap) : Prop where
  pc : t.pc = s.pc
  siDrv1 : t.siDrv1 = s.siDrv1
  capMtx : t.capMtx = s.capMtx
  sealingKey : t.sealingKey = s.sealingKey
  sharedMemRegs : t.sharedMemRegs = s.sharedMemRegs
  capioOps : t.capioOps = s.capioOps

theorem Stored.congr {s t : Boot Cap} (h : Stored s) (hsame : SameBoot s t) : Stored t where
  capMtx hpc := hsame.capMtx.trans (h.capMtx (hsame.pc ▸ hpc))
  sealingKey hpc := hsame.sealingKey ▸ h.sealingKey (hsame.pc ▸ hpc)
  sharedMemRegs hpc := hsame.sharedMemRegs.trans (h.sharedMemRegs (hsame.pc ▸ hpc))
  capioOps := by rw [hsame.capioOps, hsame.pc]; exact h.capioOps

theorem Stored.attachStep {rootBase barSize : ℕ} (hroot : 0x1234 < rootBase) {s t : Boot Cap}
    (h : Stored s) (hstep : s.attachStep rootBase barSize = some t) : Stored t := by
  obtain ⟨hmtx, hkey, hregs, hops⟩ := h
  have hcreate : (createSealingKey rootBase 0x1234).isSome = true := by
    simp [createSealingKey, Nat.not_le.mpr hroot]
  unfold Boot.attachStep at hstep
  cases hpc : s.pc with
  | fillSmem i =>
    simp only [hpc] at hstep hops
    split at hstep <;> obtain rfl := Option.some.inj hstep <;>
      constructor <;> simp_all
  | siDrv1 | lockInit | sealingKey | sharedMemRegsLen | sharedMemRegs | capioOps =>
    simp only [hpc] at hstep hmtx hkey hregs hops
    obtain rfl := Option.some.inj hstep
    constructor <;> simp_all
  | attached =>
    simp only [hpc] at hstep
    cases hstep

/-- What attach's own steps leave alone. -/
theorem attachStep_frame {rootBase barSize : ℕ} {s t : Boot Cap}
    (hstep : s.attachStep rootBase barSize = some t) :
    s.pc ≠ .attached ∧ t.reqs = s.reqs ∧ t.seen = s.seen ∧ t.sc.sealedCap = s.sc.sealedCap := by
  unfold Boot.attachStep at hstep
  split at hstep
  case h_2 i hpc =>
    split at hstep <;> obtain rfl := Option.some.inj hstep <;> simp [hpc]
  case h_8 => cases hstep
  all_goals
    next hpc =>
    obtain rfl := Option.some.inj hstep
    simp [hpc]

section
variable {K : Keyed Cap} {s t : Boot Cap}

/-- A request that is past the NULL test runs: it notes what it finds, and the token it leaves is
the one that was there, one sealed with the key there is, or none. -/
structure Runs (K : Keyed Cap) (s t : Boot Cap) : Prop where
  boot : SameBoot s t
  seen : ∃ keys, t.seen = (s.see keys).seen ∧
    ∀ k ∈ keys, K.isNull s.sc.sealedCap = false ∧ k = (s.sealedWith, s.sealingKey)
  token : (t.sc.sealedCap = s.sc.sealedCap ∧ t.sealedWith = s.sealedWith) ∨
    t.sealedWith = s.sealingKey ∨ t.sc.sealedCap = K.null

theorem Runs.quiet (p : List (RequestPc Cap)) : Runs K s { s.see none with reqs := p } :=
  ⟨⟨rfl, rfl, rfl, rfl, rfl, rfl⟩, ⟨none, rfl, fun k hk => by cases hk⟩, .inl ⟨rfl, rfl⟩⟩

theorem Runs.cleared (r : ℕ) (p : RequestPc Cap) :
    Runs K s ({ s.see none with sc := clearCapToken (K.ops s.sealingKey) s.sc }.setReq r p) :=
  ⟨⟨rfl, rfl, rfl, rfl, rfl, rfl⟩, ⟨none, rfl, fun k hk => by cases hk⟩, .inr (.inr rfl)⟩

/-- Until attach is done no request is past the NULL test and no token is installed. -/
structure BootInv (K : Keyed Cap) (s : Boot Cap) : Prop where
  stored : Stored s
  closed : s.pc ≠ .attached → s.reqs = [] ∧ s.sc.sealedCap = K.null
  token : K.isNull s.sc.sealedCap = true ∨ s.sealedWith = s.sealingKey
  served : Served s

theorem bootInv_start (hnull : K.isNull K.null = true) : BootInv K (Boot.start K) where
  stored := ⟨fun h => by simp [Boot.start] at h, fun h => by simp [Boot.start] at h,
    fun h => by simp [Boot.start] at h, by simp [Boot.start]⟩
  closed _ := ⟨rfl, rfl⟩
  token := .inl hnull
  served x hx := by cases hx

end

end

section
variable {Cap : Type*} [DecidableEq Cap] {K : Keyed Cap} {rootBase barSize : ℕ} {s t : Boot Cap}

theorem Runs.check (r : ℕ) (q : Request Cap) (capToken : Cap) :
    Runs K s (s.check K r q capToken) := by
  refine ⟨⟨rfl, rfl, rfl, rfl, rfl, rfl⟩, ⟨_, rfl, fun k hk => ?_⟩, .inl ⟨rfl, rfl⟩⟩
  split_ifs at hk with hnull
  · cases hk
  · exact ⟨by simpa [Keyed.ops] using hnull, (Option.some.inj hk).symm⟩

/-- What a client's step can do: nothing, or run a request that is past the NULL test. -/
theorem step_client {a : BootAct Cap} (ha : a ≠ .attachStep)
    (hstep : s.step K rootBase barSize a = some t) :
    (t = s ∧ ∀ q, a = .enter q → s.siDrv1 = false) ∨
      ((s.reqs ≠ [] ∨ ∃ q, a = .enter q ∧ s.siDrv1 = true) ∧ Runs K s t) := by
  cases a with
  | attachStep => exact absurd rfl ha
  | openDev => exact .inl ⟨(Option.some.inj hstep).symm, fun q hq => by cases hq⟩
  | enter q =>
    simp only [Boot.step] at hstep
    split_ifs at hstep with hdrv
    · exact .inr ⟨.inr ⟨q, rfl, hdrv⟩, Option.some.inj hstep ▸ .quiet _⟩
    · exact .inl ⟨(Option.some.inj hstep).symm, fun q' _ => by simpa using hdrv⟩
  | serve r =>
    simp only [Boot.step] at hstep
    have hreqs : ∀ p, s.reqs[r]? = some p → s.reqs ≠ [] := fun p hp =>
      List.ne_nil_of_mem (List.mem_of_getElem? hp)
    split at hstep
    next u hr =>
      refine .inr ⟨.inl (hreqs _ hr), ?_⟩
      split at hstep
      next => exact Option.some.inj hstep ▸ .quiet _
      next sc token hset =>
        obtain rfl := Option.some.inj hstep
        exact ⟨⟨rfl, rfl, rfl, rfl, rfl, rfl⟩, ⟨none, rfl, fun k hk => by cases hk⟩,
          .inr (.inl rfl)⟩
    next hr => exact .inr ⟨.inl (hreqs _ hr), Option.some.inj hstep ▸ .check ..⟩
    next hr => exact .inr ⟨.inl (hreqs _ hr), Option.some.inj hstep ▸ .check ..⟩
    next hr => exact .inr ⟨.inl (hreqs _ hr), Option.some.inj hstep ▸ .check ..⟩
    next hr => exact .inr ⟨.inl (hreqs _ hr), Option.some.inj hstep ▸ .cleared ..⟩
    next hr => exact .inr ⟨.inl (hreqs _ hr), Option.some.inj hstep ▸ .cleared ..⟩
    next hr => exact .inr ⟨.inl (hreqs _ hr), Option.some.inj hstep ▸ .quiet _⟩
    next => cases hstep

theorem Stored.step (hroot : 0x1234 < rootBase) {a : BootAct Cap} (h : Stored s)
    (hstep : s.step K rootBase barSize a = some t) : Stored t := by
  by_cases ha : a = .attachStep
  · subst ha
    exact h.attachStep hroot hstep
  · rcases step_client ha hstep with ⟨rfl, -⟩ | ⟨-, hruns⟩
    · exact h
    · exact h.congr hruns.boot

/-- What requests found is never forgotten. -/
theorem seen_step {a : BootAct Cap} (hstep : s.step K rootBase barSize a = some t) :
    ∀ x ∈ s.seen, x ∈ t.seen := by
  intro x hx
  by_cases ha : a = .attachStep
  · subst ha
    obtain ⟨-, -, hseen, -⟩ := attachStep_frame hstep
    exact hseen ▸ hx
  · rcases step_client ha hstep with ⟨rfl, -⟩ | ⟨-, hruns⟩
    · exact hx
    · obtain ⟨keys, hseen, -⟩ := hruns.seen
      rw [hseen]
      exact List.mem_append_left _ hx

theorem BootInv.step (hnull : K.isNull K.null = true) (hroot : 0x1234 < rootBase)
    {a : BootAct Cap} (h : BootInv K s) (ha : OutsideWindow s a)
    (hstep : s.step K rootBase barSize a = some t) : BootInv K t := by
  have hstored := h.stored.step hroot hstep
  by_cases hattach : a = .attachStep
  · subst hattach
    obtain ⟨hpc, hreqs, hseen, hsealed⟩ := attachStep_frame hstep
    obtain ⟨hempty, hcap⟩ := h.closed hpc
    refine ⟨hstored, fun _ => ⟨hreqs.trans hempty, hsealed.trans hcap⟩, .inl ?_, ?_⟩
    · rw [hsealed, hcap, hnull]
    · unfold Served
      rw [hseen]
      exact h.served
  · rcases step_client hattach hstep with ⟨rfl, -⟩ | ⟨hpast, hruns⟩
    · exact h
    · -- the request is past the test, so attach is done
      have hdone : s.pc = .attached := by
        rcases hpast with hreqs | ⟨q, rfl, hdrv⟩
        · exact not_not.mp fun hpc => hreqs (h.closed hpc).1
        · exact ha hdrv
      obtain ⟨keys, hseen, hkeys⟩ := hruns.seen
      refine ⟨hstored, fun hpc => absurd (hruns.boot.pc.trans hdone) hpc, ?_, fun x hx => ?_⟩
      · rw [hruns.boot.sealingKey]
        rcases hruns.token with ⟨hcap, hwith⟩ | hwith | hcap
        · rw [hcap, hwith]
          exact h.token
        · exact .inr hwith
        · exact .inl (hcap ▸ hnull)
      · rw [hseen] at hx
        rcases List.mem_append.mp hx with hold | hnew
        · exact h.served x hold
        · obtain rfl := List.mem_singleton.mp hnew
          refine ⟨h.stored.capMtx (by simp [hdone]), h.stored.capioOps.mpr hdone,
            h.stored.sharedMemRegs (by simp [hdone]), h.stored.sealingKey (by simp [hdone]), ?_⟩
          intro k hk
          obtain ⟨hinstalled, rfl⟩ := hkeys k hk
          exact h.token.resolve_left (by simp [hinstalled])

/-- A request that comes in in between finds `capio_ops` not set. -/
theorem not_served_of_window {a : BootAct Cap} (h : Stored s) (hnot : ¬ OutsideWindow s a)
    (hstep : s.step K rootBase barSize a = some t) : ¬ Served t := by
  cases a with
  | enter q =>
    simp only [OutsideWindow, Classical.not_imp] at hnot
    obtain ⟨hdrv, hpc⟩ := hnot
    simp only [Boot.step, hdrv, if_true] at hstep
    obtain rfl := Option.some.inj hstep
    intro hserved
    obtain ⟨-, hops, -⟩ := hserved _ (List.mem_append_right _ (List.mem_singleton_self _))
    exact hpc (h.capioOps.mp hops)
  | attachStep | openDev | serve _ => exact absurd trivial hnot

theorem along_of_served (hroot : 0x1234 < rootBase) {acts : List (BootAct Cap)} (h : Stored s)
    (hrun : run (Boot.step K rootBase barSize) s acts = some t) (hserved : Served t) :
    Along (Boot.step K rootBase barSize) OutsideWindow s acts := by
  induction acts generalizing s with
  | nil => trivial
  | cons a acts ih =>
    obtain ⟨u, hu, hrest⟩ := run_cons.mp hrun
    refine ⟨not_not.mp fun hnot => not_served_of_window h hnot hu fun x hx => ?_, fun v hv => ?_⟩
    · -- what was found then is still on record at the end
      exact hserved x (run_invariant (I := fun v => x ∈ v.seen)
        (fun _ _ _ hmem hs => seen_step hs x hmem) hx hrest)
    · obtain rfl : u = v := Option.some.inj (hu.symm.trans hv)
      exact ih (h.step hroot hu) hrest

end

/-- Every request that gets past the NULL test runs with CAPIO initialised and checks tokens with
the key they were sealed with, exactly in the runs in which none comes in between the store to
`si_drv1` and the end of `init_capio_sc`. -/
theorem requests_served_initialised {Cap : Type*} [DecidableEq Cap] {K : Keyed Cap}
    {rootBase barSize : ℕ} (hnull : K.isNull K.null = true) (hroot : 0x1234 < rootBase)
    {acts : List (BootAct Cap)} {s : Boot Cap}
    (hrun : run (Boot.step K rootBase barSize) (Boot.start K) acts = some s) :
    Served s ↔ Along (Boot.step K rootBase barSize) OutsideWindow (Boot.start K) acts := by
  constructor
  · exact along_of_served hroot (bootInv_start hnull).stored hrun
  · intro houtside
    exact (run_invariant_along (fun _ _ _ h ha hs => h.step hnull hroot ha hs)
      (bootInv_start hnull) houtside hrun).served

/-- A client attaches right after `si_drv1` is stored and uses its token once attach is done. -/
def earlyClient : List (BootAct MorelloCap) :=
  [.attachStep, .enter (.attach ⟨true, 0, 0x1000⟩), .serve 0] ++ List.replicate 12 .attachStep ++
    [.enter (.ioctl ⟨false, 0, 0x1000⟩), .serve 1]

theorem served_before_init : ¬ ∀ (rootBase barSize : ℕ) (acts : List (BootAct MorelloCap))
    (s : Boot MorelloCap), 0x1234 < rootBase →
      run (Boot.step morelloKeyed rootBase barSize) (Boot.start morelloKeyed) acts = some s →
      Served s := by
  intro hall
  have hend : (run (Boot.step morelloKeyed 0x2000 4096) (Boot.start morelloKeyed)
      earlyClient).map (fun s => s.seen.map fun x => (x.capMtx, x.keys)) =
      some [(false, none), (false, none), (true, none), (true, some (none, some 0x3234))] := by
    decide +kernel
  obtain ⟨s, hs, hseen⟩ := Option.map_eq_some_iff.mp hend
  obtain ⟨x, hx, hfalse⟩ : ∃ x ∈ s.seen, (x.capMtx, x.keys) = (false, none) := by
    have hmem : (false, none) ∈ s.seen.map fun x => (x.capMtx, x.keys) := by simp [hseen]
    exact List.mem_map.mp hmem
  have hready := (hall 0x2000 4096 earlyClient s (by decide) hs x hx).1
  rw [(Prod.mk.inj hfalse).1] at hready
  cases hready

/-- The same client refused before the store and let in after attach. -/
theorem requests_served_initialised_late :
    ∃ s, run (Boot.step morelloKeyed 0x2000 4096) (Boot.start morelloKeyed)
        ([.openDev, .enter (.attach ⟨true, 0, 0x1000⟩)] ++ List.replicate 13 .attachStep ++
          [.enter (.attach ⟨true, 0, 0x1000⟩), .serve 0]) = some s ∧
      s.pc = .attached ∧ s.seen.length = 2 ∧ Served s := by
  have hend : (run (Boot.step morelloKeyed 0x2000 4096) (Boot.start morelloKeyed)
      ([.openDev, .enter (.attach ⟨true, 0, 0x1000⟩)] ++ List.replicate 13 .attachStep ++
        [.enter (.attach ⟨true, 0, 0x1000⟩), .serve 0])).map
          (fun s => (s.pc, s.seen.length)) = some (.attached, 2) := by decide +kernel
  obtain ⟨s, hs, hfacts⟩ := Option.map_eq_some_iff.mp hend
  obtain ⟨hpc, hlen⟩ := Prod.mk.inj hfacts
  exact ⟨s, hs, hpc, hlen, (requests_served_initialised rfl (by decide) hs).mpr
    (by decide +kernel)⟩

end Sfc7120.Capio

import Sfc7120.Lib.Sealing
import Sfc7120.Basic
import Mathlib.Data.Int.Notation

/-! The CAPIO state and the actions `capio.c` takes on it, each as one locked (or, for the token
check, unlocked) step. The capability machine and the driver's `get_buffer_size` are parameters. -/
namespace Sfc7120.Capio

open Sealing

/-- The mutable part of `shared_mem_region_t`. -/
structure Region where
  type : ℤ
  offset : ℕ
  len : ℕ
  mapped : Bool
  deriving DecidableEq

/-- `capio_softc_t`: the token state, the mapped flag and the region table. -/
structure Softc (Cap : Type*) where
  originalCap : Cap
  sealedCap : Cap
  mapped : Bool
  sharedMemRegs : List Region

/-- What a client passes to mmap: its token and user capability, and the mapping it wants.
`capProt` is whether the protection asks for capability loads or stores. -/
structure MapReq (Cap : Type*) where
  sealedCap : Cap
  userCap : Cap
  mapType : ℤ
  size : ℕ
  offset : ℕ
  capProt : Bool

section
variable {Cap : Type*} [DecidableEq Cap] (C : Ops Cap)

def checkCapToken (sc : Softc Cap) (capToken : Cap) : Option Errno :=
  if C.isNull sc.sealedCap then some .EINVAL
  else if C.isNull capToken then some .EINVAL
  else if C.unsealCap capToken ≠ sc.originalCap then some .EPERM
  else none

/-- `set_cap_token`: the new state and the token handed out, or the error. -/
def setCapToken (sc : Softc Cap) (userCap : Cap) : Except Errno (Softc Cap × Cap) :=
  if C.isNull userCap || !C.isNull sc.sealedCap then .error .EINVAL
  else
    let sealedCap := C.sealCap userCap
    .ok ({ sc with originalCap := userCap, sealedCap := sealedCap }, sealedCap)

/-- The first locked section of `revoke_cap_token`. -/
def clearCapToken (sc : Softc Cap) : Softc Cap :=
  { sc with originalCap := C.null, sealedCap := C.null }

/-- The checks of `capio_mmap_single_extra` between the token check and the scan. -/
def mmapValidate (getBufferSize : ℤ → ℕ) (dying : Bool) (req : MapReq Cap) : Option Errno :=
  if req.capProt then some .EINVAL
  else if req.offset ≠ 0 then some .EINVAL
  else if dying then some Errno.ENXIO
  else if !C.tag req.userCap then some .EINVAL
  else if req.size ≠ getBufferSize req.mapType then some .EINVAL
  else none

end

section
variable {Cap : Type*}

theorem setCapToken_ok {C : Ops Cap} {sc sc' : Softc Cap} {u token : Cap}
    (h : setCapToken C sc u = .ok (sc', token)) :
    C.isNull u = false ∧ C.isNull sc.sealedCap = true ∧ token = C.sealCap u ∧
      sc' = { sc with originalCap := u, sealedCap := C.sealCap u } := by
  unfold setCapToken at h
  split_ifs at h with hnull
  obtain ⟨rfl, rfl⟩ : _ ∧ _ := by simpa using h
  simp only [Bool.not_eq_true, Bool.or_eq_false_iff, Bool.not_eq_false'] at hnull
  exact ⟨hnull.1, hnull.2, rfl, rfl⟩

/-- The locked scan: the first region of the type must not be mapped. -/
def mmapScan (sc : Softc Cap) (mapType : ℤ) : Option Errno :=
  match sc.sharedMemRegs.find? (fun smem => smem.type = mapType) with
  | some smem => if smem.mapped then some .EINVAL else none
  | none => none

def Region.setMapped (type : ℤ) (v : Bool) (smem : Region) : Region :=
  if smem.type = type then { smem with mapped := v } else smem

/-- What `capio_vaddr_callback` records for a region. -/
def ranges (regs : List Region) : List (ℤ × ℕ × ℕ) :=
  regs.map fun smem => (smem.type, smem.offset, smem.len)

theorem ranges_setMapped (regs : List Region) (type : ℤ) (v : Bool) :
    ranges (regs.map (Region.setMapped type v)) = ranges regs := by
  simp only [ranges, List.map_map]
  refine List.map_congr_left fun smem _ => ?_
  simp only [Function.comp_apply, Region.setMapped]
  split <;> rfl

/-- `capio_pager_ctor`, run by `cdev_pager_allocate`. -/
def pagerCtor (sc : Softc Cap) (type : ℤ) : Softc Cap :=
  { sc with mapped := true, sharedMemRegs := sc.sharedMemRegs.map (Region.setMapped type true) }

/-- `capio_pager_dtor`, run when the last reference to a pager object goes away. -/
def pagerDtor (sc : Softc Cap) (type : ℤ) : Softc Cap :=
  let regs := sc.sharedMemRegs.map (Region.setMapped type false)
  { sc with
    mapped := if regs.any Region.mapped then sc.mapped else false
    sharedMemRegs := regs }

/-- Change the first region of a type. -/
def updateFirst (type : ℤ) (f : Region → Region) : List Region → List Region
  | [] => []
  | smem :: rest => if smem.type = type then f smem :: rest else smem :: updateFirst type f rest

/-- `capio_vaddr_callback`: modmap reports where a region was mapped. -/
def vaddrCallback (sc : Softc Cap) (mapType : ℤ) (vaddr size : ℕ) : Softc Cap :=
  let report (smem : Region) : Region := { smem with offset := vaddr, len := size }
  { sc with sharedMemRegs := updateFirst mapType report sc.sharedMemRegs }

/-- The last locked section of `revoke_cap_token`'s loop. -/
def clearOffset (sc : Softc Cap) (i : ℕ) : Softc Cap :=
  { sc with sharedMemRegs := sc.sharedMemRegs.modify i fun smem => { smem with offset := 0 } }

end

end Sfc7120.Capio

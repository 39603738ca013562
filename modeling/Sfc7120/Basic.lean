import Mathlib.Data.Nat.Notation

/-! Error codes, the queue geometry shared by kernel and userspace, the EF10 register offsets
inside the BAR, and the manifest of register slices handed to userspace. -/
namespace Sfc7120

/-- The errno values the driver returns or tests. A call returning 0 is `none`. -/
inductive Errno where
  | EPERM | ENOENT | EINTR | EIO | ENXIO | EAGAIN | ENOMEM | EACCES | EFAULT | EBUSY | EINVAL
  | ENOTTY | ENOSYS | ETIMEDOUT | EOPNOTSUPP | EPROTO
  deriving DecidableEq, Repr

def numTxDesc : ℕ := 512
def numRxDesc : ℕ := 512
def numEvqEntry : ℕ := 512
def txBufferSize : ℕ := 2048
def rxBufferSize : ℕ := 2048

/-- Bytes of metadata the firmware puts before each received frame. -/
def ef10RxPrefixLen : ℕ := 14

def viWindowShift : ℕ := 13

/-- Every virtual interface owns an 8 KB doorbell window. -/
def viWindow (inst : ℕ) : ℕ := inst <<< viWindowShift

def dataEvqInstance : ℕ := 1
def rxqInstance : ℕ := 0
def txqInstance : ℕ := 0

def regBiuHwRevId : ℕ := 0x0000
def regMcdb : ℕ := 0x0200
def regEvqRptrDbl : ℕ := 0x0400
def regRxDescDbl : ℕ := 0x0830
def regTxDescDbl : ℕ := 0x0a10

def regDataEvqRptrDbl : ℕ := viWindow dataEvqInstance + regEvqRptrDbl
def regDataRxDescDbl : ℕ := viWindow rxqInstance + regRxDescDbl
def regDataTxDescDbl : ℕ := viWindow txqInstance + regTxDescDbl
def regDataTxWptrDbl : ℕ := regDataTxDescDbl + 8

def evqRptrMask : ℕ := 0x7fff

/-- One entry of the slice manifest: a register range userspace may hold a capability to. -/
structure SliceDef where
  offset : ℕ
  name : String
  readOnly : Bool
  length : ℕ
  deriving DecidableEq, Repr

/-- The manifest, in the order userspace indexes it. -/
def regSlices : List SliceDef :=
  [⟨regMcdb, "MC_DOORBELL", false, 4⟩,
   ⟨regDataEvqRptrDbl, "DATA_EVQ_RPTR_DBL", false, 4⟩,
   ⟨regDataRxDescDbl, "RX_DESC_DBL", false, 4⟩,
   ⟨regDataTxDescDbl, "TX_DESC_DBL", false, 12⟩,
   ⟨regBiuHwRevId, "HW_REV_ID", true, 4⟩]

/-- Positions of the slices in the array userspace receives. -/
inductive MmioSliceIdx where
  | mcDoorbell | dataEvqRptrDbl | rxDescDbl | txDescDbl | hwRevId
  deriving DecidableEq, Repr

def MmioSliceIdx.toNat : MmioSliceIdx → ℕ
  | .mcDoorbell => 0
  | .dataEvqRptrDbl => 1
  | .rxDescDbl => 2
  | .txDescDbl => 3
  | .hwRevId => 4

/-- The enum and the table agree: the slice at each index is the register it is named for. -/
theorem regSlices_offset (i : MmioSliceIdx) :
    (regSlices[i.toNat]?).map SliceDef.offset = some (match i with
      | .mcDoorbell => regMcdb
      | .dataEvqRptrDbl => regDataEvqRptrDbl
      | .rxDescDbl => regDataRxDescDbl
      | .txDescDbl => regDataTxDescDbl
      | .hwRevId => regBiuHwRevId) := by
  cases i <;> rfl

end Sfc7120

import Sfc7120.Lib.BitFields
import Sfc7120.Basic

/-! Event words and descriptors: the 64-bit values host and NIC exchange through the rings. -/
namespace Sfc7120

open BitFields

abbrev Word := BitVec 64

/-- All-ones (never written) and zero (already consumed) both mean no event is present. -/
def evEmpty (ev : Word) : Bool := ev == 0xffffffffffffffff#64 || ev == 0#64

def evCode (ev : Word) : BitVec 32 := (ev >>> 60).setWidth 32 &&& 0xf#32

def evRxBytes (ev : Word) : BitVec 16 := (ev &&& 0x3fff#64).setWidth 16

def evTxDescIdx (ev : Word) : BitVec 16 := (ev &&& 0xffff#64).setWidth 16

/-- The 8-byte descriptor: byte count in bits 61:48, bus address in bits 47:0. -/
def kernDesc (len pa : Word) : Word :=
  ((len &&& 0x3fff#64) <<< 48) ||| (((pa >>> 32) &&& 0xffff#64) <<< 32) |||
    (pa &&& 0xffffffff#64)

/-- The bus address of packet slot `i` in a buffer of `size`-byte slots. -/
def slotPa (base : Word) (size i : ℕ) : Word := base + BitVec.ofNat 64 (i * size)

def rxDesc (base : Word) (i : ℕ) : Word :=
  kernDesc (BitVec.ofNat 64 rxBufferSize) (slotPa base rxBufferSize i)

/-- What the NIC takes from a descriptor. -/
def descAddr (d : Word) : Word := get 0 48 d

def descBytes (d : Word) : Word := get 48 14 d

theorem kernDesc_eq_fields (len pa : Word) :
    kernDesc len pa = put 48 14 len ||| put 32 16 (pa >>> 32) ||| put 0 32 pa := by
  simp [kernDesc, put, mask]

theorem descAddr_kernDesc {len pa : Word} (h : pa.toNat < 2 ^ 48) :
    descAddr (kernDesc len pa) = pa := by
  rw [descAddr, kernDesc_eq_fields, BitVec.or_assoc, put_or_put_of_lt (by simpa using h), get_or,
    get_put_disjoint (by decide), get_zero_of_lt h]
  simp

theorem descBytes_kernDesc {len pa : Word} (h : len.toNat < 2 ^ 14) :
    descBytes (kernDesc len pa) = len := by
  rw [descBytes, kernDesc_eq_fields, get_or, get_or, get_put (by decide),
    get_put_disjoint (by decide), get_put_disjoint (by decide), and_mask_of_lt h]
  simp

theorem evEmpty_iff (ev : Word) :
    evEmpty ev = true ↔ ev = 0xffffffffffffffff#64 ∨ ev = 0#64 := by
  simp [evEmpty]

/-- A packet slot of a buffer below the 48-bit limit has the address it is named for. -/
theorem slotPa_toNat {base : Word} {size i n : ℕ} (hbase : base.toNat + n * size ≤ 2 ^ 48)
    (hi : i < n) : (slotPa base size i).toNat = base.toNat + i * size := by
  have hle : i * size ≤ n * size := Nat.mul_le_mul_right size hi.le
  rw [slotPa, BitVec.toNat_add, BitVec.toNat_ofNat]
  omega

end Sfc7120

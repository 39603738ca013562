import Sfc7120.Capio.Softc

/-! The regions this driver shares: the table attach fills in, the sizes the CAPIO layer asks
for, and what userspace is told before it maps. -/
namespace Sfc7120.Capio

/-- `sfc7120_vm_map_type_t`. -/
inductive VmMapType where
  | txBuffer | rxBuffer | mmioRegion | txDescRing | rxDescRing | evqRing
  deriving DecidableEq, Repr

def VmMapType.toInt : VmMapType → ℤ
  | .txBuffer => 0
  | .rxBuffer => 1
  | .mmioRegion => 2
  | .txDescRing => 3
  | .rxDescRing => 4
  | .evqRing => 5

def VmMapType.all : List VmMapType :=
  [.txBuffer, .rxBuffer, .mmioRegion, .txDescRing, .rxDescRing, .evqRing]

def VmMapType.ofInt (type : ℤ) : Option VmMapType := VmMapType.all.find? fun t => t.toInt = type

def txDescSize : ℕ := 8
def rxDescSize : ℕ := 8
def evqEntrySize : ℕ := 8

/-- `sfc7120_get_buffer_size`; `barSize` is the size of the memory BAR. -/
def getBufferSize (barSize : ℕ) (type : ℤ) : ℕ :=
  match VmMapType.ofInt type with
  | some .txBuffer => numTxDesc * txBufferSize
  | some .rxBuffer => numRxDesc * rxBufferSize
  | some .mmioRegion => barSize
  | some .txDescRing => numTxDesc * txDescSize
  | some .rxDescRing => numRxDesc * rxDescSize
  | some .evqRing => numEvqEntry * evqEntrySize
  | none => 0

/-- The length attach puts in each entry of `smem[]`. -/
def smemLen (barSize : ℕ) : VmMapType → ℕ
  | .txBuffer => numTxDesc * txBufferSize
  | .rxBuffer => numRxDesc * rxBufferSize
  | .mmioRegion => barSize
  | .txDescRing => numTxDesc * txDescSize
  | .rxDescRing => numRxDesc * rxDescSize
  | .evqRing => numEvqEntry * evqEntrySize

/-- `smem[]` as attach leaves it. -/
def smem (barSize : ℕ) : List Region :=
  VmMapType.all.map fun t => ⟨t.toInt, 0, smemLen barSize t, false⟩

/-- Entries of the slice manifest by region; only the BAR is sliced. -/
def sliceDefLen (type : ℤ) : ℕ :=
  match VmMapType.ofInt type with
  | some .mmioRegion => regSlices.length
  | _ => 0

structure RegionSizes where
  regionLength : ℕ
  sliceDefLength : ℕ
  deriving DecidableEq

/-- `capio_slice_length_callback`. -/
def sliceLengthCallback {Cap : Type*} (sc : Softc Cap) (mapType : ℤ) : RegionSizes :=
  match sc.sharedMemRegs.find? (fun smem => smem.type = mapType) with
  | some smem => ⟨smem.len, sliceDefLen smem.type⟩
  | none => ⟨0, 0⟩

theorem ofInt_toInt (t : VmMapType) : VmMapType.ofInt t.toInt = some t := by
  cases t <;> rfl

theorem toInt_of_ofInt {type : ℤ} {t : VmMapType} (h : VmMapType.ofInt type = some t) :
    t.toInt = type := by
  simpa using List.find?_some h

theorem toInt_injective : Function.Injective VmMapType.toInt := by
  intro a b h
  have hab := congrArg VmMapType.ofInt h
  rw [ofInt_toInt, ofInt_toInt] at hab
  exact Option.some.inj hab

/-- The lengths in the table are the sizes the driver reports. -/
theorem smemLen_eq (barSize : ℕ) (t : VmMapType) :
    smemLen barSize t = getBufferSize barSize t.toInt := by
  rw [getBufferSize, ofInt_toInt]
  cases t <;> rfl

theorem smem_types (barSize : ℕ) : (smem barSize).map Region.type = [0, 1, 2, 3, 4, 5] := rfl

/-- Only the types of the table have a size. -/
theorem mem_types_of_getBufferSize {barSize : ℕ} {type : ℤ} (h : 0 < getBufferSize barSize type) :
    type ∈ (smem barSize).map Region.type := by
  unfold getBufferSize at h
  have hsome : ∃ t, VmMapType.ofInt type = some t := by
    cases hof : VmMapType.ofInt type with
    | none => simp [hof] at h
    | some t => exact ⟨t, rfl⟩
  obtain ⟨t, ht⟩ := hsome
  rw [← toInt_of_ofInt ht, smem_types]
  cases t <;> decide

end Sfc7120.Capio

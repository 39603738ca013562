import Sfc7120.Lib.Paging
import Sfc7120.Lib.Sealing
import Sfc7120.Capio.Regions
import Sfc7120.Attach.Firmware

/-! Page faults on the shared regions. `capio_pager_fault` has no bounds check of its own: what it
installs stays inside a region because the allocation sizes, the table attach fills in and the
size a mapping is admitted with agree. -/
namespace Sfc7120.Pager

open Paging Sealing Capio Attach Mcdi

def pageSize : ℕ := 4096

/-- The size each DMA allocation is made with. -/
def dmaSize : DmaBuf → ℕ
  | .mcdi => mcdiHeaderLen + mcdiPayloadLenMaxV1
  | .evq => numEvqEntry * evqEntrySize
  | .dataEvq => numEvqEntry * evqEntrySize
  | .txDesc => numTxDesc * txDescSize
  | .rxDesc => numRxDesc * rxDescSize
  | .txBuffer => numTxDesc * txBufferSize
  | .rxBuffer => numRxDesc * rxBufferSize

/-- Where attach finds its memory: the DMA allocations and the BAR, the kernel addresses in use
(theirs and all others), and `pmap_kextract`. Every kernel page in use has a frame of its own. -/
structure Layout where
  vaddr : DmaBuf → ℕ
  barStart : ℕ
  barSize : ℕ
  used : ℕ → Prop
  kextract : ℕ → ℕ
  kextract_pages : PageByPage pageSize kextract
  /-- The mailbox is aligned to 256 bytes only, and may share its page. -/
  aligned : ∀ b, b ≠ .mcdi → pageSize ∣ vaddr b
  apart : ∀ b c va, InRange (vaddr b) (dmaSize b) va → InRange (vaddr c) (dmaSize c) va → b = c
  inUse : ∀ b va, InRange (vaddr b) (dmaSize b) va → used va
  ownFrame : ∀ va va', used va → used va' →
    kextract (va / pageSize * pageSize) = kextract (va' / pageSize * pageSize) →
    va / pageSize = va' / pageSize
  barPages : pageSize ∣ barSize
  barApart : ∀ va, used va → ¬ InRange barStart barSize (kextract va)

/-- The part of `shared_mem_region_t` the pager reads; attach writes it once. -/
structure SharedMemRegion where
  type : ℤ
  isPhysical : Bool
  addr : ℕ
  paddr : ℕ

section
variable (L : Layout)

def virtualRegion (t : VmMapType) (b : DmaBuf) : SharedMemRegion := ⟨t.toInt, false, L.vaddr b, 0⟩

/-- `smem[]`, in the order of `sfc7120_vm_map_type_t`. -/
def smemTable : List SharedMemRegion :=
  [virtualRegion L .txBuffer .txBuffer,
   virtualRegion L .rxBuffer .rxBuffer,
   ⟨VmMapType.mmioRegion.toInt, true, 0, L.barStart⟩,
   virtualRegion L .txDescRing .txDesc,
   virtualRegion L .rxDescRing .rxDesc,
   virtualRegion L .evqRing .dataEvq]

end

inductive MemAttr where
  | default | device
  deriving DecidableEq

/-- A page of a pager object. -/
structure Page where
  pindex : ℕ
  fictitious : Bool
  physAddr : ℕ
  memattr : MemAttr
  valid : Bool
  deriving DecidableEq

/-- `capio_pager_fault`; `none` is `VM_PAGER_BAD`. A fictitious page is updated in place, any
other replaced by a fictitious one at its index: the page left there is the same. -/
def capioPagerFault (kextract : ℕ → ℕ) (regs : List SharedMemRegion) (type : ℤ) (offset : ℕ)
    (mres : Page) : Option Page :=
  match regs.find? (fun smem => smem.type = type) with
  | none => none
  | some smem =>
      let paddr := if smem.isPhysical then smem.paddr + offset else kextract (smem.addr + offset)
      let memattr := if smem.isPhysical then MemAttr.device else .default
      some ⟨mres.pindex, true, paddr, memattr, true⟩

/-- The allocation a region is meant to share; the MMIO region shares the BAR. -/
def backing : VmMapType → Option DmaBuf
  | .txBuffer => some .txBuffer
  | .rxBuffer => some .rxBuffer
  | .mmioRegion => none
  | .txDescRing => some .txDesc
  | .rxDescRing => some .rxDesc
  | .evqRing => some .dataEvq

/-- The page of a region at an offset. -/
def Layout.page (L : Layout) (t : VmMapType) (offset : ℕ) : ℕ :=
  match backing t with
  | some b => L.kextract (L.vaddr b + offset)
  | none => L.barStart + offset

/-- The bytes of physical memory a region is meant to share. -/
def Layout.Owns (L : Layout) (t : VmMapType) (x : ℕ) : Prop :=
  match backing t with
  | some b => ∃ va, InRange (L.vaddr b) (dmaSize b) va ∧ L.kextract va = x
  | none => InRange L.barStart L.barSize x

/-- The fault at a page offset below the region's size. -/
def Layout.Faults (L : Layout) (t : VmMapType) (offset : ℕ) (page : Page) : Prop :=
  pageSize ∣ offset ∧ offset < getBufferSize L.barSize t.toInt ∧
    ∃ mres, capioPagerFault L.kextract (smemTable L) t.toInt offset mres = some page

/-- What a page installed at an offset of a region gives access to. -/
structure Confined (L : Layout) (t : VmMapType) (offset : ℕ) (page : Page) : Prop where
  own : page.physAddr = L.page t offset
  within : ∀ x, InRange page.physAddr pageSize x → L.Owns t x
  distinct : ∀ t' offset' page', L.Faults t' offset' page' → (t', offset') ≠ (t, offset) →
    ∀ x, InRange page.physAddr pageSize x → ¬ InRange page'.physAddr pageSize x
  /-- No page shows memory of the control queue or of the mailbox. -/
  control : ∀ b va, b = .evq ∨ b = .mcdi → InRange (L.vaddr b) (dmaSize b) va →
    ¬ InRange page.physAddr pageSize (L.kextract va)
  /-- Nor any other memory of the kernel. -/
  kernel : ∀ va, L.used va → (∀ b ∈ backing t, ¬ InRange (L.vaddr b) (dmaSize b) va) →
    ¬ InRange page.physAddr pageSize (L.kextract va)

section
variable {L : Layout} {t t' : VmMapType} {b c : DmaBuf} {offset offset' va va' x : ℕ}

/-- The table sends each type to the memory it is meant to share. -/
theorem capioPagerFault_eq (L : Layout) (t : VmMapType) (offset : ℕ) (mres : Page) :
    capioPagerFault L.kextract (smemTable L) t.toInt offset mres =
      some ⟨mres.pindex, true, L.page t offset, if t = .mmioRegion then .device else .default,
        true⟩ := by
  cases t <;> rfl

/-- A mapping is admitted with the size the allocation was made with. -/
theorem getBufferSize_backing (barSize : ℕ) (h : backing t = some b) :
    getBufferSize barSize t.toInt = dmaSize b := by
  rw [getBufferSize, ofInt_toInt]
  cases t <;> cases h <;> rfl

theorem getBufferSize_mmio (barSize : ℕ) (h : backing t = none) :
    getBufferSize barSize t.toInt = barSize := by
  rw [getBufferSize, ofInt_toInt]
  cases t <;> cases h
  rfl

/-- What is shared is neither the control queue nor the mailbox. -/
theorem backing_ne (h : backing t = some b) : b ≠ .evq ∧ b ≠ .mcdi := by
  cases t <;> cases h <;> decide

theorem backing_injective (h : backing t = backing t') : t = t' := by
  cases t <;> cases t' <;> first | rfl | cases h

theorem dmaSize_pages (h : b ≠ .mcdi) : pageSize ∣ dmaSize b := by
  cases b
  case mcdi => exact absurd rfl h
  all_goals decide

theorem Layout.page_buffer (L : Layout) (h : backing t = some b) :
    L.page t offset = L.kextract (L.vaddr b + offset) := by
  rw [Layout.page, h]

theorem Layout.page_bar (L : Layout) (h : backing t = none) :
    L.page t offset = L.barStart + offset := by
  rw [Layout.page, h]

/-- Kernel addresses in use are told apart by their physical addresses. -/
theorem Layout.kextract_inj (L : Layout) (hva : L.used va) (hva' : L.used va')
    (h : L.kextract va = L.kextract va') : va = va' := by
  obtain ⟨hpage, hmod⟩ := L.kextract_pages.eq_imp (by decide) h
  have hdiv := L.ownFrame va va' hva hva' hpage
  rw [← Nat.div_add_mod va pageSize, ← Nat.div_add_mod va' pageSize, hdiv, hmod]

/-- Where a byte of a page of an allocation comes from. -/
theorem Layout.exists_of_page (L : Layout) (hb : backing t = some b)
    (hdvd : pageSize ∣ offset) (hx : InRange (L.page t offset) pageSize x) :
    ∃ va, InRange (L.vaddr b + offset) pageSize va ∧ L.kextract va = x := by
  rw [L.page_buffer hb] at hx
  have hvaddr : pageSize ∣ L.vaddr b := L.aligned b (backing_ne hb).2
  exact L.kextract_pages.exists_of_inRange (by decide) (Nat.dvd_add hvaddr hdvd) hx

/-- The page at an offset below an allocation's size is a page of that allocation. -/
theorem Layout.inRange_buffer (L : Layout) (hb : backing t = some b) (hdvd : pageSize ∣ offset)
    (hoff : offset < getBufferSize L.barSize t.toInt)
    (hva : InRange (L.vaddr b + offset) pageSize va) : InRange (L.vaddr b) (dmaSize b) va := by
  rw [getBufferSize_backing _ hb] at hoff
  exact inRange_of_page (dmaSize_pages (backing_ne hb).2) hdvd hoff hva

theorem Layout.inRange_bar (L : Layout) (hb : backing t = none) (hdvd : pageSize ∣ offset)
    (hoff : offset < getBufferSize L.barSize t.toInt)
    (hx : InRange (L.page t offset) pageSize x) : InRange L.barStart L.barSize x := by
  rw [getBufferSize_mmio _ hb] at hoff
  rw [L.page_bar hb] at hx
  exact inRange_of_page L.barPages hdvd hoff hx

/-- A page gives access to its region's memory. -/
theorem Layout.owns_of_page (L : Layout) (hdvd : pageSize ∣ offset)
    (hoff : offset < getBufferSize L.barSize t.toInt)
    (hx : InRange (L.page t offset) pageSize x) : L.Owns t x := by
  unfold Layout.Owns
  cases hb : backing t with
  | none => exact L.inRange_bar hb hdvd hoff hx
  | some b =>
    obtain ⟨va, hva, rfl⟩ := L.exists_of_page hb hdvd hx
    exact ⟨va, L.inRange_buffer hb hdvd hoff hva, rfl⟩

/-- Kernel memory a region owns is in its allocation. -/
theorem Layout.mem_of_owns (L : Layout) (hused : L.used va) (h : L.Owns t (L.kextract va)) :
    ∃ b ∈ backing t, InRange (L.vaddr b) (dmaSize b) va := by
  unfold Layout.Owns at h
  cases hb : backing t with
  | none =>
    rw [hb] at h
    exact absurd h (L.barApart va hused)
  | some b =>
    rw [hb] at h
    obtain ⟨va', hva', heq⟩ := h
    obtain rfl := L.kextract_inj (L.inUse b va' hva') hused heq
    exact ⟨b, rfl, hva'⟩

/-- No byte belongs to two regions. -/
theorem Layout.owns_unique (L : Layout) (h : L.Owns t x) (h' : L.Owns t' x) : t = t' := by
  cases hb : backing t with
  | some b =>
    rw [Layout.Owns, hb] at h
    obtain ⟨va, hva, rfl⟩ := h
    obtain ⟨b', hb', hva'⟩ := L.mem_of_owns (L.inUse b va hva) h'
    obtain rfl := L.apart b b' va hva hva'
    exact backing_injective (hb.trans hb'.symm)
  | none =>
    cases hb' : backing t' with
    | none => exact backing_injective (hb.trans hb'.symm)
    | some b' =>
      rw [Layout.Owns, hb'] at h'
      obtain ⟨va, hva, rfl⟩ := h'
      rw [Layout.Owns, hb] at h
      exact absurd h (L.barApart va (L.inUse b' va hva))

/-- Nor to two pages of one region. -/
theorem Layout.page_unique (L : Layout) (hdvd : pageSize ∣ offset) (hdvd' : pageSize ∣ offset')
    (hoff : offset < getBufferSize L.barSize t.toInt)
    (hoff' : offset' < getBufferSize L.barSize t.toInt)
    (hx : InRange (L.page t offset) pageSize x) (hx' : InRange (L.page t offset') pageSize x) :
    offset = offset' := by
  cases hb : backing t with
  | none =>
    rw [L.page_bar hb] at hx hx'
    obtain ⟨hlo, hhi⟩ := hx
    obtain ⟨hlo', hhi'⟩ := hx'
    exact eq_of_pages_meet (x := x - L.barStart) hdvd hdvd' ⟨by omega, by omega⟩
      ⟨by omega, by omega⟩
  | some b =>
    obtain ⟨va, hva, rfl⟩ := L.exists_of_page hb hdvd hx
    obtain ⟨va', hva', heq⟩ := L.exists_of_page hb hdvd' hx'
    have hused := L.inUse b va (L.inRange_buffer hb hdvd hoff hva)
    have hused' := L.inUse b va' (L.inRange_buffer hb hdvd' hoff' hva')
    obtain rfl := L.kextract_inj hused' hused heq
    have hvaddr : pageSize ∣ L.vaddr b := L.aligned b (backing_ne hb).2
    have hsame := eq_of_pages_meet (Nat.dvd_add hvaddr hdvd) (Nat.dvd_add hvaddr hdvd') hva hva'
    exact Nat.add_left_cancel hsame

theorem Layout.physAddr_of_faults {page : Page} (h : L.Faults t offset page) :
    page.physAddr = L.page t offset := by
  obtain ⟨-, -, mres, hfault⟩ := h
  rw [capioPagerFault_eq] at hfault
  obtain rfl := Option.some.inj hfault
  rfl

theorem Layout.confined_of_faults {page : Page} (h : L.Faults t offset page) :
    Confined L t offset page := by
  have hphys := Layout.physAddr_of_faults h
  obtain ⟨hdvd, hoff, -⟩ := h
  have howns : ∀ x, InRange page.physAddr pageSize x → L.Owns t x := by
    intro x hx
    rw [hphys] at hx
    exact L.owns_of_page hdvd hoff hx
  refine ⟨hphys, howns, ?_, ?_, ?_⟩
  · intro t' offset' page' h' hne x hx hx'
    have hphys' := Layout.physAddr_of_faults h'
    obtain ⟨hdvd', hoff', -⟩ := h'
    rw [hphys'] at hx'
    obtain rfl := L.owns_unique (howns x hx) (L.owns_of_page hdvd' hoff' hx')
    rw [hphys] at hx
    rw [L.page_unique hdvd hdvd' hoff hoff' hx hx'] at hne
    exact hne rfl
  · intro c va hc hva hx
    obtain ⟨b, hb, hva'⟩ := L.mem_of_owns (L.inUse c va hva) (howns _ hx)
    obtain rfl := L.apart c b va hva hva'
    obtain ⟨hevq, hmcdi⟩ := backing_ne hb
    exact hc.elim hevq hmcdi
  · intro va hused hout hx
    obtain ⟨b, hb, hva⟩ := L.mem_of_owns hused (howns _ hx)
    exact hout b hb hva

end

section
variable {Cap : Type*} {C : Ops Cap} {barSize : ℕ} {dying : Bool}
  {req : MapReq Cap}

/-- An admitted mapping is as large as its region. -/
theorem size_of_mmapValidate (h : mmapValidate C (getBufferSize barSize) dying req = none) :
    req.size = getBufferSize barSize req.mapType := by
  unfold mmapValidate at h
  split_ifs at h with _ _ _ _ hsize
  exact not_not.mp hsize

/-- Every fault at a page offset below the size of an admitted mapping installs a page, and the
page is confined to the memory of the region that was mapped. -/
theorem page_fault_confined (L : Layout) {offset : ℕ} (mres : Page)
    (haccepted : mmapValidate C (getBufferSize L.barSize) dying req = none)
    (hdvd : pageSize ∣ offset) (hoff : offset < req.size) :
    ∃ t page, t.toInt = req.mapType ∧
      capioPagerFault L.kextract (smemTable L) req.mapType offset mres = some page ∧
      Confined L t offset page := by
  rw [size_of_mmapValidate haccepted] at hoff
  have htype := mem_types_of_getBufferSize (Nat.zero_lt_of_lt hoff)
  obtain ⟨t, ht⟩ : ∃ t : VmMapType, t.toInt = req.mapType := by
    rw [Capio.smem, List.map_map, List.mem_map] at htype
    obtain ⟨t, -, ht⟩ := htype
    exact ⟨t, ht⟩
  rw [← ht] at hoff ⊢
  have hfault := capioPagerFault_eq L t offset mres
  exact ⟨t, _, rfl, hfault, Layout.confined_of_faults ⟨hdvd, hoff, mres, hfault⟩⟩

end

/-- A placement at fixed addresses. -/
def flatVaddr : DmaBuf → ℕ
  | .mcdi => 0x300100
  | .evq => 0
  | .dataEvq => 0x1000
  | .txDesc => 0x2000
  | .rxDesc => 0x3000
  | .txBuffer => 0x100000
  | .rxBuffer => 0x200000

theorem flatVaddr_aligned (b : DmaBuf) (h : b ≠ .mcdi) : pageSize ∣ flatVaddr b := by
  cases b
  case mcdi => exact absurd rfl h
  all_goals decide

theorem flatVaddr_apart (b c : DmaBuf) (va : ℕ) (hb : InRange (flatVaddr b) (dmaSize b) va)
    (hc : InRange (flatVaddr c) (dmaSize c) va) : b = c := by
  have hsep : b = c ∨ flatVaddr b + dmaSize b ≤ flatVaddr c ∨
      flatVaddr c + dmaSize c ≤ flatVaddr b := by
    cases b <;> cases c <;> decide
  obtain ⟨hlo, hhi⟩ := hb
  obtain ⟨hlo', hhi'⟩ := hc
  rcases hsep with heq | hbelow | habove
  · exact heq
  · omega
  · omega

theorem flatVaddr_lt (b : DmaBuf) (va : ℕ) (h : InRange (flatVaddr b) (dmaSize b) va) :
    va < 0x400000 := by
  have hend : flatVaddr b + dmaSize b ≤ 0x400000 := by cases b <;> decide
  exact Nat.lt_of_lt_of_le h.2 hend

theorem flat_ownFrame (va va' : ℕ) (h : 0x80000000 + va / pageSize * pageSize =
    0x80000000 + va' / pageSize * pageSize) : va / pageSize = va' / pageSize :=
  Nat.eq_of_mul_eq_mul_right (by decide) (Nat.add_left_cancel h)

theorem flat_barApart (va : ℕ) : ¬ InRange 0x1000 0x800000 (0x80000000 + va) := by
  rintro ⟨-, hlt⟩
  omega

/-- The kernel's memory mapped at one distance, above the BAR. -/
def flatLayout : Layout where
  vaddr := flatVaddr
  barStart := 0x1000
  barSize := 0x800000
  used va := va < 0x400000
  kextract va := 0x80000000 + va
  kextract_pages := pageByPage_add ⟨0x80000, rfl⟩
  aligned := flatVaddr_aligned
  apart := flatVaddr_apart
  inUse := flatVaddr_lt
  ownFrame va va' _ _ := flat_ownFrame va va'
  barPages := ⟨0x800, rfl⟩
  barApart va _ := flat_barApart va

def rxBufferReq : MapReq MorelloCap where
  sealedCap := ⟨true, 0x1234, 0x1000⟩
  userCap := ⟨true, 0, 0x1000⟩
  mapType := VmMapType.rxBuffer.toInt
  size := 0x100000
  offset := 0
  capProt := false

/-- The last page of the receive buffer. -/
theorem page_fault_confined_rxBuffer :
    mmapValidate (morello 0x1234) (getBufferSize flatLayout.barSize) false rxBufferReq = none ∧
    ∃ t page, t.toInt = rxBufferReq.mapType ∧
      capioPagerFault flatLayout.kextract (smemTable flatLayout) rxBufferReq.mapType 0xff000
        ⟨255, false, 0, .default, false⟩ = some page ∧
      Confined flatLayout t 0xff000 page := by
  have haccepted : mmapValidate (morello 0x1234) (getBufferSize flatLayout.barSize) false
      rxBufferReq = none := by decide
  exact ⟨haccepted, page_fault_confined flatLayout _ haccepted (by decide) (by decide)⟩

end Sfc7120.Pager

import Sfc7120.Lib.Ownership
import Sfc7120.Lib.AddressMap
import Sfc7120.Capio.Calls
import Sfc7120.Capio.System

/-! Opening and closing a handle: `sfc7120_init` and `sfc7120_destroy`, call by call, over the
CAPIO state of each device and what the operating system hands out. Any number of handles, each on
its own device, in any number of single-threaded processes. -/
namespace Sfc7120.Capio.Userlib

open Sealing Machine AddressMap Ownership

/-- A descriptor or a heap block of a process. -/
inductive Res where
  | fd (proc n : ℕ)
  | block (proc p : ℕ)
  deriving DecidableEq

def Res.proc : Res → ℕ
  | .fd proc _ => proc
  | .block proc _ => proc

/-- What a map entry is backed by: a region of the device of handle `i`, or anything else. -/
inductive Backing (ι : Type*) where
  | region (i : ι) (t : VmMapType)
  | other
  deriving DecidableEq

/-- `sfc7120_if_t` as far as opening and closing go. `none` is `-1` for a descriptor and `NULL` for
a pointer. -/
structure Handle (Cap : Type*) where
  fd : Option ℕ
  modmapFd : Option ℕ
  /-- The two fields of `cap_req`. -/
  userCap : Cap
  sealedCap : Cap
  /-- `tx_buffer`, `rx_buffer`, `tx_desc_ring`, `rx_desc_ring` and `evq_ring`. -/
  buffers : VmMapType → Option ℕ
  mmioSlices : Option ℕ
  mmioSlicesLen : ℕ
  viInfoValid : Bool
  usedPoll : Bool
  regionMaps : VmMapType → Option (ℕ × ℕ)
  capToken : Option ℕ

/-- Where `sfc7120_init` is. In `map_region`, `t` is being mapped and `ts` come after it. -/
inductive InitPc where
  | openDev
  | openModmap
  | mallocToken
  | attach
  | getSlices (t : VmMapType) (ts : List VmMapType)
  | callocSlices (t : VmMapType) (ts : List VmMapType) (sizes : RegionSizes)
  | map (t : VmMapType) (ts : List VmMapType) (sizes : RegionSizes) (slices : Option ℕ)
  | getViInfo
  | getMac
  deriving DecidableEq

/-- Where `sfc7120_destroy` is. -/
inductive DestroyPc where
  | unmap (ts : List VmMapType)
  | syncRptr
  | goodbye
  | freeSlices
  | freeToken
  | closeModmap
  | closeFd
  deriving DecidableEq

inductive Pc where
  | idle
  | initing (p : InitPc)
  | opened
  | destroying (p : DestroyPc)
  deriving DecidableEq

def Pc.busy : Pc → Bool
  | .idle => false
  | .opened => false
  | _ => true

/-- The order in which `sfc7120_init` maps the regions. -/
def mapOrder : List VmMapType :=
  [.txBuffer, .rxBuffer, .txDescRing, .rxDescRing, .evqRing, .mmioRegion]

def nextMap : List VmMapType → InitPc
  | [] => .getViInfo
  | t :: ts => .getSlices t ts

structure Client (Cap : Type*) where
  handle : Handle Cap
  pc : Pc

structure Sys (ι Cap : Type*) where
  sc : ι → Softc Cap
  space : List (Entry (Backing ι))
  own : Holdings Res (Option ι)
  /-- What the rest of the processes holds. -/
  others : List Res
  client : ι → Client Cap
  /-- The handle a process is in a call for. -/
  running : ℕ → Option ι
  /-- Something was used or given back by a handle it did not belong to. -/
  stray : Bool

/-- What a call of the library gets back from the operating system. `place` is an mmap that
reaches the driver: what it meets there, and where the object goes, if the map has room. -/
inductive Ans (Cap : Type*) where
  | ok
  | failed
  | descriptor (n : ℕ)
  | memory (p : ℕ) (u : Cap)
  | place (env : MmapEnv) (base : Option ℕ)

/-- The operating system gives what it is asked for. -/
def Ans.granted {Cap : Type*} : Ans Cap → Bool
  | .failed => false
  | .place env base => env.handle && env.object && base.isSome
  | _ => true

inductive Act (ι Cap : Type*) where
  | init (i : ι)
  | destroy (i : ι)
  /-- A data path call on an open handle. -/
  | session (i : ι) (polls : Bool)
  | call (i : ι) (a : Ans Cap)
  | othersTake (r : Res)
  | othersDrop (r : Res)
  | mapOther (proc start len : ℕ)
  | unmapOther (proc start len : ℕ)

section
variable {Cap : Type*}

/-- A handle with every field zero. -/
def Handle.zero (C : Ops Cap) : Handle Cap where
  fd := none
  modmapFd := none
  userCap := C.null
  sealedCap := C.null
  buffers _ := none
  mmioSlices := none
  mmioSlicesLen := 0
  viInfoValid := false
  usedPoll := false
  regionMaps _ := none
  capToken := none

/-- The fields `sfc7120_init` starts with; `cap_req` and `cap_token` are left alone. -/
def Handle.reset (h : Handle Cap) : Handle Cap :=
  { h with
    fd := none
    modmapFd := none
    buffers := fun _ => none
    mmioSlices := none
    mmioSlicesLen := 0
    viInfoValid := false
    usedPoll := false
    regionMaps := fun _ => none }

/-- The record `map_region` leaves, and the pointer `sfc7120_init` makes of its result. -/
def Handle.mapped (h : Handle Cap) (t : VmMapType) (sizes : RegionSizes) (slices : Option ℕ)
    (base : ℕ) : Handle Cap :=
  { h with
    regionMaps := Function.update h.regionMaps t (some (base, sizes.regionLength))
    buffers := if t = .mmioRegion then h.buffers else Function.update h.buffers t (some base)
    mmioSlices := if t = .mmioRegion then slices else h.mmioSlices
    mmioSlicesLen := if t = .mmioRegion then sizes.sliceDefLength else h.mmioSlicesLen }

end

section
variable {ι : Type*} [DecidableEq ι]

def Backing.isOf (i : ι) : Backing ι → Bool
  | .region j _ => j = i
  | .other => false

/-- Some address is backed by the region. -/
def backs (space : List (Entry (Backing ι))) (i : ι) (t : VmMapType) : Bool :=
  space.any fun e => e.backing = .region i t

/-- The regions of a device that lost their last mapping. -/
def lost (before after : List (Entry (Backing ι))) (i : ι) : List ℤ :=
  (VmMapType.all.filter fun t => backs before i t && !backs after i t).map VmMapType.toInt

variable {Cap : Type*} (proc : ι → ℕ) (s : Sys ι Cap) (i : ι)

def fdOf (o : Option ℕ) : List Res := o.toList.map (.fd (proc i))

def blockOf (o : Option ℕ) : List Res := o.toList.map (.block (proc i))

def Sys.set (h : Handle Cap) (pc : Pc) : Sys ι Cap :=
  { s with
    client := Function.update s.client i ⟨h, pc⟩
    running := Function.update s.running (proc i) (if pc.busy then some i else none) }

/-- `goto fail`, which calls `sfc7120_destroy`. -/
def Sys.fail (h : Handle Cap) : Sys ι Cap :=
  s.set proc i h (.destroying (.unmap VmMapType.all))

def Sys.setSc (sc : Softc Cap) : Sys ι Cap := { s with sc := Function.update s.sc i sc }

def Sys.touch (rs : List Res) : Sys ι Cap :=
  { s with stray := s.stray || !rs.all fun r => s.own r = some (some i) }

def Sys.take (rs : List Res) : Sys ι Cap := { s with own := s.own.grant (some i) rs }

def Sys.drop (rs : List Res) : Sys ι Cap :=
  { s with
    own := s.own.revoke rs
    stray := s.stray || !rs.all fun r => s.own r = some (some i) }

/-- A range leaves the address map; objects that lose their last mapping are destroyed. -/
def Sys.unmapRange (base len : ℕ) : Sys ι Cap :=
  let space := remove s.space (proc i) base len
  { s with
    space := space
    sc := fun j => (lost s.space space j).foldl pagerDtor (s.sc j)
    stray := s.stray ||
      s.space.any fun e => decide (e.Meets (proc i) base len) && !e.backing.isOf i }

/-- One round of the loop of `revoke_cap_token`; a mapping that is found is removed. -/
def Sys.revokeRegion (k : ℕ) : Sys ι Cap :=
  match (s.sc i).sharedMemRegs[k]? with
  | none => s
  | some smem =>
      if smem.offset ≠ 0 then
        let t :=
          if lookup s.space (proc i) smem.offset then s.unmapRange proc i smem.offset smem.len
          else s
        t.setSc i (clearOffset (t.sc i) k)
      else s

/-- What the address map makes of the removal of a recorded range. -/
def Sys.vmAnswer (offset len : ℕ) : VmAnswer :=
  if lookup s.space (proc i) offset then
    .removed (lost s.space (remove s.space (proc i) offset len) i)
  else .lookupFails

/-- The device goes through the round of `revoke_cap_token` with the answer of the address map. -/
theorem revokeRegion_sc {k : ℕ} {smem : Region} (hsmem : (s.sc i).sharedMemRegs[k]? = some smem) :
    (s.revokeRegion proc i k).sc i = (Capio.revokeRegion
      (fun _ => s.vmAnswer proc i smem.offset smem.len) ⟨s.sc i, none, [], []⟩ k).sc := by
  simp only [Sys.revokeRegion, Capio.revokeRegion, hsmem]
  by_cases hoff : smem.offset = 0
  · simp [hoff]
  · cases hfound : lookup s.space (proc i) smem.offset <;>
      simp [hoff, hfound, Sys.setSc, Sys.vmAnswer, Sys.unmapRange, deleteMappingFromUser,
        VmAnswer.dtors, VmAnswer.result]

/-- `revoke_cap_token`. -/
def Sys.revoke (C : Ops Cap) : Sys ι Cap :=
  (List.range (s.sc i).sharedMemRegs.length).foldl (fun t k => t.revokeRegion proc i k)
    (s.setSc i (clearCapToken C (s.sc i)))

variable [DecidableEq Cap] (C : Ops Cap) (barSize : ℕ)

/-- The mmap of `map_region` in the kernel: the driver's part, modmap's insertion and its report to
the driver. Nothing detaches the driver meanwhile. -/
def Sys.mapCall (h : Handle Cap) (t : VmMapType) (ts : List VmMapType) (sizes : RegionSizes)
    (slices : Option ℕ) (env : MmapEnv) (base : Option ℕ) : Option (Sys ι Cap) :=
  let req : MapReq Cap := ⟨h.sealedCap, h.userCap, t.toInt, sizes.regionLength, 0, false⟩
  if env.dyingFirst || env.dyingLast then none
  else
    let r := mmapSingleExtra C (getBufferSize barSize) env ⟨s.sc i, false⟩ (some req)
    match r.2, base with
    | some _, _ => some (((s.setSc i r.1.sc).drop i (blockOf proc i slices)).fail proc i h)
    | none, none =>
        -- the object goes with its only reference
        some (((s.setSc i (pagerDtor r.1.sc t.toInt)).drop i (blockOf proc i slices)).fail proc i h)
    | none, some b =>
        if b ≠ 0 ∧ Free s.space (proc i) b sizes.regionLength then
          let u := s.setSc i (vaddrCallback r.1.sc t.toInt b sizes.regionLength)
          let e : Entry (Backing ι) := ⟨proc i, b, sizes.regionLength, .region i t⟩
          some ({ u with space := e :: s.space }.set proc i (h.mapped t sizes slices b)
            (.initing (nextMap ts)))
        else none

def Sys.initStep (h : Handle Cap) : InitPc → Ans Cap → Option (Sys ι Cap)
  | .openDev, .descriptor n =>
      if s.own (.fd (proc i) n) = none then
        some ((s.take i [.fd (proc i) n]).set proc i { h with fd := some n } (.initing .openModmap))
      else none
  | .openDev, .failed => some (s.set proc i h .idle)
  | .openModmap, .descriptor n =>
      if s.own (.fd (proc i) n) = none then
        some ((s.take i [.fd (proc i) n]).set proc i { h with modmapFd := some n }
          (.initing .mallocToken))
      else none
  | .openModmap, .failed => some (s.fail proc i h)
  | .mallocToken, .memory p u =>
      if s.own (.block (proc i) p) = none ∧ C.isNull u = false ∧ C.tag u = true ∧
          C.isSealed u = false then
        some ((s.take i [.block (proc i) p]).set proc i { h with capToken := some p, userCap := u }
          (.initing .attach))
      else none
  | .mallocToken, .failed => some (s.fail proc i { h with capToken := none })
  | .attach, .ok =>
      let s := s.touch i (fdOf proc i h.fd)
      match setCapToken C (s.sc i) h.userCap with
      | .ok (sc, token) =>
          some ((s.setSc i sc).set proc i { h with sealedCap := token }
            (.initing (nextMap mapOrder)))
      | .error _ => some (s.fail proc i h)
  | .getSlices t ts, .ok =>
      let s := s.touch i (fdOf proc i h.modmapFd ++ fdOf proc i h.fd)
      let sizes := sliceLengthCallback (s.sc i) t.toInt
      if sizes.regionLength = 0 then some (s.fail proc i h)
      else if t = .mmioRegion then some (s.set proc i h (.initing (.callocSlices t ts sizes)))
      else if sizes.sliceDefLength ≠ 0 then some (s.fail proc i h)
      else some (s.set proc i h (.initing (.map t ts sizes none)))
  | .getSlices .., .failed => some (s.fail proc i h)
  | .callocSlices t ts sizes, .memory p _ =>
      if s.own (.block (proc i) p) = none then
        some ((s.take i [.block (proc i) p]).set proc i h (.initing (.map t ts sizes (some p))))
      else none
  | .callocSlices .., .failed => some (s.fail proc i h)
  | .map t ts sizes slices, .place env base =>
      (s.touch i (fdOf proc i h.modmapFd ++ fdOf proc i h.fd ++ blockOf proc i slices)).mapCall
        proc i C barSize h t ts sizes slices env base
  | .map _ _ _ slices, .failed => some ((s.drop i (blockOf proc i slices)).fail proc i h)
  | .getViInfo, .ok =>
      let s := s.touch i (fdOf proc i h.fd)
      match checkCapToken C (s.sc i) h.sealedCap with
      | none => some (s.set proc i { h with viInfoValid := true } (.initing .getMac))
      | some _ => some (s.fail proc i h)
  | .getMac, .ok =>
      let s := s.touch i (fdOf proc i h.fd)
      match checkCapToken C (s.sc i) h.sealedCap with
      | none => some (s.set proc i h .opened)
      | some _ => some (s.fail proc i h)
  | _, _ => none

/-- The destructor of a handle goes on whatever its calls return; only munmap's answer is looked
at, and it only decides what is printed. -/
def Sys.destroyStep (h : Handle Cap) : DestroyPc → Ans Cap → Option (Sys ι Cap)
  | .unmap [], .ok =>
      some (s.set proc i { h with buffers := fun _ => none } (.destroying .syncRptr))
  | .unmap (t :: ts), a =>
      let cleared := { h with regionMaps := Function.update h.regionMaps t none }
      match h.regionMaps t, a with
      | none, .ok => some (s.set proc i h (.destroying (.unmap ts)))
      | some (base, len), .ok =>
          some ((s.unmapRange proc i base len).set proc i cleared (.destroying (.unmap ts)))
      | some _, .failed => some (s.set proc i cleared (.destroying (.unmap ts)))
      | _, _ => none
  | .syncRptr, .ok =>
      let used := if h.viInfoValid && h.usedPoll then fdOf proc i h.fd else []
      some ((s.touch i used).set proc i h (.destroying .goodbye))
  | .goodbye, .ok =>
      let s := s.touch i (fdOf proc i h.fd)
      let t :=
        if h.fd.isSome then
          match checkCapToken C (s.sc i) h.sealedCap with
          | none => s.revoke proc i C
          | some _ => s
        else s
      some (t.set proc i h (.destroying .freeSlices))
  | .freeSlices, .ok =>
      let h' := if h.mmioSlices.isSome then { h with mmioSlices := none, mmioSlicesLen := 0 } else h
      some ((s.drop i (blockOf proc i h.mmioSlices)).set proc i h' (.destroying .freeToken))
  | .freeToken, .ok =>
      some ((s.drop i (blockOf proc i h.capToken)).set proc i { h with capToken := none }
        (.destroying .closeModmap))
  | .closeModmap, .ok =>
      some ((s.drop i (fdOf proc i h.modmapFd)).set proc i h (.destroying .closeFd))
  | .closeFd, .ok =>
      -- the last close of the device: `sfc7120_close` revokes once more
      let t := if h.fd.isSome then s.revoke proc i C else s
      some ((t.drop i (fdOf proc i h.fd)).set proc i h .idle)
  | _, _ => none

/-- The memory a data path call goes to is there. -/
def Sys.reaches (h : Handle Cap) : Bool :=
  VmMapType.all.all fun t => (h.regionMaps t).all fun m =>
    s.space.any fun e => e = ⟨proc i, m.1, m.2, .region i t⟩

def step (s : Sys ι Cap) : Act ι Cap → Option (Sys ι Cap)
  | .init i =>
      if (s.client i).pc = .idle ∧ s.running (proc i) = none then
        some (s.set proc i (s.client i).handle.reset (.initing .openDev))
      else none
  | .destroy i =>
      if (s.client i).pc = .opened ∧ s.running (proc i) = none then
        some (s.set proc i (s.client i).handle (.destroying (.unmap VmMapType.all)))
      else none
  | .session i polls =>
      let h := (s.client i).handle
      if (s.client i).pc = .opened ∧ s.running (proc i) = none then
        let t := s.touch i (fdOf proc i h.fd ++ blockOf proc i h.mmioSlices)
        some ({ t with stray := t.stray || !s.reaches proc i h }.set proc i
          { h with usedPoll := h.usedPoll || polls } .opened)
      else none
  | .call i a =>
      match (s.client i).pc with
      | .initing p => s.initStep proc i C barSize (s.client i).handle p a
      | .destroying p => s.destroyStep proc i C (s.client i).handle p a
      | _ => none
  | .othersTake r =>
      if s.own r = none ∧ s.running r.proc = none then
        some { s with own := s.own.grant none [r], others := r :: s.others }
      else none
  | .othersDrop r =>
      if r ∈ s.others ∧ s.running r.proc = none then
        some { s with own := s.own.revoke [r], others := s.others.erase r }
      else none
  | .mapOther proc start len =>
      if 0 < len ∧ Free s.space proc start len ∧ s.running proc = none then
        some { s with space := ⟨proc, start, len, .other⟩ :: s.space }
      else none
  | .unmapOther proc start len =>
      if (∀ e ∈ s.space, e.Meets proc start len → e.backing = .other) ∧ s.running proc = none then
        some { s with space := remove s.space proc start len }
      else none

/-- Freshly attached drivers, no handle open, nothing held. -/
def start (C : Ops Cap) (barSize : ℕ) : Sys ι Cap where
  sc _ := (Capio.start C (smem barSize)).sc
  space := []
  own _ := none
  others := []
  client _ := ⟨Handle.zero C, .idle⟩
  running _ := none
  stray := false

end

end Sfc7120.Capio.Userlib

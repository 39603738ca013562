import Sfc7120.Mcdi.Exec
import Sfc7120.Lib.Ladder
import Mathlib.Data.Finset.Filter

/-! Attach's world: the softc fields that bring-up writes, the objects the MC holds for this
function, the answers its commands get, and a log of the host resources taken, used and given
back. -/
namespace Sfc7120.Attach

open ByteMemory Mcdi Ladder

/-- The two event queues: instance 0 interrupts, instance 1 carries the data path's events. -/
inductive Evq where
  | control | data
  deriving DecidableEq, Repr

def Evq.inst : Evq → ℕ
  | .control => 0
  | .data => 1

/-- What the MC can hold for this function. -/
inductive McObject where
  | attachment | vis | vadaptor | evq (q : Evq) | rxq | txq | rxFilter
  deriving DecidableEq, Repr

inductive Op where
  | getVersion | drvAttach | drvDetach | getAsserts | entityReset | getMacAddresses
  | getPortAssignment | getFunctionInfo | getCapabilities | allocVis | freeVis | vadaptorAlloc
  | vadaptorFree | getPhyCfg | setMac | setLink | getLink | initEvq (q : Evq) | finiEvq (q : Evq)
  | initRxq | finiRxq | initTxq | finiTxq | filterInsert | filterRemove
  deriving DecidableEq, Repr

/-- Attaching and detaching are one command with a different argument, as are inserting and
removing a filter. -/
def Op.code : Op → BitVec 32
  | .getVersion => 0x08
  | .drvAttach | .drvDetach => 0x1c
  | .getAsserts => 0x06
  | .entityReset => 0x20
  | .getMacAddresses => 0x55
  | .getPortAssignment => 0xb8
  | .getFunctionInfo => 0xec
  | .getCapabilities => 0xbe
  | .allocVis => 0x8b
  | .freeVis => 0x8c
  | .vadaptorAlloc => 0x98
  | .vadaptorFree => 0x99
  | .getPhyCfg => 0x24
  | .setMac => 0x2c
  | .setLink => 0x2a
  | .getLink => 0x29
  | .initEvq _ => 0x80
  | .finiEvq _ => 0x83
  | .initRxq => 0x81
  | .finiRxq => 0x84
  | .initTxq => 0x82
  | .finiTxq => 0x85
  | .filterInsert | .filterRemove => 0x8a

/-- Length of the caller's output buffer. -/
def Op.outLen : Op → ℕ
  | .getVersion => 32
  | .drvAttach | .drvDetach => 8
  | .getAsserts => 140
  | .getMacAddresses => 16
  | .getPortAssignment => 4
  | .getFunctionInfo => 8
  | .getCapabilities => 20
  | .allocVis => 8
  | .getPhyCfg => 72
  | .getLink => 44
  | .initEvq _ => 4
  | .filterInsert => 12
  | _ => 0

inductive Kind where
  | creates (o : McObject) | releases (o : McObject) | resets | queries
  deriving DecidableEq, Repr

def Op.kind : Op → Kind
  | .drvAttach => .creates .attachment
  | .drvDetach => .releases .attachment
  | .allocVis => .creates .vis
  | .freeVis => .releases .vis
  | .vadaptorAlloc => .creates .vadaptor
  | .vadaptorFree => .releases .vadaptor
  | .initEvq q => .creates (.evq q)
  | .finiEvq q => .releases (.evq q)
  | .initRxq => .creates .rxq
  | .finiRxq => .releases .rxq
  | .initTxq => .creates .txq
  | .finiTxq => .releases .txq
  | .filterInsert => .creates .rxFilter
  | .filterRemove => .releases .rxFilter
  | .entityReset => .resets
  | _ => .queries

/-- What comes back for a command: a response without or with the ERROR bit, a response to
another command, or nothing before the time limit. -/
inductive Answer where
  | success (payload : List Byte) | error (payload : List Byte) | wrongSeq | silence
  deriving DecidableEq, Repr

/-- What `sfc7120_mcdi_exec` makes of the answer. -/
def Answer.result (a : Answer) (out : List Byte) : ExecResult :=
  match a with
  | .success payload =>
      ⟨none, payload.take out.length ++ List.replicate (out.length - payload.length) 0,
        some (min payload.length out.length)⟩
  | .error payload =>
      ⟨xlateErr (if 4 ≤ payload.length then dwordOf (payload.take 4) else 0), out, none⟩
  | .wrongSeq => ⟨some .EPROTO, out, none⟩
  | .silence => ⟨some .ETIMEDOUT, out, none⟩

def Answer.isSuccess : Answer → Bool
  | .success _ => true
  | _ => false

/-- The objects held after a command and its answer. -/
def Op.effect (op : Op) (a : Answer) (held : Finset McObject) : Finset McObject :=
  if a.isSuccess then
    match op.kind with
    | .creates o => insert o held
    | .releases o => held.erase o
    | .resets => held.filter (· = .attachment)
    | .queries => held
  else held

def ofResponse (r : Response) : Answer :=
  if hdrError r.hdr ≠ 0 then .error r.payload else .success r.payload

/-- A response that arrives in time is read as the answer it stands for. -/
theorem exec_result_ofResponse {sc : Mcdi.Softc} {cmd : BitVec 32} {inp out : List Byte}
    {r : Response} {j : ℕ} (haccepts : execAccepts sc inp out = none) (hj : j < pollLimit)
    (h : r.answers (useV2 cmd inp.length) (sc.seq.setWidth 32) = true) :
    (Mcdi.exec (answerAt j (r.frame (useV2 cmd inp.length))) sc cmd inp out).2 =
      (ofResponse r).result out := by
  rw [exec_answered haccepts hj h, Response.result, ofResponse]
  split <;> rfl

/-- The seven DMA allocations: the MCDI mailbox, the rings and the packet buffers. -/
inductive DmaBuf where
  | mcdi | evq | dataEvq | txDesc | rxDesc | txBuffer | rxBuffer
  deriving DecidableEq, Repr

/-- Outcome of `bus_dma_tag_create`, `bus_dmamem_alloc` and `bus_dmamap_load`, and the bus
address the load's callback stored. -/
structure DmaReply where
  tagCreate : Option Errno
  memAlloc : Option Errno
  mapLoad : Option Errno
  paddr : BitVec 64
  deriving DecidableEq

/-- What the host answers attach. A `Bool` says whether a pointer came back non-NULL. -/
structure Host where
  bar2 : Bool
  pciCommand : BitVec 16
  hwRevId : BitVec 32
  dma : DmaBuf → DmaReply
  msixCount : ℤ
  bar4 : Bool
  allocMsix : Option Errno
  msixGranted : ℤ
  irq : Bool
  setupIntr : Option Errno
  makeDev : Bool

/-- One choice of what fails: the answer to the `k`-th time each command is sent, the answers
to release commands, and the host's. -/
structure Env where
  answer : Op → ℕ → Answer
  release : Finset McObject → Op → Answer
  host : Host

def Env.reply (env : Env) (held : Finset McObject) (op : Op) (k : ℕ) : Answer :=
  match op.kind with
  | .releases _ => env.release held op
  | _ => env.answer op k

/-- Tag, memory and bus address of one DMA buffer, NULL or 0 when not allocated. -/
structure DmaMem where
  dtag : Bool := false
  vaddr : Bool := false
  paddr : BitVec 64 := 0
  deriving DecidableEq

/-- The part of `sfc7120_softc_t` that bring-up reads and writes, zeroed as the bus hands it
over. -/
structure Softc where
  mcdiInitialized : Bool := false
  drvAttached : Bool := false
  visAllocated : Bool := false
  vadaptorAllocated : Bool := false
  evqInitialized : Bool := false
  dataEvqInitialized : Bool := false
  rxqInitialized : Bool := false
  txqInitialized : Bool := false
  rxFilterInserted : Bool := false
  viCount : BitVec 32 := 0
  viBase : BitVec 32 := 0
  evqReadPtr : ℕ := 0
  rxFilterHandle : BitVec 64 := 0
  fwVersion : BitVec 32 × BitVec 32 := (0, 0)
  mcdiFuncFlags : BitVec 32 := 0
  mcdiCapsValid : Bool := false
  mcdiCapFlags1 : BitVec 32 := 0
  macAddr : Fin 6 → Byte := fun _ => 0
  phySupportedCapMask : BitVec 32 := 0
  phyMediaType : BitVec 32 := 0
  phyAdvCapMask : BitVec 32 := 0
  macConfigured : Bool := false
  linkConfigured : Bool := false
  linkUp : Bool := false
  fullDuplex : Bool := false
  linkSpeedMbps : BitVec 32 := 0
  linkFcntl : BitVec 32 := 0
  dma : DmaBuf → DmaMem := fun _ => {}
  memResource : Bool := false
  msixBarResource : Bool := false
  msixNvec : ℤ := 0
  irqResource : Bool := false
  irqHandle : Bool := false
  intrInitialized : Bool := false
  cdev : Bool := false
  deviceAttached : Bool := false

/-- The flag by which the driver remembers that it created an object. -/
def Softc.flag (sc : Softc) : McObject → Bool
  | .attachment => sc.drvAttached
  | .vis => sc.visAllocated
  | .vadaptor => sc.vadaptorAllocated
  | .evq .control => sc.evqInitialized
  | .evq .data => sc.dataEvqInitialized
  | .rxq => sc.rxqInitialized
  | .txq => sc.txqInitialized
  | .rxFilter => sc.rxFilterInserted

def Softc.setFlag (sc : Softc) (o : McObject) (b : Bool) : Softc :=
  match o with
  | .attachment => { sc with drvAttached := b }
  | .vis => { sc with visAllocated := b }
  | .vadaptor => { sc with vadaptorAllocated := b }
  | .evq .control => { sc with evqInitialized := b }
  | .evq .data => { sc with dataEvqInitialized := b }
  | .rxq => { sc with rxqInitialized := b }
  | .txq => { sc with txqInitialized := b }
  | .rxFilter => { sc with rxFilterInserted := b }

inductive Resource where
  | scMtx | rxMtx | bar2 | busMaster | mcdiMtx | dmaTag (b : DmaBuf) | dmaMem (b : DmaBuf)
  | dmaMap (b : DmaBuf) | bar4 | msix | irq | intrHandler | cdev | capMtx
  deriving DecidableEq, Repr

/-- `use` is the driver touching a resource itself; a command comes with its answer. -/
inductive Event where
  | acquire (r : Resource) | release (r : Resource) | use (r : Resource)
  | mcdi (op : Op) (inp : List Byte) (a : Answer)
  deriving DecidableEq, Repr

/-- `held` is what the MC holds that this attach created. -/
structure St where
  sc : Softc
  held : Finset McObject
  log : List Event

def St.start : St := ⟨{}, ∅, []⟩

def St.acquire (st : St) (r : Resource) : St := { st with log := st.log ++ [.acquire r] }

def St.release (st : St) (r : Resource) : St := { st with log := st.log ++ [.release r] }

def St.use (st : St) (r : Resource) : St := { st with log := st.log ++ [.use r] }

def St.update (st : St) (f : Softc → Softc) : St := { st with sc := f st.sc }

/-- `sfc7120_mcdi_exec` with a zeroed output buffer. `k` counts how often this command was sent
before. -/
def exec (env : Env) (op : Op) (inp : List Byte) (k : ℕ) (st : St) : St × ExecResult :=
  let out := List.replicate op.outLen 0
  if !st.sc.mcdiInitialized then (st, ⟨some Errno.ENXIO, out, none⟩)
  else if mcdiPayloadLenMaxV1 < inp.length ∨ mcdiPayloadLenMaxV1 < op.outLen then
    (st, ⟨some .EINVAL, out, none⟩)
  else
    let a := env.reply st.held op k
    ({ st with held := op.effect a st.held, log := st.log ++ [.mcdi op inp a] }, a.result out)

/-- `*out_used` in callers that start from 0. -/
def used (r : ExecResult) : ℕ := r.outUsed.getD 0

/-- Result of the `k`-th sending of a command, as the caller sees it. -/
def Env.result (env : Env) (op : Op) (k : ℕ) : ExecResult :=
  (env.answer op k).result (List.replicate op.outLen 0)

end Sfc7120.Attach

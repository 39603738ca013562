import Sfc7120.Attach.Commands

/-! `sfc7120_hw_init`, `sfc7120_hw_teardown` and `sfc7120_fbsd_attach`, with the host resources
they take. A `goto` label is the cleanup that covers the code after the label's resource was
taken, so `unwinding` stands for it. -/
namespace Sfc7120.Attach

open Ladder

def setDma (b : DmaBuf) (f : DmaMem → DmaMem) (sc : Softc) : Softc :=
  { sc with dma := Function.update sc.dma b (f (sc.dma b)) }

/-- `sfc7120_alloc_dmabuf`, and `sfc7120_mcdi_alloc_buf` for the mailbox. -/
def allocDmabuf (env : Env) (b : DmaBuf) : Attempt St Errno := fun st =>
  let reply := env.host.dma b
  match reply.tagCreate with
  | some e => (st, some e)
  | none =>
      let st := (st.acquire (.dmaTag b)).update (setDma b fun m => { m with dtag := true })
      match reply.memAlloc with
      | some e =>
          ((st.release (.dmaTag b)).update (setDma b fun m => { m with dtag := false }), some e)
      | none =>
          let st := (st.acquire (.dmaMem b)).update (setDma b fun m =>
            { m with vaddr := true, paddr := reply.paddr })
          let st := if reply.mapLoad = none then st.acquire (.dmaMap b) else st
          if reply.mapLoad ≠ none ∨ reply.paddr = 0 then
            -- bus_dmamem_free also invalidates what a load that gave no address left
            let st := if reply.mapLoad = none then st.release (.dmaMap b) else st
            (((st.release (.dmaMem b)).release (.dmaTag b)).update (setDma b fun m =>
              { m with vaddr := false, dtag := false }), some (reply.mapLoad.getD .ENOMEM))
          else (st, none)

/-- `sfc7120_free_dmabuf`, and `sfc7120_mcdi_free_buf` for the mailbox. -/
def freeDmabuf (b : DmaBuf) (st : St) : St :=
  let st :=
    if (st.sc.dma b).paddr ≠ 0 then
      (st.release (.dmaMap b)).update (setDma b fun m => { m with paddr := 0 })
    else st
  let st :=
    if (st.sc.dma b).vaddr then
      (st.release (.dmaMem b)).update (setDma b fun m => { m with vaddr := false })
    else st
  if (st.sc.dma b).dtag then
    (st.release (.dmaTag b)).update (setDma b fun m => { m with dtag := false })
  else st

/-- Rings and packet buffers, in the order they are allocated. -/
def dmaOrder : List DmaBuf := [.evq, .dataEvq, .txDesc, .rxDesc, .txBuffer, .rxBuffer]

/-- The event rings are filled with ones and synced as soon as they are there. -/
def primeRing (b : DmaBuf) (st : St) : St :=
  if b = .evq ∨ b = .dataEvq then (st.use (.dmaMem b)).use (.dmaMap b) else st

/-- Each buffer's label frees it when a later one cannot be allocated. -/
def allocBufs (env : Env) : List DmaBuf → Attempt St Errno
  | [] => fun st => (st, none)
  | b :: bs => andThen (allocDmabuf env b)
      (unwinding (freeDmabuf b) fun st => allocBufs env bs (primeRing b st))

def allocDmaResources (env : Env) : Attempt St Errno := allocBufs env dmaOrder

def freeDmaResources (st : St) : St := dmaOrder.reverse.foldl (fun st b => freeDmabuf b st) st

def pciCmdReady : BitVec 16 := 0x6
def hwRevIdReset : BitVec 32 := 0xeb14face

/-- MEMEN and BUSMASTEREN set, and the BIU answering with its identity. -/
def deviceAlive (env : Env) : Attempt St Errno := fun st =>
  if env.host.pciCommand &&& pciCmdReady ≠ pciCmdReady then (st, some Errno.ENXIO)
  else if env.host.hwRevId ≠ hwRevIdReset then (st.use .bar2, some Errno.ENXIO)
  else (st.use .bar2, none)

/-- Everything of `mcdi_init` between the mutex and the last stores. -/
def mcdiSetup (env : Env) : Attempt St Errno :=
  unwinding (·.release .mcdiMtx)
    (andThen (allocDmabuf env .mcdi) (unwinding (freeDmabuf .mcdi) (deviceAlive env)))

def mcdiInit (env : Env) : Attempt St Errno := fun st =>
  andThen (mcdiSetup env)
    (fun st => (st.update fun sc => { sc with mcdiInitialized := true }, none))
    (st.acquire .mcdiMtx)

def mcdiFini (st : St) : St :=
  if !st.sc.mcdiInitialized then st
  else
    ((freeDmabuf .mcdi st).release .mcdiMtx).update fun sc => { sc with mcdiInitialized := false }

/-- The calls attach makes, in the source's order. -/
inductive Stage where
  | bar2 | mcdiInit | getVersion | drvAttach | clearAssertions | entityReset | getMac
  | dumpFuncInfo | allocVis | vadaptorAlloc | getPhyCfg | setMac | setLink | getLink | allocDma
  | intrSetup | initEvq | initDataEvq | initRxq | postRxBuffers | initTxq | filterInsert | makeDev
  deriving DecidableEq, Repr

def setMemResource (b : Bool) (sc : Softc) : Softc := { sc with memResource := b }

def allocBar2 (env : Env) : Attempt St Errno := fun st =>
  if env.host.bar2 then
    (((st.acquire .bar2).update (setMemResource true)).acquire .busMaster, none)
  else (st.update (setMemResource false), some Errno.ENXIO)

def setMsixBar (b : Bool) (sc : Softc) : Softc := { sc with msixBarResource := b }
def setMsixNvec (n : ℤ) (sc : Softc) : Softc := { sc with msixNvec := n }
def setIrqResource (b : Bool) (sc : Softc) : Softc := { sc with irqResource := b }

def allocMsixBar (env : Env) : Attempt St Errno := fun st =>
  if env.host.msixCount ≤ 0 then (st, some Errno.ENXIO)
  else if env.host.bar4 then ((st.acquire .bar4).update (setMsixBar true), none)
  else (st.update (setMsixBar false), some .ENOMEM)

def allocMsix (env : Env) : Attempt St Errno := fun st =>
  match env.host.allocMsix with
  | some e => (st, some e)
  | none => (st.acquire .msix, none)

def allocIrq (env : Env) : Attempt St Errno := fun st =>
  if env.host.msixGranted ≠ 1 then (st, some Errno.ENXIO)
  else
    let st := st.update (setMsixNvec env.host.msixGranted)
    if env.host.irq then ((st.acquire .irq).update (setIrqResource true), none)
    else (st.update (setIrqResource false), some .ENOMEM)

def setupIntr (env : Env) : Attempt St Errno := fun st =>
  match env.host.setupIntr with
  | some e => (st, some e)
  | none =>
      ((st.acquire .intrHandler).update fun sc =>
        { sc with irqHandle := true, intrInitialized := true }, none)

def intrSetup (env : Env) : Attempt St Errno :=
  andThen (allocMsixBar env)
    (unwinding (fun st => (st.release .bar4).update (setMsixBar false))
      (andThen (allocMsix env)
        (unwinding (fun st => (st.release .msix).update (setMsixNvec 0))
          (andThen (allocIrq env)
            (unwinding (fun st => (st.release .irq).update (setIrqResource false))
              (setupIntr env))))))

def intrTeardown (st : St) : St :=
  let st :=
    if st.sc.intrInitialized && st.sc.irqResource && st.sc.irqHandle then
      (st.release .intrHandler).update fun sc => { sc with irqHandle := false }
    else st
  let st := st.update fun sc => { sc with intrInitialized := false }
  let st :=
    if st.sc.irqResource then (st.release .irq).update (setIrqResource false) else st
  let st := if 0 < st.sc.msixNvec then (st.release .msix).update (setMsixNvec 0) else st
  if st.sc.msixBarResource then (st.release .bar4).update (setMsixBar false) else st

def setCdev (b : Bool) (sc : Softc) : Softc := { sc with cdev := b }

def makeDevCapio (env : Env) : Attempt St Errno := fun st =>
  if env.host.makeDev then ((st.acquire .cdev).update (setCdev true), none)
  else (st.update (setCdev false), some .ENOMEM)

/-- `sfc7120_post_rx_buffers` as far as the host's resources go: it writes the RX descriptor ring,
syncs it and rings the doorbell. -/
def postRxBuffers (st : St) : St := ((st.use (.dmaMem .rxDesc)).use (.dmaMap .rxDesc)).use .bar2

/-- Each stage with the stores that follow it on success. -/
def Stage.step (env : Env) : Stage → Attempt St Errno
  | .bar2 => allocBar2 env
  | .mcdiInit => Attach.mcdiInit env
  | .getVersion => Attach.getVersion env
  | .drvAttach => Attach.drvAttach env
  | .clearAssertions => Attach.clearAssertions env
  | .entityReset => Attach.entityReset env
  | .getMac => Attach.getMac env
  | .dumpFuncInfo => Attach.dumpFuncInfo env
  | .allocVis => Attach.allocVis env 1 32
  | .vadaptorAlloc => Attach.vadaptorAlloc env
  | .getPhyCfg => Attach.getPhyCfg env
  | .setMac => Attach.setMac env
  | .setLink => Attach.setLink env
  | .getLink => waitLink env 30 0
  | .allocDma => allocDmaResources env
  | .intrSetup => Attach.intrSetup env
  | .initEvq => fun st =>
      andThen (Attach.initEvq env .control (st.sc.dma .evq).paddr numEvqEntry)
        (fun st => (st.update (·.setFlag (.evq .control) true), none)) st
  | .initDataEvq => fun st =>
      andThen (Attach.initEvq env .data (st.sc.dma .dataEvq).paddr numEvqEntry)
        (fun st => (st.update (·.setFlag (.evq .data) true), none)) st
  | .initRxq => fun st => Attach.initRxq env 0 1 (st.sc.dma .rxDesc).paddr numRxDesc st
  | .postRxBuffers => fun st => (Attach.postRxBuffers st, none)
  | .initTxq => fun st => Attach.initTxq env 0 1 (st.sc.dma .txDesc).paddr numTxDesc st
  | .filterInsert => Attach.filterInsert env
  | .makeDev => makeDevCapio env

/-- The calls of `hw_init` whose failure goes to `fail_mcdi`. -/
def mcdiStages : List Stage := [.getVersion, .drvAttach, .clearAssertions]

/-- The calls of `hw_init` whose failure goes to `fail_attach`. -/
def functionStages : List Stage :=
  [.entityReset, .getMac, .dumpFuncInfo, .allocVis, .vadaptorAlloc, .getPhyCfg, .setMac, .setLink,
    .getLink]

/-- The calls of attach whose failure goes to `fail_dma`. -/
def queueStages : List Stage :=
  [.intrSetup, .initEvq, .initDataEvq, .initRxq, .postRxBuffers, .initTxq, .filterInsert, .makeDev]

def hwInit (env : Env) : Attempt St Errno :=
  andThen (Stage.step env .mcdiInit)
    (unwinding mcdiFini
      (andThen (climb (Stage.step env) mcdiStages)
        (unwinding (fun st => (drvDetach env st).1) (climb (Stage.step env) functionStages))))

/-- The wrapper that releases each kind of object. -/
def releaseOf (env : Env) : McObject → Attempt St Errno
  | .rxFilter => filterRemove env
  | .txq => finiTxq env 0
  | .rxq => finiRxq env 0
  | .evq q => finiEvq env q
  | .vadaptor => vadaptorFree env
  | .vis => freeVis env
  | .attachment => drvDetach env

def teardownOrder : List McObject :=
  [.rxFilter, .txq, .rxq, .evq .data, .evq .control, .vadaptor, .vis, .attachment]

/-- Results of the release calls are ignored. -/
def hwTeardown (env : Env) (st : St) : St :=
  mcdiFini (teardownOrder.foldl (fun st o => (releaseOf env o st).1) st)

/-- Regions, `init_capio_sc`, the last stores and the register dump. -/
def publish (st : St) : St :=
  ((st.acquire .capMtx).update fun sc => { sc with deviceAttached := true }).use .bar2

/-- `sfc7120_fbsd_attach`. -/
def attach (env : Env) : Attempt St Errno := fun st =>
  andThen
    (unwinding (fun st => (st.release .rxMtx).release .scMtx)
      (andThen (Stage.step env .bar2)
        (unwinding (fun st => (st.release .busMaster).release .bar2)
          (andThen (hwInit env)
            (andThen (unwinding (hwTeardown env) (Stage.step env .allocDma))
              (unwinding (fun st => freeDmaResources (hwTeardown env (intrTeardown st)))
                (climb (Stage.step env) queueStages)))))))
    (fun st => (publish st, none))
    ((st.acquire .scMtx).acquire .rxMtx)

def releaseCdev (st : St) : St :=
  if st.sc.cdev then (st.release .cdev).update (setCdev false) else st

def releaseBar2 (st : St) : St :=
  if st.sc.memResource then (st.release .bar2).update (setMemResource false) else st

/-- `sfc7120_fbsd_detach`. -/
def detach (env : Env) (st : St) : St :=
  let st := (st.use .scMtx).update fun sc => { sc with deviceAttached := false }
  let st := releaseBar2 (freeDmaResources (hwTeardown env (intrTeardown (releaseCdev st))))
  (((st.release .busMaster).release .capMtx).release .rxMtx).release .scMtx

end Sfc7120.Attach

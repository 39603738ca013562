import Sfc7120.Attach.Firmware

/-! The MC_CMD wrappers that bring-up and teardown call. -/
namespace Sfc7120.Attach

open ByteMemory Mcdi Ladder

def dwords (ws : List (BitVec 32)) : List Byte := ws.flatMap dwordBytes

/-- Low and high half of a 64-bit field. -/
def qword (v : BitVec 64) : List (BitVec 32) := [v.setWidth 32, (v >>> 32).setWidth 32]

def dwordAt (out : List Byte) (i : ℕ) : BitVec 32 := dwordOf ((out.drop i).take 4)

def fwDontCare : BitVec 32 := 0xffffffff
def evbPortIdAssigned : BitVec 32 := 0x01000000

/-- The common wrapper: send, give up on an error or on fewer than `minUsed` bytes of response,
else store what came back. -/
def command (env : Env) (op : Op) (inp : List Byte) (k minUsed : ℕ)
    (store : ExecResult → Softc → Softc) : Attempt St Errno := fun st =>
  let x := exec env op inp k st
  match x.2.rc with
  | some e => (x.1, some e)
  | none => if used x.2 < minUsed then (x.1, some .EPROTO) else (x.1.update (store x.2), none)

/-- Wrappers that take EACCES as "not our job" and go on. -/
def tolerateEacces (f : Attempt St Errno) : Attempt St Errno := fun st =>
  let x := f st
  if x.2 = some .EACCES then (x.1, none) else x

def getVersion (env : Env) : Attempt St Errno :=
  command env .getVersion [] 0 32 fun r sc =>
    { sc with fwVersion := (dwordAt r.out 24, dwordAt r.out 28) }

def drvAttach (env : Env) : Attempt St Errno := fun st =>
  let x := exec env .drvAttach (dwords [1, 1, fwDontCare]) 0 st
  match x.2.rc with
  | some e => (x.1, some e)
  | none =>
      if 8 ≤ used x.2 then
        (x.1.update fun sc =>
          { sc.setFlag .attachment true with mcdiFuncFlags := dwordAt x.2.out 4 }, none)
      else if used x.2 < 4 then
        (x.1.update fun sc => { sc with mcdiFuncFlags := 0 }, some .EPROTO)
      else (x.1.update fun sc => { sc.setFlag .attachment true with mcdiFuncFlags := 0 }, none)

/-- The retry loop of `clear_assertions`; `rc` is the last attempt's. -/
def getAsserts (env : Env) : ℕ → ℕ → Option Errno → Attempt St Errno
  | 0, _, rc, st => (st, rc)
  | left + 1, retry, _, st =>
      let x := exec env .getAsserts (dwords [1]) retry st
      if x.2.rc ≠ some .EINTR ∧ x.2.rc ≠ some Errno.EIO then (x.1, x.2.rc)
      else getAsserts env left (retry + 1) x.2.rc x.1

/-- The response, short or not, is only printed. -/
def clearAssertions (env : Env) : Attempt St Errno := tolerateEacces (getAsserts env 3 0 none)

def entityReset (env : Env) : Attempt St Errno :=
  tolerateEacces (command env .entityReset (dwords [1]) 0 0 fun _ sc => sc)

def getMac (env : Env) : Attempt St Errno :=
  command env .getMacAddresses [] 0 6 fun r sc =>
    { sc with macAddr := fun i => r.out.getD i 0 }

/-- Three queries whose errors are not fatal. -/
def dumpFuncInfo (env : Env) : Attempt St Errno := fun st =>
  let st := (exec env .getPortAssignment [] 0 st).1
  let st := (exec env .getFunctionInfo [] 0 st).1
  let x := exec env .getCapabilities [] 0 st
  if x.2.rc = none ∧ 20 ≤ used x.2 then
    (x.1.update fun sc =>
      { sc with mcdiCapFlags1 := dwordAt x.2.out 0, mcdiCapsValid := true }, none)
  else (x.1, none)

def allocVis (env : Env) (minCount maxCount : BitVec 32) : Attempt St Errno :=
  command env .allocVis (dwords [minCount, maxCount]) 0 8 fun r sc =>
    { sc.setFlag .vis true with viCount := dwordAt r.out 0, viBase := dwordAt r.out 4 }

/-- PERMIT_SET_MAC_WHEN_FILTERS_INSTALLED is asked for only where the firmware advertises it. -/
def vadaptorFlags (sc : Softc) : BitVec 32 :=
  if sc.mcdiCapsValid && sc.mcdiCapFlags1.getLsbD 11 then 2 else 0

def vadaptorAlloc (env : Env) : Attempt St Errno := fun st =>
  if st.sc.vadaptorAllocated then (st, none)
  else
    command env .vadaptorAlloc
      (dwords [evbPortIdAssigned, 0, vadaptorFlags st.sc, 0, 0, 0] ++ List.replicate 6 0) 0 0
      (fun _ sc => sc.setFlag .vadaptor true) st

/-- The firmware omits a FEC_REQUESTED bit where it sets the FEC bit below it. -/
def fecQuirk (cap : BitVec 32) : BitVec 32 :=
  [16, 18, 20].foldl (fun c lbn => if c.getLsbD lbn then c ||| BitVec.twoPow 32 (lbn + 1) else c)
    cap

def getPhyCfg (env : Env) : Attempt St Errno :=
  command env .getPhyCfg [] 0 48 fun r sc =>
    { sc with
      phySupportedCapMask := fecQuirk (dwordAt r.out 8)
      phyMediaType := dwordAt r.out 44 }

def setMac (env : Env) : Attempt St Errno := fun st =>
  tolerateEacces (command env .setMac
    (dwords [1544, 0] ++ List.ofFn st.sc.macAddr ++ [0, 0] ++ dwords [0, 3, 0]) 0 0
    fun _ sc => { sc with macConfigured := true }) st

def setLink (env : Env) : Attempt St Errno := fun st =>
  let cap := st.sc.phySupportedCapMask ||| BitVec.twoPow 32 10
  command env .setLink (dwords [cap, 0, 0, 0]) 0 0 (fun _ sc => { sc with linkConfigured := true })
    (st.update fun sc => { sc with phyAdvCapMask := cap })

def linkIsUp (r : ExecResult) : Bool := (dwordAt r.out 16).getLsbD 0

def getLink (env : Env) (i : ℕ) : Attempt St Errno :=
  command env .getLink [] i 28 fun r sc =>
    { sc with
      linkUp := linkIsUp r
      fullDuplex := (dwordAt r.out 16).getLsbD 1
      linkSpeedMbps := dwordAt r.out 8
      linkFcntl := dwordAt r.out 20 }

/-- The poll for link-up. A link that stays down is not an error. -/
def waitLink (env : Env) : ℕ → ℕ → Attempt St Errno
  | 0, _, st => (st, none)
  | left + 1, i, st =>
      let x := getLink env i st
      match x.2 with
      | some e => (x.1, some e)
      | none => if x.1.sc.linkUp then (x.1, none) else waitLink env left (i + 1) x.1

/-- A power of two of at least one whole page of 8-byte entries, at most `max`. -/
def ringSizeOk (max n : ℕ) : Bool :=
  !(decide (n < 512) || decide (max < n) || n &&& (n - 1) != 0 || n * 8 % 4096 != 0)

/-- Bits: INTERRUPTING 0, CUT_THRU 3, RX_MERGE 4, TX_MERGE 5. -/
def evqFlags (q : Evq) : BitVec 32 := if q = .control then 0x39 else 0x38

def initEvqIn (q : Evq) (paddr : BitVec 64) (nevs : ℕ) : List Byte :=
  dwords ([.ofNat 32 nevs, .ofNat 32 q.inst, 0, 0, evqFlags q, 0,
    if q = .control then .ofNat 32 q.inst else 0, 0, 0] ++ qword paddr)

/-- The flag and the read pointer are the control queue's, for either instance. -/
def storeEvq (sc : Softc) : Softc := { sc.setFlag (.evq .control) true with evqReadPtr := 0 }

def initEvq (env : Env) (q : Evq) (paddr : BitVec 64) (nevs : ℕ) : Attempt St Errno := fun st =>
  if !ringSizeOk 32768 nevs then (st, some .EINVAL)
  else if st.sc.viCount.toNat ≤ q.inst then (st, some .EINVAL)
  else command env (.initEvq q) (initEvqIn q paddr nevs) 0 0 (fun _ sc => storeEvq sc) st

def initQueueIn (flags : BitVec 32) (inst targetEvq : ℕ) (paddr : BitVec 64) (ndescs : ℕ) :
    List Byte :=
  dwords ([.ofNat 32 ndescs, .ofNat 32 targetEvq, 0, .ofNat 32 inst, flags, 0,
    evbPortIdAssigned] ++ qword paddr)

/-- `init_rxq` and `init_txq` differ in command, flag word and softc flag. -/
def initQueue (env : Env) (op : Op) (o : McObject) (flags : BitVec 32) (inst targetEvq : ℕ)
    (paddr : BitVec 64) (ndescs : ℕ) : Attempt St Errno := fun st =>
  if !ringSizeOk 4096 ndescs then (st, some .EINVAL)
  else if !st.sc.vadaptorAllocated then (st, some .EINVAL)
  else if st.sc.viCount.toNat ≤ inst then (st, some .EINVAL)
  else if st.sc.viCount.toNat ≤ targetEvq then (st, some .EINVAL)
  else
    command env op (initQueueIn flags inst targetEvq paddr ndescs) 0 0
      (fun _ sc => sc.setFlag o true) st

/-- PREFIX and DISABLE_SCATTER. -/
def initRxq (env : Env) (inst targetEvq : ℕ) (paddr : BitVec 64) (ndescs : ℕ) :
    Attempt St Errno := initQueue env .initRxq .rxq 0x300 inst targetEvq paddr ndescs

/-- IP_CSUM_DIS and TCP_CSUM_DIS. -/
def initTxq (env : Env) (inst targetEvq : ℕ) (paddr : BitVec 64) (ndescs : ℕ) :
    Attempt St Errno := initQueue env .initTxq .txq 6 inst targetEvq paddr ndescs

def handleInvalid (r : ExecResult) : Bool :=
  dwordAt r.out 4 == 0xffffffff && dwordAt r.out 8 == 0xffffffff

/-- Frames to this port's MAC address go to RX queue 0. -/
def filterInsertIn (sc : Softc) : List Byte :=
  dwords [0, 0, 0, evbPortIdAssigned, 0x10, 1, 0, 0, 0, 0, 0xffffffff, 0, 0] ++
    List.ofFn sc.macAddr ++ List.replicate 50 0

def filterInsert (env : Env) : Attempt St Errno := fun st =>
  if st.sc.rxFilterInserted then (st, none)
  else
    let x := exec env .filterInsert (filterInsertIn st.sc) 0 st
    match x.2.rc with
    | some e => (x.1, some e)
    | none =>
        if used x.2 < 12 then (x.1, some .EPROTO)
        else if handleInvalid x.2 then (x.1, some Errno.EIO)
        else
          (x.1.update fun sc => { sc.setFlag .rxFilter true with
            rxFilterHandle := dwordAt x.2.out 8 ++ dwordAt x.2.out 4 }, none)

/-- The release wrappers: nothing to do when the flag is not set, else send and forget the
object, unless `keeps` says the result leaves it in place. -/
def releaseObject (env : Env) (op : Op) (o : McObject) (inp : Softc → List Byte)
    (keeps : Option Errno → Bool) (forget : Softc → Softc) : Attempt St Errno := fun st =>
  if !st.sc.flag o then (st, none)
  else
    let x := exec env op (inp st.sc) 0 st
    (if keeps x.2.rc then x.1 else x.1.update forget, x.2.rc)

def drvDetach (env : Env) : Attempt St Errno :=
  releaseObject env .drvDetach .attachment (fun _ => dwords [0, 1, fwDontCare]) Option.isSome
    (·.setFlag .attachment false)

def freeVis (env : Env) : Attempt St Errno :=
  releaseObject env .freeVis .vis (fun _ => []) Option.isSome
    fun sc => { sc.setFlag .vis false with viCount := 0, viBase := 0 }

def vadaptorFree (env : Env) : Attempt St Errno :=
  releaseObject env .vadaptorFree .vadaptor (fun _ => dwords [evbPortIdAssigned]) (fun _ => false)
    (·.setFlag .vadaptor false)

/-- EBUSY leaves the flag set so that the caller can retry. -/
def finiEvq (env : Env) (q : Evq) : Attempt St Errno :=
  releaseObject env (.finiEvq q) (.evq q) (fun _ => dwords [.ofNat 32 q.inst])
    (· == some .EBUSY) (·.setFlag (.evq q) false)

def finiRxq (env : Env) (inst : ℕ) : Attempt St Errno :=
  releaseObject env .finiRxq .rxq (fun _ => dwords [.ofNat 32 inst]) (fun _ => false)
    (·.setFlag .rxq false)

def finiTxq (env : Env) (inst : ℕ) : Attempt St Errno :=
  releaseObject env .finiTxq .txq (fun _ => dwords [.ofNat 32 inst]) (fun _ => false)
    (·.setFlag .txq false)

def filterRemove (env : Env) : Attempt St Errno :=
  releaseObject env .filterRemove .rxFilter
    (fun sc => dwords (1 :: qword sc.rxFilterHandle) ++ List.replicate 96 0) (fun _ => false)
    (·.setFlag .rxFilter false)

end Sfc7120.Attach

import Sfc7120.Lib.Ladder
import Sfc7120.Lib.Machine
import Sfc7120.Lib.AddressMap
import Sfc7120.Lib.Paging
import Sfc7120.Lib.Custody
import Sfc7120.Lib.RingQueue
import Sfc7120.Lib.ByteMemory
import Sfc7120.Lib.BitFields
import Sfc7120.Lib.RingCursor
import Sfc7120.Lib.Cable
import Sfc7120.Lib.Ownership
import Sfc7120.Lib.OrderStat
import Sfc7120.Basic
import Sfc7120.DataPath.Words
import Sfc7120.DataPath.Nic
import Sfc7120.DataPath.User
import Sfc7120.DataPath.Kernel
import Sfc7120.DataPath.RxCopy
import Sfc7120.DataPath.Rings
import Sfc7120.DataPath.DirectRx
import Sfc7120.DataPath.KernelRx
import Sfc7120.DataPath.Refinement
import Sfc7120.DataPath.DirectTx
import Sfc7120.DataPath.Duplex
import Sfc7120.DataPath.Settle
import Sfc7120.DataPath.KernelDuplex
import Sfc7120.DataPath.Handover
import Sfc7120.DataPath.Completion
import Sfc7120.DataPath.EvqRoom
import Sfc7120.Mcdi.Doorbell
import Sfc7120.Control.Evq
import Sfc7120.Control.Drain
import Sfc7120.Mcdi.Framing
import Sfc7120.Mcdi.Exec
import Sfc7120.Mcdi.Transport
import Sfc7120.Mcdi.Response
import Sfc7120.Lib.Sealing
import Sfc7120.Capio.Softc
import Sfc7120.Capio.System
import Sfc7120.Capio.Publish
import Sfc7120.Capio.Sessions
import Sfc7120.Capio.Tokens
import Sfc7120.Capio.Lifetime
import Sfc7120.Capio.Regions
import Sfc7120.Capio.Calls
import Sfc7120.Capio.Mapping
import Sfc7120.Capio.Restart
import Sfc7120.Capio.AddressSpace
import Sfc7120.Attach.Firmware
import Sfc7120.Capio.Faults
import Sfc7120.DataPath.Hostile
import Sfc7120.DataPath.Undisturbed
import Sfc7120.Attach.Commands
import Sfc7120.Attach.Bringup
import Sfc7120.Attach.Progress
import Sfc7120.Attach.Wrappers
import Sfc7120.Attach.Stages
import Sfc7120.Attach.Cleanup
import Sfc7120.Attach.Custody
import Sfc7120.Attach.Resources
import Sfc7120.Attach.Quiesce
import Sfc7120.Attach.Wire
import Sfc7120.Attach.Configured
import Sfc7120.Attach.Mirror
import Sfc7120.Userlib.Handle
import Sfc7120.Userlib.Device
import Sfc7120.Userlib.Invariant
import Sfc7120.Userlib.Opening
import Sfc7120.Userlib.Sessions
import Sfc7120.Bench.Frames
import Sfc7120.Bench.Cable
import Sfc7120.Bench.Direct
import Sfc7120.Bench.Throughput
import Sfc7120.Bench.PingPong
import Sfc7120.Bench.Meter
import Sfc7120.Bench.Latency

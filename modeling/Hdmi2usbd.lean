import Hdmi2usbd.Lib.Machine
import Hdmi2usbd.Lib.Slots
import Hdmi2usbd.Lib.Block
import Hdmi2usbd.Lib.Rows
import Hdmi2usbd.Lib.Fifo
import Hdmi2usbd.Lib.Flow
import Hdmi2usbd.Lib.Lines
import Hdmi2usbd.RingBuffer
import Hdmi2usbd.StringStore
import Hdmi2usbd.Timer
import Hdmi2usbd.DynArray
import Hdmi2usbd.World
import Hdmi2usbd.Drivers
import Hdmi2usbd.Handlers
import Hdmi2usbd.Effects
import Hdmi2usbd.Selector
import Hdmi2usbd.Daemon
import Hdmi2usbd.Forwarding
import Hdmi2usbd.Actions
import Hdmi2usbd.Readings
import Hdmi2usbd.Pacing
import Hdmi2usbd.Cycle
import Hdmi2usbd.Reload
import Hdmi2usbd.Ownership
import Hdmi2usbd.Delivery
import Hdmi2usbd.Broadcast
import Hdmi2usbd.Dispatch
import Hdmi2usbd.Registration
import Hdmi2usbd.Readiness
import Hdmi2usbd.Output
import Hdmi2usbd.Closing
import Hdmi2usbd.Calls
import Hdmi2usbd.Ledger
import Hdmi2usbd.Allocation
import Hdmi2usbd.Isolation
import Hdmi2usbd.Interest
import Hdmi2usbd.Steady
import Hdmi2usbd.EndOfFile
import Hdmi2usbd.Failure
import Hdmi2usbd.Sessions
import Hdmi2usbd.CommandTime
import Hdmi2usbd.CommandGaps
import Hdmi2usbd.Transfer
import Hdmi2usbd.StoreEdits
import Hdmi2usbd.Tokens
import Hdmi2usbd.RawArray
import Hdmi2usbd.ArrayRuns
import Hdmi2usbd.Lib.Getopt
import Hdmi2usbd.Lib.Loop
import Hdmi2usbd.Options
import Hdmi2usbd.OptionLoop
import Hdmi2usbd.Device
import Hdmi2usbd.Lib.Chain
import Hdmi2usbd.PortList
import Hdmi2usbd.ListenArg
import Hdmi2usbd.Lib.Cut
import Hdmi2usbd.LogFlags
import Hdmi2usbd.Netutils
import Hdmi2usbd.StartUp
import Hdmi2usbd.Stopping
import Hdmi2usbd.BufferSize
import Hdmi2usbd.BlankElements
import Hdmi2usbd.ArrayIndex
import Hdmi2usbd.Lib.Chunks
import Hdmi2usbd.StoreGrowth
import Hdmi2usbd.Lib.Printf
import Hdmi2usbd.Logging
import Hdmi2usbd.Lib.Lifetime
import Hdmi2usbd.Lifetimes
import Hdmi2usbd.Loops
import Hdmi2usbd.Streams
import Hdmi2usbd.Turns
import Hdmi2usbd.Wire
import Hdmi2usbd.EndToEnd
import Hdmi2usbd.Arbitration
import Hdmi2usbd.Progress
import Hdmi2usbd.Bypass
import Hdmi2usbd.Endings
import Hdmi2usbd.LogLines
import Hdmi2usbd.Lib.Hub
import Hdmi2usbd.Refinement

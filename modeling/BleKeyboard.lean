import BleKeyboard.Base.Machine
import BleKeyboard.Base.History
import BleKeyboard.Base.Held
import BleKeyboard.Base.Slots
import BleKeyboard.Base.Table
import BleKeyboard.Base.MsgQueue
import BleKeyboard.Base.Descriptor
import BleKeyboard.Base.Controls
import BleKeyboard.Base.Snapshots
import BleKeyboard.Base.Interleavings
import BleKeyboard.Base.TwoParts
import BleKeyboard.Firmware.Keys
import BleKeyboard.Firmware.Report
import BleKeyboard.Firmware.Poll
import BleKeyboard.Firmware.Client
import BleKeyboard.Firmware.InCall
import BleKeyboard.Firmware.Pairing
import BleKeyboard.Firmware.Main
import BleKeyboard.Firmware.Passkeys
import BleKeyboard.Firmware.Step
import BleKeyboard.Firmware.ClientCalls
import BleKeyboard.Firmware.LeftHalf
import BleKeyboard.Report.FanOut
import BleKeyboard.Report.SlotTable
import BleKeyboard.Report.Edges
import BleKeyboard.Report.SlotBounds
import BleKeyboard.Report.HeldKeys
import BleKeyboard.Report.KeyLoop
import BleKeyboard.Report.Layers
import BleKeyboard.Report.BaseLayer
import BleKeyboard.Report.Shift
import BleKeyboard.Report.Dispatch
import BleKeyboard.Report.Indices
import BleKeyboard.Report.KeyCalls
import BleKeyboard.Report.Usages
import BleKeyboard.Report.Meaning
import BleKeyboard.Link.Account
import BleKeyboard.Link.LeftEdges
import BleKeyboard.Link.RightEdges
import BleKeyboard.Link.Agreement
import BleKeyboard.Link.Snapshot
import BleKeyboard.Link.Scan
import BleKeyboard.Link.SplitKeyboard
import BleKeyboard.Link.LayerKeys
import BleKeyboard.Link.Encodings
import BleKeyboard.Link.Matrix
import BleKeyboard.Link.GpioScan
import BleKeyboard.Client.Subscription
import BleKeyboard.Client.SingleReads
import BleKeyboard.Client.Requests
import BleKeyboard.Client.Modes
import BleKeyboard.Client.Payloads
import BleKeyboard.Client.Unassigned
import BleKeyboard.Client.PeriodicCycle
import BleKeyboard.Client.PeriodicValues
import BleKeyboard.Host.Secured
import BleKeyboard.Host.Displayed
import BleKeyboard.Host.Outstanding
import BleKeyboard.Host.Answerable
import BleKeyboard.Host.References
import BleKeyboard.Host.Served
import BleKeyboard.Host.Subsystems
import BleKeyboard.Host.Gate
import BleKeyboard.Host.View
import BleKeyboard.Host.AtRest
import BleKeyboard.Host.Stream
import BleKeyboard.Host.ProtocolModes
import BleKeyboard.Host.Addressed
import BleKeyboard.Link.InScan
import BleKeyboard.Link.LeftGone
import BleKeyboard.Link.EndToEnd
import BleKeyboard.Link.AcrossLayers
import BleKeyboard.Link.Keystrokes
import BleKeyboard.Link.Genuine

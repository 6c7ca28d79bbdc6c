import CarveraFirmware.Library.WrapClock
import CarveraFirmware.Library.Loop
import CarveraFirmware.Library.RingIndex
import CarveraFirmware.Library.Runs
import CarveraFirmware.Library.Reached
import CarveraFirmware.Library.Debounce
import CarveraFirmware.Library.Halting
import CarveraFirmware.Library.CheckedInt
import CarveraFirmware.Library.Substring
import CarveraFirmware.Library.Advance
import CarveraFirmware.Library.Areas
import CarveraFirmware.Library.Links
import CarveraFirmware.Clients.Table
import CarveraFirmware.Clients.Sends
import CarveraFirmware.Clients.Control
import CarveraFirmware.Clients.Check
import CarveraFirmware.Clients.ControlRuns
import CarveraFirmware.Clients.Classify
import CarveraFirmware.Clients.ConsoleText
import CarveraFirmware.Clients.HeldStartFilter
import CarveraFirmware.Clients.Links
import CarveraFirmware.Clients.Holder
import CarveraFirmware.Clients.Dispatch
import CarveraFirmware.Clients.OldClients
import CarveraFirmware.Clients.ProperTables
import CarveraFirmware.Clients.Presence
import CarveraFirmware.Clients.JobStart
import CarveraFirmware.Clients.JobStartRuns
import CarveraFirmware.Publish.ConsoleLine
import CarveraFirmware.Publish.Events
import CarveraFirmware.Publish.HelloLayout
import CarveraFirmware.Library.BitPoly
import CarveraFirmware.Library.BigEndian
import CarveraFirmware.Frames.Crc
import CarveraFirmware.Frames.CrcDivision
import CarveraFirmware.Frames.Decoder
import CarveraFirmware.Frames.Encoding
import CarveraFirmware.Frames.RoundTrip
import CarveraFirmware.Frames.Tracking
import CarveraFirmware.Frames.Bounds
import CarveraFirmware.Frames.Resync
import CarveraFirmware.Frames.Marks
import CarveraFirmware.Frames.HeaderErrors
import CarveraFirmware.Frames.Recovery
import CarveraFirmware.Motion.Block
import CarveraFirmware.Motion.Planner
import CarveraFirmware.Motion.Feasible
import CarveraFirmware.Motion.StepTicker
import CarveraFirmware.Motion.StepExact
import CarveraFirmware.Motion.Conveyor
import CarveraFirmware.Motion.RingOrder
import CarveraFirmware.Motion.RingRuns
import CarveraFirmware.Transfers.FileReaders
import CarveraFirmware.Transfers.FileGrammar
import CarveraFirmware.Transfers.ReadersAgree
import CarveraFirmware.Transfers.Upload
import CarveraFirmware.Transfers.UploadCleanup
import CarveraFirmware.Transfers.Decompress
import CarveraFirmware.Transfers.MakeraOnce
import CarveraFirmware.Transfers.XmodemPacket
import CarveraFirmware.Transfers.FramedSession
import CarveraFirmware.Transfers.XmodemSession
import CarveraFirmware.Transfers.Download
import CarveraFirmware.Transfers.BusyReply
import CarveraFirmware.Transfers.BusyLimiter
import CarveraFirmware.Panel.MainButton
import CarveraFirmware.Panel.PowerTimers
import CarveraFirmware.Probe.ZProbe
import CarveraFirmware.Probe.ProbeFlags
import CarveraFirmware.Probe.ProbeStop
import CarveraFirmware.Probe.FlexCompensation
import CarveraFirmware.Probe.GridCompensation
import CarveraFirmware.Probe.GridFile
import CarveraFirmware.Tools.VescSpindle
import CarveraFirmware.Tools.Laser
import CarveraFirmware.Tools.LaserPower
import CarveraFirmware.Tools.BedCleaning
import CarveraFirmware.Tools.AtcHandler
import CarveraFirmware.Tools.TemperatureSwitch
import CarveraFirmware.Tools.ToolOffset
import CarveraFirmware.Tools.Drillingcycles
import CarveraFirmware.Tools.ToolSlotRuns
import CarveraFirmware.Gcode.GcodeDispatch
import CarveraFirmware.Heap.Heap5
import CarveraFirmware.Heap.Layout
import CarveraFirmware.Heap.Allocate
import CarveraFirmware.Heap.Regions
import CarveraFirmware.Heap.Release
import CarveraFirmware.Heap.HeapRuns
import CarveraFirmware.Heap.HeapStates
import CarveraFirmware.Homing.LimitAlarm
import CarveraFirmware.Homing.AtSwitch
import CarveraFirmware.Homing.GivesBack
import CarveraFirmware.Robot.WorkOffsets
import CarveraFirmware.Robot.Milestone
import CarveraFirmware.Robot.SpeedLimits
import CarveraFirmware.Jobs.MacroCalls
import CarveraFirmware.Jobs.MacroOrder
import CarveraFirmware.Jobs.StreamedBuffer
import CarveraFirmware.Jobs.OCodeHandler
import CarveraFirmware.Jobs.OCodeStack
import CarveraFirmware.Library.Fuel
import CarveraFirmware.Gcode.Expression
import CarveraFirmware.Gcode.ExpressionEnds
import CarveraFirmware.Gcode.ExpressionTree
import CarveraFirmware.Gcode.ExpressionReads
import CarveraFirmware.Gcode.ExpressionParts
import CarveraFirmware.Gcode.ExpressionMeaning
import CarveraFirmware.Gcode.Precedence
import CarveraFirmware.Gcode.ExpressionSound
import CarveraFirmware.Gcode.Assignments
import CarveraFirmware.Serial.RxOrder
import CarveraFirmware.Library.Potential
import CarveraFirmware.Outputs.Pwm

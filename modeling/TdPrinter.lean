import TdPrinter.Foundation.Machine
import TdPrinter.Param.LoadSave
import TdPrinter.Heater.FilamentLock
import TdPrinter.Foundation.Arithmetic
import TdPrinter.RtThread.Event
import TdPrinter.Usb.MassStorage
import TdPrinter.Ymodem.ReceivePacket
import TdPrinter.Ymodem.Receive
import TdPrinter.Ymodem.Reassembly
import TdPrinter.Ymodem.SessionResult
import TdPrinter.Motion.StepAxis
import TdPrinter.Motion.Dda
import TdPrinter.Motion.Advance
import TdPrinter.Foundation.RingBuffer
import TdPrinter.Foundation.Memory
import TdPrinter.Foundation.Refinement
import TdPrinter.Motion.MotionBuffer
import TdPrinter.Buffer.Ringbuffer
import TdPrinter.Buffer.Ringdata
import TdPrinter.Motion.Planner
import TdPrinter.Motion.PlannerPasses
import TdPrinter.Foundation.Profile
import TdPrinter.Motion.Trapezoid
import TdPrinter.Motion.StepBlock
import TdPrinter.Motion.StepBlockSpec
import TdPrinter.Motion.Tally
import TdPrinter.Motion.InputMotion
import TdPrinter.Motion.Pipeline
import TdPrinter.Motion.RateBounds
import TdPrinter.Planning.StepPlanner
import TdPrinter.Position.StepPosition
import TdPrinter.Position.Positioner
import TdPrinter.Position.Bookkeeping
import TdPrinter.Foundation.Rounding
import TdPrinter.Position.Drift
import TdPrinter.Position.MoveArgs
import TdPrinter.Hmi.FlowRatio
import TdPrinter.GCode.Endstop
import TdPrinter.GCode.GetLine
import TdPrinter.GCode.FakeDevice
import TdPrinter.Print.CorePrinter
import TdPrinter.Print.EndOfFile
import TdPrinter.Print.DistanceLog
import TdPrinter.Foundation.Lookahead
import TdPrinter.Planning.Freshness
import TdPrinter.Planning.Feasibility
import TdPrinter.Planning.Calls
import TdPrinter.Planning.Junction
import TdPrinter.Foundation.Limits
import TdPrinter.Planning.Preparation
import TdPrinter.Planning.AxisLimits
import TdPrinter.Planning.Ceiling
import TdPrinter.Position.ExitRates
import TdPrinter.Foundation.Scan
import TdPrinter.Foundation.Decimal
import TdPrinter.GCode.Strtod
import TdPrinter.Foundation.CString
import TdPrinter.GCode.Processor
import TdPrinter.GCode.Dispatch
import TdPrinter.GCode.ReadAxis
import TdPrinter.GCode.LineBuffer
import TdPrinter.GCode.CurrentLine
import TdPrinter.GCode.Words
import TdPrinter.Ymodem.Crc
import TdPrinter.Ymodem.FileName
import TdPrinter.Ymodem.OpenFile
import TdPrinter.Motion.WriteBack
import TdPrinter.Heater.Frames
import TdPrinter.Foundation.Stream
import TdPrinter.Heater.LineAssembler
import TdPrinter.Hmi.RxStateMachine
import TdPrinter.Hmi.ConfigList
import TdPrinter.Foundation.Chain
import TdPrinter.Hmi.DirectoryFilter
import TdPrinter.Hmi.FilePages
import TdPrinter.Bsp.SerialWrite
import TdPrinter.Heater.OutlierLimiter
import TdPrinter.Foundation.Tiling
import TdPrinter.RtThread.Mem
import TdPrinter.RtThread.MemBlocks
import TdPrinter.RtThread.MemOps
import TdPrinter.RtThread.MemRun
import TdPrinter.RtThread.Timer
import TdPrinter.GCode.Language
import TdPrinter.GCode.Interpreter
import TdPrinter.Position.Travel
import TdPrinter.Print.Execution
import TdPrinter.Foundation.Smoothing
import TdPrinter.Heater.HeaterControl
import TdPrinter.Foundation.Printing
import TdPrinter.Ymodem.Transmit
import TdPrinter.Ymodem.Wire

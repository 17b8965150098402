import MotionCore.Bus.Relays
import MotionCore.Bus.Rounds
import MotionCore.Bus.Summaries
import MotionCore.BusSup.Answers
import MotionCore.Cfl.Delivered
import MotionCore.Cfl.Orderly
import MotionCore.Dicts.Lookup
import MotionCore.Dsl.Braces
import MotionCore.Dsl.Hash
import MotionCore.Engine.Conds
import MotionCore.Engine.DictionaryRuns
import MotionCore.Engine.ForkRuns
import MotionCore.Engine.Formulas
import MotionCore.Engine.InvokeParams
import MotionCore.Engine.Loops
import MotionCore.Engine.Served
import MotionCore.Engine.Triggers
import MotionCore.Equation.Compound
import MotionCore.Eto.Once
import MotionCore.Farm.CimisDays
import MotionCore.Farm.MoistureRuns
import MotionCore.Farm.Resolver
import MotionCore.Farm.Watchdog
import MotionCore.Firmware.ShellQueue
import MotionCore.Firmware.Waveform
import MotionCore.Flash.PowerLoss
import MotionCore.Host.ExecDeadline
import MotionCore.Host.FaultGate
import MotionCore.Host.LinkLoss
import MotionCore.Host.ProvisioningWaits
import MotionCore.Host.ResetRuns
import MotionCore.Interlock.DeadBand
import MotionCore.Interlock.Numbers
import MotionCore.Interlock.Reports
import MotionCore.Interlock.Rollback
import MotionCore.Irrigation.Cursor
import MotionCore.Irrigation.Kb4
import MotionCore.Irrigation.Live
import MotionCore.Irrigation.Posts
import MotionCore.Loader.Bounds
import MotionCore.Persistence.Announces
import MotionCore.Persistence.Names
import MotionCore.Persistence.Pushes
import MotionCore.Persistence.StreamPages
import MotionCore.Quads.Rotation
import MotionCore.Quads.Scratch
import MotionCore.Quads.Tags
import MotionCore.Ra4m1.FaultLatch
import MotionCore.Ra4m1.Goertzel
import MotionCore.Ra4m1.MotorSafety
import MotionCore.Ra4m1.Ownership
import MotionCore.Ra4m1.Probe
import MotionCore.Ra4m1.Spectral
import MotionCore.Records.Paths
import MotionCore.Slots.Counting
import MotionCore.Slots.Loading
import MotionCore.Slots.Ownership
import MotionCore.System.CommandTrip
import MotionCore.Wire.Link

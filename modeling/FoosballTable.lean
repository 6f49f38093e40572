import FoosballTable.Library.Runs
import FoosballTable.Motors.Registry
import FoosballTable.Motors.Account
import FoosballTable.Logic.Model
import FoosballTable.Logic.Thread
import FoosballTable.Motors.PauseResume
import FoosballTable.Logic.Mailbox
import FoosballTable.Logic.Preemption
import FoosballTable.Library.Arrays
import FoosballTable.Library.RunLength
import FoosballTable.Tracker.Model
import FoosballTable.Tracker.Filter
import FoosballTable.Tracker.Publication
import FoosballTable.Command.Handler
import FoosballTable.Library.Decimal
import FoosballTable.Command.Bounds
import FoosballTable.Command.RoundTrip
import FoosballTable.Interface.BreakList
import FoosballTable.System.Model
import FoosballTable.System.Freeze
import FoosballTable.System.Gameplay
import FoosballTable.Command.Reading
import FoosballTable.Command.WellFormed
import FoosballTable.Command.Determined
import FoosballTable.System.Restart
import FoosballTable.System.Rejection
import FoosballTable.Logic.Rods
import FoosballTable.System.Orders
import FoosballTable.Library.Midpoints
import FoosballTable.System.Position
import FoosballTable.Logic.Strategy
import FoosballTable.Logic.Kicks
import FoosballTable.System.Unknown
import FoosballTable.Tracker.Switching
import FoosballTable.Library.Heap
import FoosballTable.Motors.Memory
import FoosballTable.Interface.Grid
import FoosballTable.Interface.Highlights
import FoosballTable.System.SharedPosition
import FoosballTable.Interface.Ball
import FoosballTable.System.DrawnBall
import FoosballTable.Library.Ranking
import FoosballTable.Logic.Progress
import FoosballTable.Library.Simulation
import FoosballTable.Tracker.Pausing
import FoosballTable.System.StuckLasers
import FoosballTable.Tracker.Latency
import FoosballTable.Library.Ring
import FoosballTable.Pipes.Fifo
import FoosballTable.Pipes.Delivery
import FoosballTable.Pipes.Device
import FoosballTable.Interface.PauseKey
import FoosballTable.Interface.PauseMotion
import FoosballTable.Pipes.TypedCommand
import FoosballTable.Library.Table
import FoosballTable.SharedMemory.Driver
import FoosballTable.SharedMemory.Accounts
import FoosballTable.SharedMemory.Calls
import FoosballTable.SharedMemory.Holding
import FoosballTable.Pipes.Lifetime
import FoosballTable.Pipes.Loading

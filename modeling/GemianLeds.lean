import GemianLeds.Interaction.Program
import GemianLeds.Interaction.Threads
import GemianLeds.Interaction.Merge
import GemianLeds.Interaction.Runs
import GemianLeds.Interaction.Progress
import GemianLeds.Sequencer.Machine
import GemianLeds.Sequencer.Simulation
import GemianLeds.Animation.Cues
import GemianLeds.LightState.Data
import GemianLeds.LightState.Update
import GemianLeds.LightState.Emission
import GemianLeds.LightState.Operations
import GemianLeds.LightState.Commuting
import GemianLeds.LightState.Staging
import GemianLeds.DBus.LEDs
import GemianLeds.DBus.BlockStep
import GemianLeds.DBus.TorchTimer
import GemianLeds.DBus.Handlers
import GemianLeds.Registration.HandlerRegistration
import GemianLeds.Registration.EventSlots
import GemianLeds.Daemon.ActionQueue
import GemianLeds.Daemon.Locking
import GemianLeds.Daemon.Wakeups
import GemianLeds.Daemon.Promptness
import GemianLeds.Daemon.Flush
import GemianLeds.Connman.Variant
import GemianLeds.Connman.Messages
import GemianLeds.Interaction.Feed
import GemianLeds.Connman.Watcher
import GemianLeds.AW9120.Board
import GemianLeds.AW9120.Words
import GemianLeds.AW9120.Channels
import GemianLeds.AW9120.Loading
import GemianLeds.AW9120.PowerLevels
import GemianLeds.Program.Closed
import GemianLeds.Program.Budget
import GemianLeds.Program.Encoding
import GemianLeds.Program.StatusLEDs
import GemianLeds.Program.WaitTime
import GemianLeds.Program.Torch
import GemianLeds.Program.History
import GemianLeds.Program.Currents
import GemianLeds.Program.TwoThreads
import GemianLeds.Program.Frames
import GemianLeds.System.Requested
import GemianLeds.System.Parts
import GemianLeds.System.Device
import GemianLeds.System.Following
import GemianLeds.System.Uploads
import GemianLeds.Interaction.Views
import GemianLeds.Program.Interleaved
import GemianLeds.EventLoop.Loop
import GemianLeds.EventLoop.Futures
import GemianLeds.EventLoop.Progress
import GemianLeds.DBus.TypeStrings
import GemianLeds.DBus.Interface
import GemianLeds.System.Rest
import GemianLeds.EventLoop.Jobs
import GemianLeds.DBus.OnLoop
import GemianLeds.DBus.Releases
import GemianLeds.DBus.Callbacks
import GemianLeds.System.Process
import GemianLeds.System.Refinement
import GemianLeds.System.Standstill

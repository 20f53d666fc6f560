import CollectiveTuner.Buffer
import CollectiveTuner.Catalog
import CollectiveTuner.Catalog.Algorithm
import CollectiveTuner.Collective
import CollectiveTuner.Communicator.Call
import CollectiveTuner.Communicator.Monitor
import CollectiveTuner.Communicator.Native
import CollectiveTuner.Configuration
import CollectiveTuner.Datatype
import CollectiveTuner.Decomposition.Attempt
import CollectiveTuner.Decomposition.Combining
import CollectiveTuner.Decomposition.Movement
import CollectiveTuner.Dictionary
import CollectiveTuner.Error
import CollectiveTuner.Event
import CollectiveTuner.FileTree
import CollectiveTuner.Files
import CollectiveTuner.Layout
import CollectiveTuner.Layout.Machine
import CollectiveTuner.Listing
import CollectiveTuner.Machine
import CollectiveTuner.Main
import CollectiveTuner.Options
import CollectiveTuner.Profile
import CollectiveTuner.Profile.Reader
import CollectiveTuner.Program
import CollectiveTuner.Proofs.Buffer.Blocks
import CollectiveTuner.Proofs.Communicator.Combining
import CollectiveTuner.Proofs.Communicator.Deliveries
import CollectiveTuner.Proofs.Communicator.Exchanges
import CollectiveTuner.Proofs.Communicator.Folds
import CollectiveTuner.Proofs.Communicator.Lockstep
import CollectiveTuner.Proofs.Communicator.Movement
import CollectiveTuner.Proofs.Communicator.Permutations
import CollectiveTuner.Proofs.Communicator.Rejections
import CollectiveTuner.Proofs.Communicator.Replies
import CollectiveTuner.Proofs.Communicator.Schedules
import CollectiveTuner.Proofs.Communicator.Together
import CollectiveTuner.Proofs.Communicator.Transfers
import CollectiveTuner.Proofs.Configuration.Composition
import CollectiveTuner.Proofs.Configuration.Discards
import CollectiveTuner.Proofs.Decomposition.Combining
import CollectiveTuner.Proofs.Decomposition.Conduct
import CollectiveTuner.Proofs.Decomposition.Movement
import CollectiveTuner.Proofs.Decomposition.Pipelines
import CollectiveTuner.Proofs.Decomposition.Plans
import CollectiveTuner.Proofs.Decomposition.Steps
import CollectiveTuner.Proofs.Dictionary.Updates
import CollectiveTuner.Proofs.Layout.Padding
import CollectiveTuner.Proofs.Layout.Shares
import CollectiveTuner.Proofs.Layout.Tilings
import CollectiveTuner.Proofs.Options.Arguments
import CollectiveTuner.Proofs.Profile.Faults
import CollectiveTuner.Proofs.Profile.Format
import CollectiveTuner.Proofs.Profile.Lookup
import CollectiveTuner.Proofs.Profile.Memory
import CollectiveTuner.Proofs.Profile.Reading
import CollectiveTuner.Proofs.Profile.Sheets
import CollectiveTuner.Proofs.Profile.Verdicts
import CollectiveTuner.Proofs.Reduction.Elements
import CollectiveTuner.Proofs.Reduction.InPlace
import CollectiveTuner.Proofs.Reduction.Merge
import CollectiveTuner.Proofs.Reduction.Words
import CollectiveTuner.Proofs.Scratch.Histories
import CollectiveTuner.Proofs.Scratch.Shapes
import CollectiveTuner.Proofs.Settings.RoundTrip
import CollectiveTuner.Proofs.Settings.Texts
import CollectiveTuner.Proofs.Text.Lines
import CollectiveTuner.Proofs.Transport.Completion
import CollectiveTuner.Proofs.Transport.Confluence
import CollectiveTuner.Proofs.Transport.History
import CollectiveTuner.Proofs.Transport.Wiring
import CollectiveTuner.Proofs.Tuner.Calls
import CollectiveTuner.Proofs.Tuner.Choices
import CollectiveTuner.Proofs.Tuner.ControlFlow
import CollectiveTuner.Proofs.Tuner.Directories
import CollectiveTuner.Proofs.Tuner.Fallback
import CollectiveTuner.Proofs.Tuner.Groups
import CollectiveTuner.Proofs.Tuner.Loading
import CollectiveTuner.Proofs.Tuner.Machine
import CollectiveTuner.Proofs.Tuner.Permutations
import CollectiveTuner.Proofs.Tuner.Plans
import CollectiveTuner.Proofs.Tuner.Precedence
import CollectiveTuner.Proofs.Tuner.Preparing
import CollectiveTuner.Proofs.Tuner.Refusals
import CollectiveTuner.Proofs.Tuner.Rejections
import CollectiveTuner.Proofs.Tuner.Requests
import CollectiveTuner.Proofs.Tuner.Selecting
import CollectiveTuner.Proofs.Tuner.Sessions
import CollectiveTuner.Proofs.Tuner.Settling
import CollectiveTuner.Proofs.Tuner.Shortfalls
import CollectiveTuner.Proofs.Tuner.Starting
import CollectiveTuner.Proofs.Tuner.Telemetry
import CollectiveTuner.Proofs.Tuner.Warnings
import CollectiveTuner.Reduction
import CollectiveTuner.Reduction.Binary
import CollectiveTuner.Scratch.Arena
import CollectiveTuner.Scratch.Pool
import CollectiveTuner.Selection
import CollectiveTuner.Settings
import CollectiveTuner.Text.Blank
import CollectiveTuner.Text.Line
import CollectiveTuner.Text.Number
import CollectiveTuner.Transport.Execution
import CollectiveTuner.Transport.Network
import CollectiveTuner.Transport.Wiring
import CollectiveTuner.Tuner
import CollectiveTuner.Tuner.Machine
import CollectiveTuner.Tuner.Recorder
import CollectiveTuner.Tuner.Request

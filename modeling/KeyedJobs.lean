import KeyedJobs.Completion.Session
import KeyedJobs.Config.Printer
import KeyedJobs.Main
import KeyedJobs.Retry.Run
import KeyedJobs.Proofs.Coordinator.Exclusion
import KeyedJobs.Proofs.Coordinator.Wakefulness
import KeyedJobs.Proofs.Coordinator.Conservation
import KeyedJobs.Proofs.Coordinator.Shutdown
import KeyedJobs.Proofs.Coordinator.WindingDown
import KeyedJobs.Proofs.Coordinator.Finishing
import KeyedJobs.Proofs.Coordinator.Succession
import KeyedJobs.Proofs.Coordinator.LettingGo
import KeyedJobs.Proofs.Coordinator.Independence
import KeyedJobs.Proofs.Coordinator.Inspection
import KeyedJobs.Proofs.KeyQueue.History
import KeyedJobs.Proofs.Retry.Protocol
import KeyedJobs.Proofs.Load.Returning
import KeyedJobs.Proofs.Coordinator.Reckoning
import KeyedJobs.Proofs.Completion.Lifetimes
import KeyedJobs.Proofs.Retry.Indifference
import KeyedJobs.Proofs.Monitor.Watchfulness
import KeyedJobs.Proofs.Retry.TimeLimits
import KeyedJobs.Proofs.Coordinator.Frozen
import KeyedJobs.Proofs.Coordinator.TakingTurns
import KeyedJobs.Proofs.Completion.Carrying
import KeyedJobs.Proofs.Config.RoundTrip
import KeyedJobs.Proofs.CommandLine.Resolution
import KeyedJobs.Proofs.KeyQueue.Isolation
import KeyedJobs.Proofs.KeyQueue.Representation
import KeyedJobs.Proofs.Config.Rounding
import KeyedJobs.Proofs.Load.Fairness
import KeyedJobs.Proofs.Coordinator.IdleCalls

import BromiumCoreUtils.Lib.Machine
import BromiumCoreUtils.Lib.Refinement
import BromiumCoreUtils.Lib.Log
import BromiumCoreUtils.Lib.Bag
import BromiumCoreUtils.Lib.Descriptors
import BromiumCoreUtils.Lib.Heap
import BromiumCoreUtils.Lib.Pipe
import BromiumCoreUtils.Lib.PathObjects
import BromiumCoreUtils.Lib.PathString
import BromiumCoreUtils.Lib.TextEncoding
import BromiumCoreUtils.Lib.Separated
import BromiumCoreUtils.Lib.SwapLock
import BromiumCoreUtils.Lib.Forest
import BromiumCoreUtils.Lib.SerialQueues
import BromiumCoreUtils.Lib.Linearizability
import BromiumCoreUtils.Lib.Wrapper
import BromiumCoreUtils.Lib.Undo
import BromiumCoreUtils.Foundation
import BromiumCoreUtils.Arithmetic.Basic
import BromiumCoreUtils.Arithmetic.Multiply
import BromiumCoreUtils.Arithmetic.Conversions
import BromiumCoreUtils.Arithmetic.Expressions
import BromiumCoreUtils.DispatchUtils.Basic
import BromiumCoreUtils.DispatchUtils.Discipline
import BromiumCoreUtils.MemoryRegion.Basic
import BromiumCoreUtils.MemoryRegion.SubRegion
import BromiumCoreUtils.Deferred.Basic
import BromiumCoreUtils.Deferred.Delivery
import BromiumCoreUtils.EitherErrorOrSuccess.Basic
import BromiumCoreUtils.Box.Basic
import BromiumCoreUtils.Box.Threads
import BromiumCoreUtils.Box.Wakeup
import BromiumCoreUtils.Box.Buffer
import BromiumCoreUtils.Box.Linearizable
import BromiumCoreUtils.Box.Outcomes
import BromiumCoreUtils.ConcurrentVariable.Basic
import BromiumCoreUtils.ConcurrentVariable.Linearizable
import BromiumCoreUtils.Box.SwapLock
import BromiumCoreUtils.RateLimiter.Basic
import BromiumCoreUtils.RateLimiter.Conflation
import BromiumCoreUtils.RateLimiter.Exclusion
import BromiumCoreUtils.RateLimiter.Threads
import BromiumCoreUtils.RateLimiter.Lifetime
import BromiumCoreUtils.Timer.Basic
import BromiumCoreUtils.Timer.Chain
import BromiumCoreUtils.Timer.OneShot
import BromiumCoreUtils.Timer.Intervals
import BromiumCoreUtils.Timer.Lifetime
import BromiumCoreUtils.Retry.Basic
import BromiumCoreUtils.Retry.Transition
import BromiumCoreUtils.Retry.Outstanding
import BromiumCoreUtils.Retry.Join
import BromiumCoreUtils.Retry.Completion
import BromiumCoreUtils.Retry.Attempt
import BromiumCoreUtils.Retry.Cancel
import BromiumCoreUtils.Retry.Delay
import BromiumCoreUtils.Retry.TimerRace
import BromiumCoreUtils.Retry.AttemptLoop
import BromiumCoreUtils.Retry.MaxRetries
import BromiumCoreUtils.Retry.Lifetime
import BromiumCoreUtils.Task.Arguments
import BromiumCoreUtils.Task.Environment
import BromiumCoreUtils.Task.Descriptors
import BromiumCoreUtils.Task.Handshake
import BromiumCoreUtils.Task.Launch
import BromiumCoreUtils.Task.Parent
import BromiumCoreUtils.Task.ParentDescriptors
import BromiumCoreUtils.Task.ExitHandler
import BromiumCoreUtils.Task.Reaping
import BromiumCoreUtils.Task.WaitUntilExit
import BromiumCoreUtils.Task.Observers
import BromiumCoreUtils.Task.Signals
import BromiumCoreUtils.FileMonitor.Basic
import BromiumCoreUtils.FileMonitor.Convergence
import BromiumCoreUtils.FileMonitor.Sessions
import BromiumCoreUtils.FileMonitor.Resources
import BromiumCoreUtils.FileMonitor.Isolation
import BromiumCoreUtils.FileMonitor.FailedStart
import BromiumCoreUtils.FileMonitor.EdgeTriggered
import BromiumCoreUtils.FileMonitor.Spelling
import BromiumCoreUtils.TemporaryFiles.Basic
import BromiumCoreUtils.TemporaryFiles.Suffix
import BromiumCoreUtils.TemporaryFiles.Directory
import BromiumCoreUtils.TemporaryFiles.Disk
import BromiumCoreUtils.ResourceCleanup.Basic
import BromiumCoreUtils.ResourceCleanup.Acquisition
import BromiumCoreUtils.SetDiffFormatter.Basic

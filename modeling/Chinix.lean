import Chinix.Outcome
import Chinix.NodeLists
import Chinix.Runs
import Chinix.PlatformTimer
import Chinix.Machine
import Chinix.QueueInvariant
import Chinix.QueueRuns
import Chinix.Urgency
import Chinix.PriorityRange
import Chinix.PreemptLock
import Chinix.Lifecycle
import Chinix.Moves
import Chinix.LifeInvariant
import Chinix.Simulation
import Chinix.ThreadCalls
import Chinix.Steps
import Chinix.RunQueueInvariant
import Chinix.WaitQueueInvariant
import Chinix.Scheduling
import Chinix.BlockingCalls
import Chinix.Joining
import Chinix.Reaping
import Chinix.ExitQueues
import Chinix.Detaching
import Chinix.Whereabouts
import Chinix.WhereaboutsRuns
import Chinix.ThreadExit
import Chinix.StackTimers
import Chinix.Interrupts
import Chinix.InterruptLines
import Chinix.PageWalk
import Chinix.Assembly
import Chinix.PagingSetup
import Chinix.KernelMappings
import Chinix.TimerSystem
import Chinix.TimerOrder
import Chinix.TimerHistory
import Chinix.TimerDeadlines
import Chinix.TimerLoss
import Chinix.PlatformClock
import Chinix.CircularList
import Chinix.HeadInsertion
import Chinix.BeforeResched
import Chinix.RunQueueGrowth
import Chinix.Quantum
import Chinix.CyclicOrder
import Chinix.RoundRobin
import Chinix.ListSequences
import Chinix.Unblocking
import Chinix.ThreadCreation
import Chinix.CountingLoop
import Chinix.Console
import Chinix.ConsoleBounds
import Chinix.ReferenceTerminal
import Chinix.Printf
import Chinix.Numerals
import Chinix.PrintfFields
import Chinix.PrintfComposition
import Chinix.PrintfDirectives
import Chinix.PrintfNumbers
import Chinix.PrintfWidth
import Chinix.DigitBuffers
import Chinix.ByteStrings
import Chinix.StringFunctions
import Chinix.StringCopies
import Chinix.StringComparison
import Chinix.WordMemory
import Chinix.ContextSwitch
import Chinix.ContextPreserved
import Chinix.Uniprocessor
import Chinix.LockedKernel
import Chinix.LockedCalls
import Chinix.InterruptState
import Chinix.LockDiscipline
import Chinix.FifoQueue
import Chinix.Dispatching
import Chinix.TimeSlices
import Chinix.LoopInstruction
import Chinix.BssSetup
import Chinix.IdtSetup
import Chinix.InterruptGates
import Chinix.InterruptEntry
import Chinix.InterruptTransparency
import Chinix.PrintfConsole
import Chinix.TimerPointers
import Chinix.TimerArmings
import Chinix.KconfigExpr
import Chinix.KconfigTransform
import Chinix.KconfigEquality
import Chinix.KconfigDuplicates
import Chinix.KconfigPlaces
import Chinix.KconfigJoins
import Chinix.KconfigSimplification
import Chinix.KconfigRounds
import Chinix.KconfigMenu
import Chinix.DelimitedText
import Chinix.TreeWalk
import Chinix.KconfigFile
import Chinix.KconfigLines
import Chinix.KconfigRoundTrip
import Chinix.KconfigReading
import Chinix.InterruptService
import Chinix.InterruptRuns
import Chinix.InterruptDelivery
import Chinix.InterruptHistory
import Chinix.TimedWaits
import Chinix.Wakeups

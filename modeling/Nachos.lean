import Nachos.TransitionRuns
import Nachos.ListSplice
import Nachos.BitMap
import Nachos.FileHeader
import Nachos.FileHeaderAllocate
import Nachos.FileHeaderRoundTrip
import Nachos.OpenFile
import Nachos.OpenFileContents
import Nachos.Directory
import Nachos.ExclusiveOwnership
import Nachos.FileSystem
import Nachos.FileSystemLayout
import Nachos.FileSystemAccounting
import Nachos.FileSystemIsolation
import Nachos.ByteStore
import Nachos.Machine
import Nachos.AddrSpace
import Nachos.Translate
import Nachos.UserPrograms
import Nachos.TranslationView
import Nachos.TranslationSteps
import Nachos.TlbCoherence
import Nachos.FrameOwnership
import Nachos.AddrSpaceIsolation
import Nachos.MesaMonitor
import Nachos.Synch
import Nachos.SynchQueues
import Nachos.SynchInvariant
import Nachos.SemaphoreSafety
import Nachos.MesaSemantics
import Nachos.MonitorRuns
import Nachos.RWLock
import Nachos.Barrier
import Nachos.BarrierRound
import Nachos.LinkedList
import Nachos.Interrupt
import Nachos.InterruptDelivery
import Nachos.SynchList
import Nachos.SynchDisk
import Nachos.Network
import Nachos.PostOffice
import Nachos.ThreadRegistry
import Nachos.ThreadLifecycle
import Nachos.Scheduler
import Nachos.Kernel
import Nachos.PriorityDispatch
import Nachos.Preemption
import Nachos.FileBlocks
import Nachos.FileIndex
import Nachos.FileAllocation
import Nachos.FileTransfer
import Nachos.SlotMap
import Nachos.DirectoryMap
import Nachos.FileSystemCreation
import Nachos.FileHeaderPrint
import Nachos.TlbUniqueness
import Nachos.OutsideAddresses
import Nachos.ReadAfterWrite
import Nachos.DirtyBits
import Nachos.DirtyTracking
import Nachos.LinearTranslation
import Nachos.YieldOrder
import Nachos.YieldPolicies
import Nachos.SchedulerInvariants
import Nachos.PriorityAgeing
import Nachos.ProgramImage
import Nachos.ProgramLoading
import Nachos.PendingOrder
import Nachos.WrappingClock
import Nachos.ClockRange
import Nachos.ClockAgreement
import Nachos.IdleTimers
import Nachos.InstructionDecode
import Nachos.Processor
import Nachos.InstructionExecution
import Nachos.Multiplication
import Nachos.KernelTraps
import Nachos.IntegerInstructions
import Nachos.MemoryAccesses
import Nachos.InstructionRestart
import Nachos.InstructionSafety
import Nachos.LoadDelay
import Nachos.CoffConversion
import Nachos.CoffSections
import Nachos.MemoryImages
import Nachos.CoffImage
import Nachos.Console
import Nachos.ConsoleInput
import Nachos.RotatingMedia
import Nachos.DiskTiming
import Nachos.BitMapSets
import Nachos.LinkedChains
import Nachos.ListPointers
import Nachos.ListSequences
import Nachos.ListWalks
import Nachos.FileStore
import Nachos.FileSystemStore
import Nachos.FileUtilities
import Nachos.ProducerConsumer
import Nachos.SemaphoreTest
import Nachos.ConditionTest
import Nachos.ServiceOrder
import Nachos.FileSystemPrint
import Nachos.MailboxLists
import Nachos.PostOfficeProgress
import Nachos.MailTest
import Nachos.MailExchange
import Nachos.CoffFlat
import Nachos.ReadWriteTest
import Nachos.BarrierTest

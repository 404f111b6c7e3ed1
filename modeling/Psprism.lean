import Psprism.Lib.Binary32
import Psprism.Lib.Codec
import Psprism.Lib.Framing
import Psprism.Lib.History
import Psprism.Lib.Interleaving
import Psprism.Lib.Machine
import Psprism.Lib.Memo
import Psprism.Lib.Overlay
import Psprism.Lib.Packed
import Psprism.Lib.Ring
import Psprism.Lib.StableQueue
import Psprism.Lib.TicketLock
import Psprism.Reloc
import Psprism.RelocCompact
import Psprism.State
import Psprism.Arith
import Psprism.Vfpu
import Psprism.VfpuExecute
import Psprism.Decoder
import Psprism.Interpreter
import Psprism.Stmt
import Psprism.Emit
import Psprism.StmtFrame
import Psprism.EmitPlain
import Psprism.EmitControl
import Psprism.EmitConvert
import Psprism.Image
import Psprism.RelocRun
import Psprism.RelocWords
import Psprism.JumpTargets
import Psprism.Analysis
import Psprism.Project
import Psprism.Runner
import Psprism.RunnerItem
import Psprism.RunnerSim
import Psprism.RunnerDecline
import Psprism.Dispatch
import Psprism.ImportStubs
import Psprism.Heap
import Psprism.Vpl
import Psprism.VplWait
import Psprism.Wait
import Psprism.Semaphore
import Psprism.Mutex
import Psprism.Mailbox
import Psprism.EventFlag
import Psprism.GuestExecution
import Psprism.AudioEngine
import Psprism.Savedata
import Psprism.GeMemory
import Psprism.GeTexture
import Psprism.GeExecutor
import Psprism.GeTextureCache
import Psprism.GeScheduler
import Psprism.GeLists
import Psprism.GeOrder
import Psprism.GeResume
import Psprism.MediaEngine
import Psprism.MediaPlayback
import Psprism.MediaDates
import Psprism.MpegRingbuffer
import Psprism.SasMix
import Psprism.Lib.Transducer
import Psprism.AtracTrack
import Psprism.AtracPosition
import Psprism.AtracReset
import Psprism.Access
import Psprism.PatchRegistry
import Psprism.Lib.Sha2
import Psprism.Hash
import Psprism.Lib.Assignments
import Psprism.PatchPointers
import Psprism.PatchArguments
import Psprism.PatchCall
import Psprism.PatchEdges
import Psprism.FileView
import Psprism.FileIo
import Psprism.FileCalls
import Psprism.FilePosition
import Psprism.ProjectManifest
import Psprism.PublishReplacements
import Psprism.Hydrate
import Psprism.RelocPairs
import Psprism.RelocCursor
import Psprism.SavedataFailure
import Psprism.Lib.PathText
import Psprism.SavedataPaths
import Psprism.SemaphoreBounds
import Psprism.ThreadStack
import Psprism.Fpl
import Psprism.ObjectMemory
import Psprism.Lib.Fetch
import Psprism.GeTextureReads
import Psprism.GeVertexReads
import Psprism.IsoDirectory
import Psprism.IsoLookup
import Psprism.IsoLayout
import Psprism.IsoPatch
import Psprism.IsoReplace
import Psprism.IsoReadBack
import Psprism.DispatchRoutes
import Psprism.CodeMapFile
import Psprism.UnalignedWords
import Psprism.Lib.FileTree
import Psprism.ManifestText
import Psprism.PublishTree
import Psprism.IsoExtract
import Psprism.GuestPaths
import Psprism.AnalysisRun
import Psprism.SasBounds
import Psprism.SasOverflow
import Psprism.SasEnvelope
import Psprism.UtilityDialogs
import Psprism.BufferReads
import Psprism.AtracReads
import Psprism.Sfo
import Psprism.ElfLoader
import Psprism.MediaReads
import Psprism.MediaSafety
import Psprism.AtracStreaming
import Psprism.AtracNextSamples
import Psprism.DispatcherSim
import Psprism.ExecuteGuest
import Psprism.ThreadSleep
import Psprism.Timers
import Psprism.CriticalSections
import Psprism.Coverage
import Psprism.FileIsolation
import Psprism.GeContextSave
import Psprism.GeTraceFile
import Psprism.FplWait
import Psprism.FreeMemory
import Psprism.MailboxWait
import Psprism.ThreadStart
import Psprism.AudioMix
import Psprism.Lib.Monitor
import Psprism.Wakeups
import Psprism.GuestText
import Psprism.GuestCallback
import Psprism.Lib.HostPath

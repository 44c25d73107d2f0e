import AsimFeeder.Lib.Slots
import AsimFeeder.Lib.Runs
import AsimFeeder.Trace.TraceBuffer
import AsimFeeder.Trace.TraceBufferReplay
import AsimFeeder.SoftSDV.Ring
import AsimFeeder.SoftSDV.RingSafety
import AsimFeeder.Lib.DList
import AsimFeeder.SoftSDV.ReplayBuffer
import AsimFeeder.SoftSDV.ReplayList
import AsimFeeder.SoftSDV.ReplayOps
import AsimFeeder.SoftSDV.ReplayRuns
import AsimFeeder.SoftSDV.ReplayUids
import AsimFeeder.SoftSDV.Link
import AsimFeeder.SoftSDV.LinkCredit
import AsimFeeder.SoftSDV.LinkDeadlock
import AsimFeeder.SoftSDV.RegRecords
import AsimFeeder.SoftSDV.RegMatch
import AsimFeeder.SoftSDV.RegFeed
import AsimFeeder.SoftSDV.MemAccess
import AsimFeeder.SoftSDV.MergeREP
import AsimFeeder.SoftSDV.PageLookup
import AsimFeeder.SoftSDV.MergeRegions
import AsimFeeder.SoftSDV.MergeOperands
import AsimFeeder.SoftSDV.MergeRuns
import AsimFeeder.SoftSDV.MergeExact
import AsimFeeder.Gambit.RefeedBuffer
import AsimFeeder.Gambit.RefeedRuns
import AsimFeeder.Lib.FirstTouch
import AsimFeeder.AddrTrans.PageColoring
import AsimFeeder.AddrTrans.PageRuns
import AsimFeeder.AddrTrans.PageSafety
import AsimFeeder.Lib.Scan
import AsimFeeder.Lib.Checks
import AsimFeeder.Lib.Covering
import AsimFeeder.MemoryValues.MemoryValues
import AsimFeeder.MemoryValues.MemoryReads
import AsimFeeder.MemoryValues.MemoryStores
import AsimFeeder.MemoryValues.MemoryRuns
import AsimFeeder.MemoryValues.LoadValues
import AsimFeeder.Tracer.PipeSleep
import AsimFeeder.Sched.SchedRuns
import AsimFeeder.Sched.SwitchDrain
import AsimFeeder.Lib.Interleaving
import AsimFeeder.Atf.Agreement
import AsimFeeder.Atf.Independence
import AsimFeeder.Atf.Encoding
import AsimFeeder.Atf.TraceReader
import AsimFeeder.Tracer.FeedTrace
import AsimFeeder.Tracer.TraceReplay
import AsimFeeder.Lib.Lookaside
import AsimFeeder.Aint.AddressSpace
import AsimFeeder.Aint.SharedSegments
import AsimFeeder.Aint.Translation
import AsimFeeder.Lib.ReplayWindow
import AsimFeeder.Synth.SynthThread
import AsimFeeder.Synth.SynthReplay
import AsimFeeder.Synth.IterationRuns
import AsimFeeder.Synth.StoreVisibility
import AsimFeeder.Synth.PathRuns
import AsimFeeder.MemFeeder.MemThread
import AsimFeeder.MemFeeder.MemBundle
import AsimFeeder.MemFeeder.MemDelivery
import AsimFeeder.Lib.Threaded
import AsimFeeder.Aint.Rename
import AsimFeeder.Aint.RenameRing
import AsimFeeder.Aint.RenameMaps
import AsimFeeder.Aint.RenameRuns
import AsimFeeder.Aint.RenameBack
import AsimFeeder.Aint.Renaming
import AsimFeeder.Lib.Buckets
import AsimFeeder.Aint.StoreBuffer
import AsimFeeder.Aint.AintThread
import AsimFeeder.Aint.StoreContent
import AsimFeeder.Aint.StoreUpdates
import AsimFeeder.Aint.StoreRuns
import AsimFeeder.Aint.ForwardBytes
import AsimFeeder.Aint.Forwarding
import AsimFeeder.Aint.ForwardRuns
import AsimFeeder.Atf.LastPages
import AsimFeeder.Atf.WriteRetry
import AsimFeeder.Atf.WriteRecords
import AsimFeeder.Atf.ReadBack
import AsimFeeder.Atf.Tracking
import AsimFeeder.Atf.TrackCalls
import AsimFeeder.Atf.TrackInstr
import AsimFeeder.Atf.RoundTrip
import AsimFeeder.Aint.Quiesce
import AsimFeeder.Sched.SchedFair
import AsimFeeder.Lib.Registry
import AsimFeeder.Lib.Monitor
import AsimFeeder.Aint.PosixThread
import AsimFeeder.Aint.PosixRuns
import AsimFeeder.Aint.RenameReads
import AsimFeeder.Aint.PthreadJoin
import AsimFeeder.Aint.JoinRuns
import AsimFeeder.Lib.Loops
import AsimFeeder.Aint.Markers
import AsimFeeder.Aint.MarkerRuns
import AsimFeeder.Lib.Lanes
import AsimFeeder.Aint.PackedOps
import AsimFeeder.Aint.PackedMeaning
import AsimFeeder.Aint.PackedLanes
import AsimFeeder.Aint.PackedTotals
import AsimFeeder.Aint.PackedRight
import AsimFeeder.Aint.PackedFits
import AsimFeeder.Aint.NewInst
import AsimFeeder.Aint.ZeroRegister
import AsimFeeder.Aint.ZeroRuns
import AsimFeeder.Aint.Snapshot
import AsimFeeder.Aint.SnapshotRuns
import AsimFeeder.Aint.Semop
import AsimFeeder.SoftSDV.Itranslate
import AsimFeeder.SoftSDV.ItranslateRuns
import AsimFeeder.SoftSDV.StaleTranslations
import AsimFeeder.Gambit.InOrder
import AsimFeeder.Trace.Skip
import AsimFeeder.Mingo.DepTable
import AsimFeeder.Mingo.DepTableRuns
import AsimFeeder.SoftSDV.MemoryRefsEnd
import AsimFeeder.SoftSDV.MemoryRefsExact
import AsimFeeder.Aint.SkipRuns
import AsimFeeder.SoftSDV.VTranslate
import AsimFeeder.SoftSDV.ReadMemory
import AsimFeeder.Gtrace.RegisterRecords
import AsimFeeder.Gtrace.Reader
import AsimFeeder.Gtrace.ControlFlow
import AsimFeeder.Gtrace.Delivery
import AsimFeeder.Mingo.Handshake
import AsimFeeder.Mingo.HandshakeTurns
import AsimFeeder.Mingo.HandshakeClient
import AsimFeeder.Mingo.HandshakeAsim
import AsimFeeder.Mingo.HandshakeRuns
import AsimFeeder.Aint.Feed
import AsimFeeder.Aint.FeedBack
import AsimFeeder.Aint.FeedRuns
import AsimFeeder.Lib.BlockHash
import AsimFeeder.SoftSDV.Md5
import AsimFeeder.SoftSDV.Md5Stream
import AsimFeeder.SoftSDV.Lockstep
import AsimFeeder.SoftSDV.LockstepLocal
import AsimFeeder.SoftSDV.LockstepChannel
import AsimFeeder.SoftSDV.LockstepRuns
import AsimFeeder.SoftSDV.LockstepHistory
import AsimFeeder.SoftSDV.FeederIpf
import AsimFeeder.SoftSDV.FeederIpfCalls
import AsimFeeder.SoftSDV.FeederIpfRuns

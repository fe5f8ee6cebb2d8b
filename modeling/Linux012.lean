import Linux012.BlkDrv.Request
import Linux012.BlkDrv.RequestProperties
import Linux012.BlkDrv.Elevator
import Linux012.BlkDrv.PoolQueues
import Linux012.Lib.Transition
import Linux012.Fs.BufferSteps
import Linux012.Fs.FileWriteCache
import Linux012.Fs.BlockDev
import Linux012.Fs.DescriptorAccess
import Linux012.Fs.BmapRaces
import Linux012.Fs.AllocationFailures
import Linux012.Fs.TruncateFreeing
import Linux012.Fs.FileCounts
import Linux012.Fs.InodeFreeing
import Linux012.Fs.InodeCopies
import Linux012.Fs.InodeSleepers
import Linux012.Kernel.SignalMasks
import Linux012.Kernel.Fork
import Linux012.Kernel.ExitStatus
import Linux012.Kernel.TreeShape
import Linux012.Kernel.WaitChains
import Linux012.Kernel.TimerTicks
import Linux012.Kernel.Coprocessor
import Linux012.Kernel.Restart
import Linux012.Kernel.Sessions
import Linux012.Kernel.MallocSoundness
import Linux012.ChrDrv.ConsoleBounds
import Linux012.ChrDrv.TtyRings
import Linux012.ChrDrv.LineEditing
import Linux012.Fs.DirectoryRaces
import Linux012.Fs.NamingReferences
import Linux012.Fs.LinkExactness
import Linux012.Fs.PipeChunks
import Linux012.Fs.PipeStream
import Linux012.Fs.ExecHeader
import Linux012.Fs.ArgumentFreeing
import Linux012.Mm.SwapSlots
import Linux012.Fs.BlockContents
import Linux012.Fs.ZoneMapping
import Linux012.Fs.DirectoryMap
import Linux012.Fs.FilePositions
import Linux012.Fs.FailedCreation
import Linux012.BlkDrv.RequestFailures
import Linux012.BlkDrv.Partitions
import Linux012.BlkDrv.RequestRetries
import Linux012.Fs.ReadAhead
import Linux012.Fs.SuperReading
import Linux012.Fs.DirectoryScans
import Linux012.Fs.LinkFollowing
import Linux012.Fs.DeviceSync
import Linux012.Fs.Duplication
import Linux012.Kernel.ResourceLimits
import Linux012.Kernel.StopContinue
import Linux012.Mm.SwapStart
import Linux012.Mm.SwapScan
import Linux012.Mm.VerifyArea
import Linux012.Mm.LoadedPages
import Linux012.Mm.FreePage
import Linux012.Fs.Access
import Linux012.Fs.PipeCall
import Linux012.ChrDrv.Scrolling
import Linux012.ChrDrv.Output
import Linux012.ChrDrv.ConsoleQueue
import Linux012.Fs.Select
import Linux012.ChrDrv.Wakeups
import Linux012.ChrDrv.Sleepers
import Linux012.ChrDrv.LineCount
import Linux012.ChrDrv.PtyEchoes
import Linux012.Fs.SelectEvents
import Linux012.Math.Add
import Linux012.Math.Divide
import Linux012.Math.StoredReals
import Linux012.Math.Compare
import Linux012.Math.Machine
import Linux012.Math.EffectiveAddress
import Linux012.Math.Transfers
import Linux012.Math.RegisterForms
import Linux012.Math.Leftovers
import Linux012.Math.StoredIntegers
import Linux012.Kernel.SegmentDescriptors
import Linux012.Kernel.Vsprintf
import Linux012.Kernel.Mktime

import MachinekitHal.Ring.RecordFifo
import MachinekitHal.Ring.RecordFlush
import MachinekitHal.Hal.ObjectList
import MachinekitHal.Hal.ThreadPriority
import MachinekitHal.Hal.References
import MachinekitHal.Hal.ObjectIds
import MachinekitHal.Runtime.InstanceParams
import MachinekitHal.Haltalk.Subscribers
import MachinekitHal.Runtime.HeapSafety
import MachinekitHal.Runtime.ShmemTable
import MachinekitHal.Hal.Memory
import MachinekitHal.Components.StepgenTiming
import MachinekitHal.Components.Stepgenv2
import MachinekitHal.Components.EncoderIndex
import MachinekitHal.HalCommand.NetAtomic
import MachinekitHal.Ring.RecordIter
import MachinekitHal.Hostmot2.SserialIndex
import MachinekitHal.Hostmot2.SserialScaling
import MachinekitHal.Hostmot2.SserialAccumulation
import MachinekitHal.Hostmot2.Tram
import MachinekitHal.Hostmot2.EthReceive
import MachinekitHal.Components.ScopeCapture
import MachinekitHal.Hal.RingRegions
import MachinekitHal.Ring.StreamVectors
import MachinekitHal.Runtime.SnapshotReturn
import MachinekitHal.Ring.MultiframeFlush
import MachinekitHal.Runtime.HeapAnswers
import MachinekitHal.Runtime.HeapRealloc
import MachinekitHal.Runtime.HeapCoalescing
import MachinekitHal.Runtime.HeapTags
import MachinekitHal.Components.Limit3Limits
import MachinekitHal.Hal.RingDeletion
import MachinekitHal.Hal.PlugFailure
import MachinekitHal.Hal.CompiledGroup
import MachinekitHal.Hal.ComponentExit
import MachinekitHal.Haltalk.SetByName
import MachinekitHal.HalCommand.Dispatch
import MachinekitHal.Runtime.LogRing
import MachinekitHal.HalCommand.Delsig
import MachinekitHal.HalCommand.ReplaceVars
import MachinekitHal.MkIni.Find
import MachinekitHal.HalCommand.ValueText
import MachinekitHal.HalCommand.RejectedArguments
import MachinekitHal.Haltalk.BindRejected
import MachinekitHal.Components.PwmgenDuty
import MachinekitHal.Components.TrajectoryBounds
import MachinekitHal.Components.EncoderRatio
import MachinekitHal.Components.StepgenParams
import MachinekitHal.Components.EncoderVelocity
import MachinekitHal.Components.Pwmgenv2Settled
import MachinekitHal.Components.DelaylineLaw
import MachinekitHal.Hostmot2.StepgenControl
import MachinekitHal.Hostmot2.StepgenMode
import MachinekitHal.Hostmot2.Resolver
import MachinekitHal.Hostmot2.EthErrorsLaw
import MachinekitHal.Hostmot2.Uart
import MachinekitHal.Components.EdgeCounter
import MachinekitHal.Hostmot2.AbsencFormatLaw
import MachinekitHal.Components.StepgenEncoder
import MachinekitHal.Components.StreamerFile

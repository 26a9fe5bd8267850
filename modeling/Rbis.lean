import Rbis.Lib.Runs
import Rbis.Lib.Fallible
import Rbis.Sched.AssignDlRbg
import Rbis.Sched.IteratorSafety
import Rbis.Sched.Admission
import Rbis.Sched.RestRequest
import Rbis.Sched.Weights
import Rbis.Sched.ControlLoop
import Rbis.Sched.Registry
import Rbis.Lib.Monitor
import Rbis.Server.Env
import Rbis.Server.Handshake
import Rbis.Server.Correspondence
import Rbis.Server.Configure
import Rbis.Server.Infer
import Rbis.Server.Service
import Rbis.Server.Learner
import Rbis.Server.Coherence
import Rbis.Server.Atomicity
import Rbis.Lib.Average
import Rbis.Sched.Reward
import Rbis.Sched.RewardRange
import Rbis.Sched.ReportedSet
import Rbis.Sched.Freshness
import Rbis.Sched.Partition
import Rbis.Lib.Strips
import Rbis.Sched.DlSlot
import Rbis.Sched.Collision
import Rbis.Sched.Accounting
import Rbis.Sched.Isolation
import Rbis.Link.Report
import Rbis.Link.Response
import Rbis.Lib.Lindley
import Rbis.Sched.VirtualQueue
import Rbis.Sched.DataLogger
import Rbis.Rlc.UmTransmit
import Rbis.Rlc.UmBuffer
import Rbis.Server.Persistence
import Rbis.Sched.CqiManagement
import Rbis.Sched.McsTable
import Rbis.Sched.Priority
import Rbis.Sched.Throughput
import Rbis.Lib.TwoRuns
import Rbis.Sched.Locality
import Rbis.Sched.MonotonePenalty
import Rbis.Lib.Numeral
import Rbis.Server.ActionCodec
import Rbis.Sched.MeanGfbr
import Rbis.Sched.Rejection
import Rbis.Sched.Velocity
import Rbis.Lib.Clipping
import Rbis.Sched.Obstacles
import Rbis.Sched.Reaping
import Rbis.Sched.Divisors
import Rbis.Lib.FirstCome
import Rbis.Sched.AssignUlRbg
import Rbis.Sched.UlFairness
import Rbis.Lib.Blocks
import Rbis.Sched.SubBands
import Rbis.Server.Symmetry
import Rbis.Rlc.UmLink
import Rbis.Lib.Journal
import Rbis.Sched.HarqFeedback
import Rbis.Sched.HarqHistory
import Rbis.Sched.UlHarq
import Rbis.Sched.BeamOrder
import Rbis.Sched.DlHarq
import Rbis.Sched.Srs
import Rbis.Lib.Marks
import Rbis.Lib.Turns
import Rbis.Sched.LogicalChannels
import Rbis.Sched.ResourceMatrix
import Rbis.Sched.SymbolShare

import Mec.Lib.Fifo
import Mec.Queue.Basic
import Mec.Queue.Fifo
import Mec.Lib.RefCount
import Mec.Queue.Holders
import Mec.Queue.Snapshot
import Mec.Fusion.Kalman
import Mec.Lib.Axes
import Mec.Fusion.Axes
import Mec.Lib.Covariance
import Mec.Fusion.Covariance
import Mec.Fusion.Basic
import Mec.Fusion.Pass
import Mec.Fusion.Runs
import Mec.Fusion.Timestamps
import Mec.Fusion.Elapsed
import Mec.Fusion.Identity
import Mec.Radar.Noise
import Mec.Radar.Resync
import Mec.Lib.FreeStack
import Mec.Lib.Prefix
import Mec.Memory.Basic
import Mec.Memory.Pools
import Mec.Memory.Accounting
import Mec.Lib.Bytes
import Mec.Lib.Stores
import Mec.V2x.Codec
import Mec.V2x.Packet
import Mec.V2x.Broadcast
import Mec.V2x.Fields
import Mec.V2x.TargetId
import Mec.Radar.Convert
import Mec.V2x.Encodable
import Mec.Lib.Typestate
import Mec.Thread.Basic
import Mec.Thread.Lifecycle
import Mec.Fusion.History
import Mec.Lib.Rounding
import Mec.Lib.Binary64
import Mec.Lib.Smoothing
import Mec.Fusion.Confidence
import Mec.Fusion.Lifetime
import Mec.Fusion.Provenance
import Mec.Lib.Information
import Mec.Fusion.Commute
import Mec.Fusion.Gate
import Mec.Lib.Argmin
import Mec.Fusion.Repeat
import Mec.Radar.Delivery
import Mec.Lib.Lines
import Mec.Lib.Scan
import Mec.Simulator.Playback
import Mec.Config.Basic
import Mec.Config.Sections
import Mec.Fusion.Decisions
import Mec.Main.Reload
import Mec.Lib.LockOrder
import Mec.Locks.Functions
import Mec.Locks.Threads
import Mec.Locks.Deadlock
import Mec.Lib.CondVar
import Mec.Queue.Wakeup
import Mec.Lib.Mealy
import Mec.Radar.Port
import Mec.Radar.Sound
import Mec.Radar.Complete
import Mec.Radar.Shared
import Mec.Fusion.Associate
import Mec.Fusion.Contract
import Mec.V2x.Bounds
import Mec.V2x.Decode
import Mec.Config.Pairs
import Mec.Video.Basic
import Mec.Video.Calibration
import Mec.Config.OneEntry
import Mec.Config.Handle
import Mec.Lib.Records
import Mec.Memory.Contents
import Mec.Memory.Tracks
import Mec.Queue.Deadline
import Mec.Video.Unique
import Mec.Monitor
import Mec.Main.Feed
import Mec.Main.Shutdown
import Mec.Radar.Chain
import Mec.Simulator.Pacing
import Mec.Fusion.Relisted
import Mec.Memory.Flags
import Mec.Monitor.Report
import Mec.Logging

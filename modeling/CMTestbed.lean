import CMTestbed.Lib.Heap
import CMTestbed.Lib.ChainedTable
import CMTestbed.Lib.Table
import CMTestbed.Lib.History
import CMTestbed.Lib.System
import CMTestbed.Lib.Bytes
import CMTestbed.Lib.Numbering
import CMTestbed.Lib.Slots
import CMTestbed.Lib.Floats
import CMTestbed.Flow
import CMTestbed.Frame
import CMTestbed.Tables
import CMTestbed.FixSize
import CMTestbed.Ledger
import CMTestbed.Delivery
import CMTestbed.Warehouse
import CMTestbed.Losses
import CMTestbed.Packets
import CMTestbed.Text
import CMTestbed.Mapping
import CMTestbed.VlanTag
import CMTestbed.Tasks
import CMTestbed.Generate
import CMTestbed.Replay
import CMTestbed.Sampling
import CMTestbed.Intervals
import CMTestbed.Lib.Prog
import CMTestbed.Calls
import CMTestbed.Conditions
import CMTestbed.Proofs.FiniteMap
import CMTestbed.Proofs.LossDetection
import CMTestbed.Proofs.Levels
import CMTestbed.Proofs.Losses
import CMTestbed.Proofs.Sampling
import CMTestbed.Proofs.Frames
import CMTestbed.Proofs.Mapping
import CMTestbed.Proofs.StaleBytes
import CMTestbed.Proofs.Tags
import CMTestbed.Proofs.Generate
import CMTestbed.Proofs.Calls
import CMTestbed.Proofs.Conditions
import CMTestbed.Proofs.Rounds
import CMTestbed.Proofs.Conservation
import CMTestbed.Proofs.Intervals
import CMTestbed.Proofs.LossCounter
import CMTestbed.Proofs.Totals
import CMTestbed.Proofs.UnderReports
import CMTestbed.Proofs.Priority
import CMTestbed.Proofs.Iteration
import CMTestbed.Lib.FirstPath
import CMTestbed.Lib.Entries
import CMTestbed.Lib.Flood
import CMTestbed.Lib.Worklist
import CMTestbed.Proofs.Flooding
import CMTestbed.Proofs.Locking
import CMTestbed.Proofs.SwitchLogs
import CMTestbed.Proofs.Counters
import CMTestbed.Reports
import CMTestbed.HostLogs
import CMTestbed.Proofs.HostLogs
import CMTestbed.Proofs.Reports
import CMTestbed.Proofs.Senders
import CMTestbed.TaskFiles
import CMTestbed.Proofs.TaskFiles
import CMTestbed.Proofs.Volumes
import CMTestbed.SeqIds
import CMTestbed.Proofs.SeqIds
import CMTestbed.Proofs.Installed
import CMTestbed.Proofs.Passes
import CMTestbed.Proofs.Prefixes
import CMTestbed.Lib.Tokens
import CMTestbed.Splitting
import CMTestbed.Proofs.Splitting
import CMTestbed.Proofs.Overruns
import CMTestbed.Proofs.TraceLines
import CMTestbed.Receiver
import CMTestbed.Proofs.Receiver
import CMTestbed.Lib.Places
import CMTestbed.Pointers
import CMTestbed.Proofs.Pointers
import CMTestbed.Config
import CMTestbed.Proofs.Config
import CMTestbed.Lib.Polling
import CMTestbed.Settings
import CMTestbed.Clock
import CMTestbed.Proofs.Clock
import CMTestbed.Proofs.Consistency
import CMTestbed.Lib.Divided
import CMTestbed.Divisions
import CMTestbed.Proofs.Divisions
import CMTestbed.Lib.UniquePath
import CMTestbed.Monitors
import CMTestbed.Proofs.Monitors
import CMTestbed.Lib.Tally
import CMTestbed.Results
import CMTestbed.Proofs.Metrics
import CMTestbed.Proofs.RoundRatios
import CMTestbed.Proofs.FalsePositives
import CMTestbed.Lib.Copy
import CMTestbed.Proofs.Copies
import CMTestbed.Indexes
import CMTestbed.Proofs.Indexes
import CMTestbed.Lib.FlowTable
import CMTestbed.Forwarding
import CMTestbed.Proofs.FlowTables
import CMTestbed.Proofs.Forwarding
import CMTestbed.Proofs.Monitored
import CMTestbed.TasksInfo
import CMTestbed.Proofs.TasksInfo
import CMTestbed.Proofs.Deployed
import CMTestbed.Proofs.Tagged
import CMTestbed.ConditionPackets
import CMTestbed.Proofs.ConditionPackets
import CMTestbed.Fifo
import CMTestbed.Lib.Records
import CMTestbed.Proofs.Fifo
import CMTestbed.Testbed
import CMTestbed.Proofs.Stations
import CMTestbed.Proofs.Views
import CMTestbed.Proofs.Testbed
import CMTestbed.Lib.Framed
import CMTestbed.Savefile
import CMTestbed.Proofs.Savefile
import CMTestbed.PcapFiles
import CMTestbed.Proofs.PcapFiles

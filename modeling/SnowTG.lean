import SnowTG.Tcp.SendWindow
import SnowTG.Tcp.RetransmitTimer
import SnowTG.Dispatch.FlowLookup
import SnowTG.Owner.CommandOutcome
import SnowTG.Owner.Slots
import SnowTG.Endpoint.BindRuns
import SnowTG.Tcp.SackPipe
import SnowTG.Owner.TxInvariant
import SnowTG.Tcp.AckDuty
import SnowTG.Dispatch.Handover
import SnowTG.Tcp.TimerCallback
import SnowTG.Tcp.OptionGrammar
import SnowTG.Tcp.SegmentSize
import SnowTG.Tcp.SackRuns
import SnowTG.Tcp.Timestamps
import SnowTG.Traffic.Selection
import SnowTG.Traffic.Latency
import SnowTG.Traffic.Dns
import SnowTG.Traffic.CapacityGate
import SnowTG.Tcp.CubicGrowth
import SnowTG.Tcp.Link

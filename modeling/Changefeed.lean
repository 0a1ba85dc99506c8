import Changefeed.Checkpoint.Files
import Changefeed.Dispatch
import Changefeed.Fetch.Pipeline
import Changefeed.Fetch.Runner
import Changefeed.Planner
import Changefeed.Proofs.Backoff
import Changefeed.Proofs.Checkpoint.Confinement
import Changefeed.Proofs.Checkpoint.Names
import Changefeed.Proofs.Decoding
import Changefeed.Proofs.Failures
import Changefeed.Proofs.Fetch.Accounting
import Changefeed.Proofs.Fetch.AllOrNothing
import Changefeed.Proofs.Fetch.Binding
import Changefeed.Proofs.Fetch.Delivery
import Changefeed.Proofs.Fetch.HighWatermark
import Changefeed.Proofs.Fetch.Intake
import Changefeed.Proofs.Fetch.LastImages
import Changefeed.Proofs.Fetch.LeftOut
import Changefeed.Proofs.Fetch.LiveLayout
import Changefeed.Proofs.Fetch.Protocol
import Changefeed.Proofs.Fetch.Pushes
import Changefeed.Proofs.Fetch.Rerun
import Changefeed.Proofs.Fetch.Restart
import Changefeed.Proofs.Gtid.Built
import Changefeed.Proofs.Gtid.Checked
import Changefeed.Proofs.Gtid.Count
import Changefeed.Proofs.Gtid.Joined
import Changefeed.Proofs.Gtid.RoundTrip
import Changefeed.Proofs.Handoff.Pipeline
import Changefeed.Proofs.Handouts
import Changefeed.Proofs.IntegerKeys
import Changefeed.Proofs.Offset.Text
import Changefeed.Proofs.Planner
import Changefeed.Proofs.Queue.Ending
import Changefeed.Proofs.Queue.Fifo
import Changefeed.Proofs.Queue.Traffic
import Changefeed.Proofs.Resume
import Changefeed.Proofs.Schema.Arrival
import Changefeed.Proofs.Schema.Covering
import Changefeed.Proofs.Schema.Order
import Changefeed.Proofs.Schema.Registration
import Changefeed.Proofs.Schema.Replay
import Changefeed.Proofs.StreamStart
import Changefeed.Proofs.TableNames
import Changefeed.Queue.Exchange
import Changefeed.Wire.Config
import Changefeed.Wire.Metrics
import Changefeed.Wire.Queue
import Changefeed.Wire.Retry
import Changefeed.Wire.Server

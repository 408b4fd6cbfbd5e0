import Superstep.Main
import Superstep.Proofs.ExactlyOnce
import Superstep.Proofs.PageRank.ExactIndex
import Superstep.Proofs.PageRank.Parking
import Superstep.Proofs.PageRank.Separation
import Superstep.Proofs.PageRank.Snapshots
import Superstep.Proofs.Engine.Leftovers
import Superstep.Proofs.Growth
import Superstep.Proofs.Snapshot.Rearrangement
import Superstep.Proofs.PageRank.Delivery
import Superstep.Proofs.Engine.Unordered
import Superstep.Proofs.PageRank.Spread
import Superstep.Proofs.PageRank.Walks
import Superstep.Proofs.PageRank.Loading
import Superstep.Proofs.PageRank.Safety
import Superstep.Proofs.PageRank.Repetition
import Superstep.Proofs.Snapshot.Size
import Superstep.Proofs.Engine.Accounting
import Superstep.Proofs.PageRank.Pruning
import Superstep.Proofs.PageRank.Decay
import Superstep.Proofs.Engine.Sharing
import Superstep.Proofs.PageRank.Approximation
import Superstep.Proofs.PageRank.Ranking
import Superstep.Proofs.PageRank.Unindexed
import Superstep.Proofs.EdgeList
import Superstep.Proofs.PageRank.Sources
import Superstep.Proofs.Merging

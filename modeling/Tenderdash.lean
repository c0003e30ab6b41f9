import Tenderdash.Evidence.Identity
import Tenderdash.Mempool.Index
import Tenderdash.Privval.Resigning
import Tenderdash.Store.Segment
import Tenderdash.P2P.RateLimit
import Tenderdash.State.ProposalSize
import Tenderdash.State.Rollback
import Tenderdash.Consensus.Agreement
import Tenderdash.State.CrashRecovery
import Tenderdash.Types.PartSetRoundTrip
import Tenderdash.Consensus.LaneFairness
import Tenderdash.Blocksync.HeadOfLine
import Tenderdash.Consensus.RelayedProposal
import Tenderdash.Consensus.Decision
import Tenderdash.Consensus.Assertions
import Tenderdash.Statesync.Backfill
import Tenderdash.Statesync.ChunkQueue
import Tenderdash.Statesync.Dispatcher
import Tenderdash.Statesync.PeerList
import Tenderdash.Statesync.SnapshotPool
import Tenderdash.P2P.PeerStore
import Tenderdash.Consensus.WALRecovery
import Tenderdash.Consensus.PeerTruth
import Tenderdash.Consensus.VoteRounds
import Tenderdash.Consensus.MessageCost
import Tenderdash.Consensus.Reexecution
import Tenderdash.Consensus.ChangeSets
import Tenderdash.Consensus.Catchup
import Tenderdash.Light.Store
import Tenderdash.Crypto.KeyPath
import Tenderdash.Crypto.MerkleTree
import Tenderdash.Eventlog.Contents
import Tenderdash.Eventlog.WaitScan

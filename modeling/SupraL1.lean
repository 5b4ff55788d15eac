import SupraL1.Lib.EState
import SupraL1.Lib.Journal
import SupraL1.Lib.Linked
import SupraL1.Lib.Stutter
import SupraL1.Lib.Run
import SupraL1.Lib.Relate
import SupraL1.Lib.Paging
import SupraL1.Lib.Pool
import SupraL1.Lib.Fallible
import SupraL1.Lib.KeySet
import SupraL1.Lib.Decimal
import SupraL1.Lib.Deal
import SupraL1.Lib.RoundRobin
import SupraL1.Lib.Shamir
import SupraL1.Lib.Ring
import SupraL1.Lib.Lru
import SupraL1.Consensus.Types
import SupraL1.Consensus.ChainStore
import SupraL1.Consensus.BlockStore
import SupraL1.Consensus.BlockVerifier
import SupraL1.Consensus.State
import SupraL1.Consensus.Synchronizer
import SupraL1.Consensus.Assembler
import SupraL1.Consensus.Node
import SupraL1.MoveCore
import SupraL1.Rest.ApiServerState
import SupraL1.Consensus.Peer
import SupraL1.Rest.MoveList
import SupraL1.Rest.Simulation
import SupraL1.Rest.Delegates
import SupraL1.Rest.Faucet
import SupraL1.Rest.RestCallLimiter
import SupraL1.Rest.RpcStorage
import SupraL1.Rest.Archive
import SupraL1.Rest.Ledger
import SupraL1.Rest.Submission
import SupraL1.Rest.Minting
import SupraL1.Gas.CircularBuf
import SupraL1.Gas.Statistics
import SupraL1.Client.AwaitFinalized
import SupraL1.Node.IdentityRotation
import SupraL1.Genesis.Error
import SupraL1.Genesis.MainnetAccounts
import SupraL1.Genesis.Signatures
import SupraL1.Genesis.Ceremony
import SupraL1.Nidkg.Tool
import SupraL1.Nidkg.Ceremony
import SupraL1.Consensus.Proof.Acts
import SupraL1.Consensus.Proof.Refine
import SupraL1.Consensus.Proof.Creation
import SupraL1.Consensus.Proof.Chain
import SupraL1.Consensus.Proof.Epoch
import SupraL1.Consensus.Proof.Restart
import SupraL1.Consensus.Proof.Boundary
import SupraL1.Consensus.Proof.Serve
import SupraL1.Consensus.Proof.Bucket
import SupraL1.Consensus.Proof.Order
import SupraL1.Consensus.Proof.Sync
import SupraL1.Consensus.Proof.CacheBound
import SupraL1.Consensus.Proof.Initialize
import SupraL1.Consensus.Proof.Lives
import SupraL1.Consensus.Proof.Peers
import SupraL1.Consensus.Proof.CatchUp
import SupraL1.Rest.Proof.Pagination
import SupraL1.Rest.Proof.Scan
import SupraL1.Rest.Proof.Simulation
import SupraL1.Rest.Proof.Faucet
import SupraL1.Rest.Proof.Cooldown
import SupraL1.Rest.Proof.Delegates
import SupraL1.Rest.Proof.RestCallLimiter
import SupraL1.Rest.Proof.Lookup
import SupraL1.Rest.Proof.Archive
import SupraL1.Rest.Proof.Submission
import SupraL1.Rest.Proof.Minting
import SupraL1.Rest.Proof.Outstanding
import SupraL1.Gas.Proof.Window
import SupraL1.Gas.Proof.Mean
import SupraL1.Gas.Proof.Statistics
import SupraL1.Client.Proof.Pacing
import SupraL1.Node.Proof.IdentityRotation
import SupraL1.Genesis.Proof.Accounts
import SupraL1.Genesis.Proof.Assign
import SupraL1.Genesis.Proof.Slices
import SupraL1.Genesis.Proof.Stakes
import SupraL1.Genesis.Proof.Limit
import SupraL1.Genesis.Proof.Unlock
import SupraL1.Genesis.Proof.Minted
import SupraL1.Genesis.Proof.Signatures
import SupraL1.Genesis.Proof.Ceremony
import SupraL1.Genesis.Proof.Duplicates
import SupraL1.Genesis.Proof.VestingPools
import SupraL1.Genesis.Proof.Predicted
import SupraL1.Nidkg.Proof.Selection
import SupraL1.Nidkg.Proof.CommitteeKey
import SupraL1.Nidkg.Proof.Line
import SupraL1.Nidkg.Proof.Ceremony

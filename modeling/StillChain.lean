import StillChain.Core.Types
import StillChain.Core.Store
import StillChain.State.Apply
import StillChain.State.Undo
import StillChain.State.Nonces
import StillChain.Chain.CheckBlock
import StillChain.Chain.Engine
import StillChain.Chain.Steps
import StillChain.Chain.ForkChoice
import StillChain.Chain.Tips
import StillChain.Chain.Reorg
import StillChain.Chain.Content
import StillChain.Chain.Orphans
import StillChain.Chain.Deorphan
import StillChain.Chain.Switch
import StillChain.Chain.Topo
import StillChain.Codec.Bytes
import StillChain.Codec.Transaction
import StillChain.Codec.Block
import StillChain.Chain.Checkpoints
import StillChain.Chain.Buckets
import StillChain.Chain.Ingress
import StillChain.Chain.TxIndex
import StillChain.Chain.Mempool
import StillChain.Block.Merge
import StillChain.Block.Pow
import StillChain.Sync.Queue

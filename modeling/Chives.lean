import Chives.Util.StreamableJson
import Chives.Util.FullBlockUtils
import Chives.Util.MerkleSetTotal
import Chives.Util.Keychain
import Chives.Util.CachedBls
import Chives.Consensus.GeneratorRefs
import Chives.Wallet.Knapsack
import Chives.Wallet.SingletonHistory
import Chives.Wallet.CatRing
import Chives.FullNode.MempoolReplacement
import Chives.FullNode.MempoolBlock
import Chives.Wallet.WalletSyncUtils
import Chives.FullNode.SyncStore
import Chives.FullNode.LockQueue
import Chives.Server.WsConnection
import Chives.Util.DbWrapper
import Chives.Cmds.DbUpgrade
import Chives.PlotSync.Refresh
import Chives.Wallet.NftLayers
import Chives.Wallet.WalletTransactionStore
import Chives.Wallet.TradeManager
import Chives.Masternode.MasternodeRewards
import Chives.Wallet.RaceCache
import Chives.Wallet.ReceiveState
import Chives.Wallet.ShortSync
import Chives.Util.PuzzleHashAddress
import Chives.Wallet.OfferEncodings
import Chives.Wallet.OfferAggregate
import Chives.FullNode.CoinStoreRollback
import Chives.Consensus.FinalEos
import Chives.Consensus.AdjustmentBounds
import Chives.Consensus.Conservation
import Chives.Consensus.NewBlockCalls
import Chives.Wallet.DidInnerpuz
import Chives.Wallet.FollowedChain
import Chives.Wallet.RateLimitedHistory
import Chives.Server.RateLimits
import Chives.FullNode.FutureCaches
import Chives.FullNode.BundleTools
import Chives.Wallet.ForkParameters
import Chives.Wallet.BlockChallenge
import Chives.Wallet.ChialispDeserialisation

import GraftNetwork.Lib.Machine
import GraftNetwork.Lib.Window
import GraftNetwork.Lib.EStateM
import GraftNetwork.Lib.Relational
import GraftNetwork.Lib.Aggregate
import GraftNetwork.Lib.Decoder
import GraftNetwork.HardFork.Basic
import GraftNetwork.HardFork.Schedule
import GraftNetwork.HardFork.Window
import GraftNetwork.HardFork.Replay
import GraftNetwork.HardFork.Switch
import GraftNetwork.Stake.Storage
import GraftNetwork.Stake.BlockchainBasedList
import GraftNetwork.Stake.Processor
import GraftNetwork.Stake.Cache
import GraftNetwork.Stake.Queries
import GraftNetwork.Stake.Aggregation
import GraftNetwork.Stake.Tiers
import GraftNetwork.Stake.History
import GraftNetwork.Stake.BlockHashes
import GraftNetwork.Database.Lmdb
import GraftNetwork.Core.Blockchain
import GraftNetwork.Core.IncomingTxs
import GraftNetwork.Core.Reorg
import GraftNetwork.Core.Difficulty
import GraftNetwork.Serialization.BinaryArchive
import GraftNetwork.Serialization.RctTypes
import GraftNetwork.Serialization.Transaction
import GraftNetwork.Lib.Radix
import GraftNetwork.Basic.FormatUtils
import GraftNetwork.Core.MinerTx
import GraftNetwork.Core.MemoryPool
import GraftNetwork.Lib.Index
import GraftNetwork.Wallet.Wallet2
import GraftNetwork.Lib.Words
import GraftNetwork.Lib.Permutation
import GraftNetwork.Basic.IntUtil
import GraftNetwork.Basic.Difficulty
import GraftNetwork.Core.BlockReward
import GraftNetwork.Core.BlockTemplate
import GraftNetwork.Core.TxUtils
import GraftNetwork.Serialization.JsonObject
import GraftNetwork.Serialization.TxExtra
import GraftNetwork.Core.DynamicFee
import GraftNetwork.Lib.Blocks
import GraftNetwork.Common.Base58
import GraftNetwork.Basic.Address
import GraftNetwork.Protocol.BlockQueue
import GraftNetwork.Lib.MultiIndex
import GraftNetwork.P2p.Peerlist
import GraftNetwork.Wallet.Balance
import GraftNetwork.Ringct.Amounts
import GraftNetwork.Wallet.OutputSelection
import GraftNetwork.Lib.MultiScalar
import GraftNetwork.Ringct.Multiexp.Scalars
import GraftNetwork.Ringct.Multiexp.Straus
import GraftNetwork.Ringct.Multiexp.Pippenger
import GraftNetwork.Ringct.Multiexp.BosCoster
import GraftNetwork.Core.ChainSync
import GraftNetwork.Mnemonics.ElectrumWords
import GraftNetwork.Lib.MerkleTree
import GraftNetwork.Crypto.TreeHash
import GraftNetwork.Lib.OrderedMap
import GraftNetwork.Lib.DecoderFailure
import GraftNetwork.Serialization.PortableStorage
import GraftNetwork.Serialization.PortableStorageLoad

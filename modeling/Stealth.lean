import Stealth.Chain.Abort
import Stealth.Chain.Conflicts
import Stealth.Chain.IndexCache
import Stealth.Chain.IndexRecord
import Stealth.Chain.LiveSnapshots
import Stealth.Chain.Locator
import Stealth.Chain.MerkleTree
import Stealth.Chain.Orphans
import Stealth.Chain.Serialize
import Stealth.Chain.SharedCache
import Stealth.Chain.Startup
import Stealth.Chain.Undo
import Stealth.Chain.WriteBatch
import Stealth.Mempool.Assembly
import Stealth.Mempool.OrphanTxs
import Stealth.Network.HiddenName
import Stealth.Network.Tried
import Stealth.Qpos.Activation
import Stealth.Qpos.Assignments
import Stealth.Qpos.LocalClock
import Stealth.Qpos.Price
import Stealth.Qpos.SlotHistory
import Stealth.Qpos.Sqrt
import Stealth.Qpos.TimeSplit
import Stealth.Rpc.RichList
import Stealth.Script.Instructions
import Stealth.Script.Limits
import Stealth.Wallet.Feeless
import Stealth.Wallet.Money
import Stealth.Wallet.Purchase

import Araba.Lib.Bytes
import Araba.Lib.Traced
import Araba.Lib.Mutex
import Araba.Lib.Lines
import Araba.Crypto.Splitting
import Araba.Crypto.Conformance
import Araba.MacText
import Araba.Payload
import Araba.Persistence
import Araba.Acknowledgement
import Araba.Locking
import Araba.Network
import Araba.Mixing
import Araba.RouteAge
import Araba.QueueInterleaving
import Araba.FalseAcks
import Araba.InvalidPackets
import Araba.TornAppend
import Araba.PairCiphers
import Araba.DecryptBuffer
import Araba.Adjacency
import Araba.OpenMesh
import Araba.Retries
import Araba.Ledger
import Araba.StoreAndForward
import Araba.Duplicates
import Araba.EncryptBuffer
import Araba.Frames
import Araba.ReassemblyBuffer
import Araba.AdvertisedHops
import Araba.RouteBuffer
import Araba.DamagedQueue
import Araba.Crypto.KeySchedule
import Araba.MacKeys
import Araba.Config
import Araba.Targets
import Araba.Integrity
import Araba.DelayedDelivery
import Araba.Settlement
import Araba.Interface
import Araba.MemorySafety
import Araba.Tampering
import Araba.Discovery
import Araba.Link
import Araba.Silence
import Araba.RouteWindows
import Araba.Paths
import Araba.LoadedConfig
import Araba.Alike
import Araba.Simulation
import Araba.EndToEnd
import Araba.Blocking
import Araba.Unrelayed

import AnomaAlpha.Arithmetic
import AnomaAlpha.CallOrder
import AnomaAlpha.Captured
import AnomaAlpha.CodeCache
import AnomaAlpha.Delivery
import AnomaAlpha.Dependencies
import AnomaAlpha.Expiry
import AnomaAlpha.Floods
import AnomaAlpha.Pipe
import AnomaAlpha.Wallet
import AnomaAlpha.Gossip
import AnomaAlpha.Immutable
import AnomaAlpha.InFlight
import AnomaAlpha.Independent
import AnomaAlpha.Joins
import AnomaAlpha.Maps
import AnomaAlpha.Masking
import AnomaAlpha.Mempool
import AnomaAlpha.Outbound
import AnomaAlpha.PassiveBound
import AnomaAlpha.Roundtrip
import AnomaAlpha.Rows
import AnomaAlpha.Serial
import AnomaAlpha.Shuffling
import AnomaAlpha.Slots
import AnomaAlpha.Supply
import AnomaAlpha.Symmetry
import AnomaAlpha.Tips
import AnomaAlpha.Broadcast
import AnomaAlpha.TopicSafety
import AnomaAlpha.Untrusted
import AnomaAlpha.Violation
import AnomaAlpha.Watching
import AnomaAlpha.Behaviour
import AnomaAlpha.Crew

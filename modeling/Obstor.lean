import Obstor.Activity.Segments
import Obstor.Block.Heal
import Obstor.Dsync.Expiry
import Obstor.Dsync.MutualExclusion
import Obstor.Erasure.Bitrot
import Obstor.Erasure.Placing
import Obstor.Erasure.ReadObject
import Obstor.Fleet.CapacityHistory
import Obstor.Hash.Reader
import Obstor.Heal.ErasureSet
import Obstor.Iam.Memberships
import Obstor.Ldap.Normalize
import Obstor.Lifecycle.ComputeAction
import Obstor.Listing.Delimiters
import Obstor.Listing.Hidden
import Obstor.Lock.Retention
import Obstor.Metacache.BlockReads
import Obstor.Metacache.Cleanup
import Obstor.Metacache.ListPathRaw
import Obstor.Metacache.WalkRestricts
import Obstor.Multipart.BlockParts
import Obstor.Multipart.CompleteSafety
import Obstor.NsLock.Safety
import Obstor.Quorum.Dangling
import Obstor.Quorum.Format
import Obstor.Sign.ChunkedReader
import Obstor.Sse.RangeMapping

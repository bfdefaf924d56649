import Odyssey.IndexedDB.DecodeReservations
import Odyssey.IndexedDB.SchedulerOrder
import Odyssey.IndexedDB.SchedulerDrain
import Odyssey.IndexedDB.RefusedRecords
import Odyssey.IndexedDB.RangeQueries
import Odyssey.IndexedDB.ObjectStoreCursorRuns
import Odyssey.IndexedDB.MemoryIndexCursorRuns
import Odyssey.IndexedDB.StoreRegistryRuns
import Odyssey.WebSockets.ChannelPacketization
import Odyssey.Text.CodecUTF8RoundTrip
import Odyssey.Media.MediaTimeSum
import Odyssey.Memory.PageOccupancy
import Odyssey.Graphics.RegionRects
import Odyssey.Graphics.RegionEquality
import Odyssey.URLs.AddressRoundTrip
import Odyssey.URLs.FormEncoding
import Odyssey.BigInt.Comparison
import Odyssey.Collections.MapIteration
import Odyssey.Collections.MapKeys
import Odyssey.Collections.FailedAllocation
import Odyssey.Structures.StructureRuns
import Odyssey.Structures.PropertyTableRuns
import Odyssey.Cookies.HttpOnly
import Odyssey.ContentSecurity.SourceSlips
import Odyssey.Dates.Weeks

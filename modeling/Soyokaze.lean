import Soyokaze.Helpers.HpackSync
import Soyokaze.Helpers.QpackSync
import Soyokaze.Helpers.QpackCapacity
import Soyokaze.Helpers.QpackTiming
import Soyokaze.Helpers.TableOctets
import Soyokaze.Helpers.HpackFormat
import Soyokaze.Helpers.Base64
import Soyokaze.Helpers.Sha1
import Soyokaze.Helpers.HuffmanTree
import Soyokaze.Helpers.HuffmanSafe
import Soyokaze.Helpers.TableRuns
import Soyokaze.Helpers.QpackIndex
import Soyokaze.Helpers.QpackSearch
import Soyokaze.Helpers.QpackKnown
import Soyokaze.Presence
import Soyokaze.Finalizer
import Soyokaze.Protocol.H1.Cuts
import Soyokaze.Protocol.H1.Chunked
import Soyokaze.Protocol.H1.BodyRule
import Soyokaze.Protocol.H1.Pipeline
import Soyokaze.Protocol.H2.Windows
import Soyokaze.Protocol.H3.Informational
import Soyokaze.Protocol.RoundTrip
import Soyokaze.Protocol.H3.Blame
import Soyokaze.Protocol.H2.Tunnel
import Soyokaze.Protocol.H3.Leftovers
import Soyokaze.Protocol.H2.Lifecycle
import Soyokaze.Protocol.H2.Fragments
import Soyokaze.Protocol.BufferBound
import Soyokaze.Protocol.H3.Blocking
import Soyokaze.Protocol.H3.Refusals
import Soyokaze.Protocol.H3.ControlCuts
import Soyokaze.Protocol.Unheeded
import Soyokaze.Api.Rates
import Soyokaze.Hsts.Protection
import Soyokaze.Cookies.Isolation
import Soyokaze.Cookies.Bounds
import Soyokaze.Websocket.Closing
import Soyokaze.Websocket.Reassembly
import Soyokaze.Helpers.Words
import Soyokaze.Helpers.MarkedSearch
import Soyokaze.Websocket.Codec
import Soyokaze.Cookies.RoundTrip
import Soyokaze.Models.Url
import Soyokaze.Models.Coding
import Soyokaze.Protocol.H3.Rollback

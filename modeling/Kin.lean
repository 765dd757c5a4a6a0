import Kin.Lib.Run
import Kin.Lib.Bucket
import Kin.Lib.GoStd
import Kin.Lib.Gossip
import Kin.Kinpb.Messages
import Kin.Catalog.Store
import Kin.Catalog.Spec
import Kin.Catalog.Ops
import Kin.Catalog.Availability
import Kin.Protocol.Exchange
import Kin.Network.Model
import Kin.Network.Provenance
import Kin.Network.Rest
import Kin.Network.Ghost
import Kin.Protocol.Framing
import Kin.Lib.Reader
import Kin.Protocol.Stream
import Kin.Transfer.Sender
import Kin.Protocol.Handler
import Kin.Transfer.Receiver
import Kin.Transfer.Download
import Kin.Protocol.FileSession
import Kin.Protocol.FileAnswer
import Kin.Lib.Registry
import Kin.Protocol.ConnRegistry
import Kin.Relay.NodeRegistry
import Kin.Relay.Client
import Kin.Relay.Teardown
import Kin.Relay.Punch
import Kin.Protocol.Broadcast
import Kin.Invite.Token
import Kin.Invite.Join
import Kin.Catalog.Completeness
import Kin.Catalog.Isolation
import Kin.Protocol.Offer
import Kin.Network.Delivery
import Kin.Lib.Mirror
import Kin.Lib.Sha256
import Kin.Watcher.Index
import Kin.Watcher.Scan
import Kin.Watcher.Events
import Kin.Watcher.Machine
import Kin.Watcher.Startup
import Kin.Watcher.Race
import Kin.Peerstore.Store
import Kin.Peerstore.Pinning
import Kin.Daemon.Handler
import Kin.Daemon.Invites
import Kin.Daemon.FailedJoin
import Kin.Daemon.Frame
import Kin.Invite.Grammar
import Kin.Cmd.Receive
import Kin.Catalog.Listing
import Kin.Catalog.LocalRecord
import Kin.Lib.Distinct
import Kin.Peerstore.Endpoints
import Kin.Daemon.Rejoin
import Kin.Watcher.Agreement
import Kin.Lib.Net
import Kin.Relay.Address
import Kin.Relay.Channels
import Kin.Relay.Routing
import Kin.Invite.Bounds
import Kin.Download.Downloader
import Kin.Download.Rename
import Kin.Download.Fallback
import Kin.Daemon.Types
import Kin.Lib.Viewport
import Kin.Tui.Keys
import Kin.Tui.Panels
import Kin.Tui.Model
import Kin.Tui.PeerList
import Kin.Tui.Transfers
import Kin.Tui.Cursor
import Kin.Daemon.Ipc
import Kin.Daemon.Presence
import Kin.Daemon.Subscribers
import Kin.Tui.Search
import Kin.Daemon.Calls
import Kin.Lib.Timers
import Kin.Watcher.Debounce
import Kin.Watcher.Mutex
import Kin.Daemon.Instance
import Kin.Tui.Freshness
import Kin.Relay.Introduction
import Kin.Cmd.Exchange
import Kin.Connmgr.Dial
import Kin.Connmgr.Discovery
import Kin.Download.Keeping
import Kin.Lib.Serial
import Kin.Protocol.Wire
import Kin.Daemon.EventStream
import Kin.Daemon.Joining
import Kin.Identity.Creation
import Kin.Kinpb.Unmarshal
import Kin.Tui.Overlays
import Kin.Daemon.Acquaintance
import Kin.Daemon.Inviting
import Kin.Protocol.Versions

import MDesk.Core.MachineInt
import MDesk.Core.SortedSearch
import MDesk.Core.Stream
import MDesk.Core.FileSystem
import MDesk.Core.Staging
import MDesk.Core.Settling
import MDesk.Core.Run
import MDesk.Core.Table
import MDesk.Core.Tally
import MDesk.Core.Shares
import MDesk.Core.Tiling
import MDesk.Core.Window
import MDesk.Core.Held
import MDesk.Core.Ledger
import MDesk.Core.Lowercase
import MDesk.Core.Endian
import MDesk.Core.Utf16
import MDesk.Codec.BytesCodec
import MDesk.Codec.RoundTrip
import MDesk.Transfer.Path
import MDesk.Transfer.Job
import MDesk.Transfer.Write
import MDesk.Transfer.Staged
import MDesk.Transfer.Destination
import MDesk.Transfer.Writing
import MDesk.Transfer.Receive
import MDesk.Transfer.Manifest
import MDesk.Transfer.Settled
import MDesk.Direct.Receive
import MDesk.Direct.Soundness
import MDesk.Transfer.Read
import MDesk.Direct.Source
import MDesk.Direct.Send
import MDesk.Direct.Delivery
import MDesk.Direct.Download
import MDesk.Direct.Preexisting
import MDesk.Client.FileJobs
import MDesk.Client.DirectJobs
import MDesk.Transfer.ReadJobs
import MDesk.Transfer.Frame
import MDesk.Transfer.Digest
import MDesk.Cm.DeviceRemote
import MDesk.Cm.HandleFs
import MDesk.Cm.Served
import MDesk.Cm.Upload
import MDesk.Cm.Launch
import MDesk.Clipboard.Frame
import MDesk.Clipboard.Route
import MDesk.Clipboard.RouteTables
import MDesk.Clipboard.RouteStreams
import MDesk.Clipboard.Generations
import MDesk.Clipboard.Isolation
import MDesk.Clipboard.FormatData
import MDesk.Clipboard.FileStream
import MDesk.Clipboard.StreamBlocks
import MDesk.Clipboard.FlowControl
import MDesk.Clipboard.RandomAccess
import MDesk.Server.FileAudit
import MDesk.Cm.RemoteDrop
import MDesk.Server.FileTransfer
import MDesk.Server.AuditComplete
import MDesk.Server.AuditOnce
import MDesk.Server.Session
import MDesk.Server.WriteQueue
import MDesk.Server.ReadRound
import MDesk.Server.SessionInv
import MDesk.Server.SessionServe
import MDesk.Server.AuditTruth
import MDesk.Server.OutputBuffer
import MDesk.Clipboard.LocalFile
import MDesk.Clipboard.FileContents
import MDesk.Clipboard.FileHandles
import MDesk.Clipboard.FileList
import MDesk.Clipboard.FileListSafety
import MDesk.Clipboard.FuseTree
import MDesk.Clipboard.FusePaths
import MDesk.Clipboard.FileServing
import MDesk.Net.AddrMangle
import MDesk.Core.Utf8
import MDesk.Portable.Package
import MDesk.Server.Service
import MDesk.Net.Encrypt
import MDesk.Core.Base64
import MDesk.Core.Ebml
import MDesk.Config.PeerConfig
import MDesk.Config.StoredSecrets
import MDesk.Config.VersionNumber
import MDesk.Config.OptionLayers
import MDesk.Config.PasswordSecurity
import MDesk.Recording.Ebml
import MDesk.Recording.EbmlMachine
import MDesk.Recording.WebmMetadata
import MDesk.Recording.Seeks
import MDesk.Recording.Embedding
import MDesk.Recording.SeekIndex
import MDesk.Recording.Repeated
import MDesk.Recording.Failure
import MDesk.Net.WebSocket
import MDesk.Server.SharedCounter
import MDesk.Whiteboard.EventLoop
import MDesk.Whiteboard.Controller
import MDesk.Input.KeyRelease
import MDesk.Input.Keyboard
import MDesk.Input.Keys
import MDesk.Input.SoftKeyboardInput
import MDesk.Core.Slots
import MDesk.Desktop.PaneSizes
import MDesk.Desktop.PaneTiling
import MDesk.Desktop.RemoteLayoutModel
import MDesk.Desktop.LayoutInvariant
import MDesk.Desktop.RemoteWindowDrag
import MDesk.Recording.Recorder
import MDesk.Recording.Tracks
import MDesk.Core.Symbolic
import MDesk.Net.Handshake
import MDesk.Net.Authenticity
import MDesk.Net.PortForward
import MDesk.Net.PortForwardLink
import MDesk.Net.PortForwardTalk
import MDesk.Net.PortForwardClean
import MDesk.Server.LoginFailures
import MDesk.Server.LoginCounts
import MDesk.Server.OutputBounds
import MDesk.Server.OutputContent
import MDesk.Transfer.ManifestSound
import MDesk.Direct.Rejection
import MDesk.Clipboard.ReceiveBounds
import MDesk.Clipboard.Registry
import MDesk.Clipboard.RegistryInv
import MDesk.Core.LexicalPath
import MDesk.Transfer.Containment
import MDesk.Client.Rounds
import MDesk.Server.PortableExclusive
import MDesk.Recording.NoteHandover
import MDesk.Server.LoginRequired
import MDesk.Config.Endpoints
import MDesk.Core.Glob
import MDesk.Logs.MatchesPattern
import MDesk.Logs.Collector
import MDesk.Logs.CollectLimits
import MDesk.Portable.CustomServer
import MDesk.Portable.Params
import MDesk.Server.CmClipboard
import MDesk.Server.DisplayService
import MDesk.Server.FileActions
import MDesk.Server.OptionScope
import MDesk.Server.RemoveLog
import MDesk.Video.Qos
import MDesk.Video.FrameRate
import MDesk.Video.CongestionDelay
import MDesk.Video.FrameController
import MDesk.Net.RendezvousMediator
import MDesk.Video.Negotiation
import MDesk.Core.Mirror
import MDesk.Core.Collect
import MDesk.Direct.Tree
import MDesk.Codec.Framing
import MDesk.Cm.Containment
import MDesk.Recording.RecordUpload
import MDesk.Server.TerminalSession
import MDesk.Server.TerminalService
import MDesk.Server.TerminalShells
import MDesk.Server.TerminalStreams
import MDesk.Core.JsonLine
import MDesk.Diagnostics.RotatingWriter
import MDesk.Diagnostics.Event
import MDesk.Diagnostics.EventQueue
import MDesk.Server.HostConnections
import MDesk.Server.Subscriptions
import MDesk.Server.HostServices
import MDesk.Server.HostOptions
import MDesk.Server.HostSessions
import MDesk.Server.HostHearing

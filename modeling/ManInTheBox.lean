import ManInTheBox.Library.Run
import ManInTheBox.Library.Table
import ManInTheBox.Library.Window
import ManInTheBox.Server.State
import ManInTheBox.Server.IdealPake
import ManInTheBox.Server.AppState
import ManInTheBox.Server.Operation
import ManInTheBox.Server.Effects
import ManInTheBox.Server.RoomTable
import ManInTheBox.Server.RateLimit
import ManInTheBox.Server.Sessions
import ManInTheBox.Server.Isolation
import ManInTheBox.Server.Handshake
import ManInTheBox.Server.Socket
import ManInTheBox.Server.StoredFile
import ManInTheBox.Server.FirstMessage
import ManInTheBox.Library.View
import ManInTheBox.Server.MembershipViews
import ManInTheBox.Host.Authenticate
import ManInTheBox.Host.Meeting
import ManInTheBox.Host.Hosting
import ManInTheBox.Host.Position
import ManInTheBox.Host.SharedRoom
import ManInTheBox.Library.ParentChain
import ManInTheBox.Search.Tree
import ManInTheBox.Search.TreeInvariant
import ManInTheBox.Search.Persisted
import ManInTheBox.Search.Built
import ManInTheBox.Search.RoundTrip
import ManInTheBox.Search.Statistics
import ManInTheBox.Search.Selection
import ManInTheBox.Search.Atomicity
import ManInTheBox.Host.Transcript
import ManInTheBox.Host.StreamBridge
import ManInTheBox.Host.ChildExit
import ManInTheBox.Emulator.Callback
import ManInTheBox.Emulator.Tracker
import ManInTheBox.Emulator.CursorReport
import ManInTheBox.Host.PtyInput
import ManInTheBox.Emulator.Style
import ManInTheBox.Emulator.Row
import ManInTheBox.Emulator.Terminal
import ManInTheBox.Emulator.RowInvariant
import ManInTheBox.Emulator.ScreenCursor
import ManInTheBox.Emulator.ScreenInvariant
import ManInTheBox.Emulator.Lines
import ManInTheBox.Emulator.Agreement
import ManInTheBox.Host.Reports
import ManInTheBox.Search.Descent
import ManInTheBox.Library.Best
import ManInTheBox.Search.BestChild
import ManInTheBox.Emulator.NoPanic
import ManInTheBox.Emulator.AddressedPrint
import ManInTheBox.Host.EventStream
import ManInTheBox.Library.Utf8
import ManInTheBox.Library.ByteOffset
import ManInTheBox.Guest.Truncate
import ManInTheBox.Guest.PathOffsets
import ManInTheBox.Guest.Url
import ManInTheBox.Library.Duration
import ManInTheBox.Guest.Backoff
import ManInTheBox.Library.PointerWidth
import ManInTheBox.Guest.Shuffle
import ManInTheBox.Playback.Video
import ManInTheBox.Playback.Audio
import ManInTheBox.Emulator.Repair
import ManInTheBox.Page.PakeBridge
import ManInTheBox.Page.LoginChoice
import ManInTheBox.Host.PolicyLog
import ManInTheBox.Guest.Paths
import ManInTheBox.Guest.Tree
import ManInTheBox.Library.Collect
import ManInTheBox.Guest.Gitignore
import ManInTheBox.Guest.Find
import ManInTheBox.Guest.Scope
import ManInTheBox.Guest.Traversal
import ManInTheBox.Guest.GitignoreLines
import ManInTheBox.Guest.Precedence
import ManInTheBox.Emulator.Scrolling
import ManInTheBox.Emulator.LineEditing
import ManInTheBox.Emulator.AlternateScreen
import ManInTheBox.Emulator.Reset
import ManInTheBox.Emulator.Intermediates
import ManInTheBox.Emulator.StyleGroups
import ManInTheBox.Host.Signaling
import ManInTheBox.Host.Relay
import ManInTheBox.Host.Reconnect
import ManInTheBox.Library.Scrollback
import ManInTheBox.Emulator.Paper
import ManInTheBox.Emulator.Layout
import ManInTheBox.Library.RunLength
import ManInTheBox.Emulator.Runs
import ManInTheBox.Host.Viewer
import ManInTheBox.Host.Consumers
import ManInTheBox.Host.Session
import ManInTheBox.Host.Teardown
import ManInTheBox.Library.Command
import ManInTheBox.Search.Growth
import ManInTheBox.Guest.GitRepo
import ManInTheBox.Guest.Maintainability
import ManInTheBox.Guest.CommitTree
import ManInTheBox.Library.Quiescence
import ManInTheBox.Host.OutputPipe
import ManInTheBox.Guest.RunProcess
import ManInTheBox.Host.Peers
import ManInTheBox.Host.RoomPeers
import ManInTheBox.Guest.Polling
import ManInTheBox.Host.InputPipe
import ManInTheBox.Search.Disk
import ManInTheBox.Search.Resumed

import WaSSH.Lib.Run
import WaSSH.Lib.FileMap
import WaSSH.Lib.Text
import WaSSH.Store.Atomic
import WaSSH.Store.Json
import WaSSH.Store.Document
import WaSSH.Lib.LittleEndian
import WaSSH.Store.Zip
import WaSSH.Store.Backup
import WaSSH.Store.Export
import WaSSH.Files.PackZip
import WaSSH.Files.Request
import WaSSH.Files.Panel
import WaSSH.Files.Ledger
import WaSSH.Files.Slot
import WaSSH.Files.Copy
import WaSSH.Files.CopyOrder
import WaSSH.Files.Resume
import WaSSH.Files.Staging
import WaSSH.Files.Snapshot
import WaSSH.Lib.Utf8
import WaSSH.Lib.Json
import WaSSH.Agent.Edit
import WaSSH.Agent.EditPreserves
import WaSSH.Lib.Assoc
import WaSSH.Lib.Feed
import WaSSH.Lib.Framed
import WaSSH.Lib.Newest
import WaSSH.Logger.Log
import WaSSH.Logger.Replay
import WaSSH.Lib.Lines
import WaSSH.Agent.Output
import WaSSH.Agent.Unwrap
import WaSSH.Lib.Pattern
import WaSSH.Agent.Rules
import WaSSH.Lib.Layers
import WaSSH.Agent.Decisions
import WaSSH.Agent.Globs
import WaSSH.Agent.Scopes
import WaSSH.Agent.Chat
import WaSSH.Agent.Tools
import WaSSH.Agent.Dispatch
import WaSSH.Agent.Transfer
import WaSSH.Agent.Machine
import WaSSH.Agent.RemoteEdit
import WaSSH.Agent.Polls
import WaSSH.Agent.History
import WaSSH.Agent.Sudo
import WaSSH.Agent.Rewind
import WaSSH.Telnet.Filter
import WaSSH.Lib.Exchange
import WaSSH.Telnet.Negotiation
import WaSSH.Lib.OrderList
import WaSSH.Hosts.Connection
import WaSSH.Hosts.Document
import WaSSH.Hosts.Normalized
import WaSSH.Vault.Fields
import WaSSH.Vault.Store
import WaSSH.Vault.Secrets
import WaSSH.Vault.Panes
import WaSSH.Vault.Migrate
import WaSSH.Vault.Lossless
import WaSSH.Plugins.PluginData
import WaSSH.Plugins.SharedData
import WaSSH.Hosts.Shell
import WaSSH.Hosts.Edits
import WaSSH.Hosts.Fresh
import WaSSH.Hosts.Agree
import WaSSH.Hosts.Jumps
import WaSSH.Mqtt.Codec
import WaSSH.Mqtt.Client
import WaSSH.Mqtt.Waiting
import WaSSH.Ssh.Socks
import WaSSH.Ssh.Exec
import WaSSH.Ssh.KnownHosts
import WaSSH.Ssh.HostKey
import WaSSH.Ssh.Tree
import WaSSH.Ssh.Pump
import WaSSH.Ssh.JumpChain
import WaSSH.Docker.Recreate
import WaSSH.Docker.Recreated
import WaSSH.Tabs.Bar
import WaSSH.Tabs.Sound
import WaSSH.Tabs.Focus
import WaSSH.Layout.Dock
import WaSSH.Layout.Panes
import WaSSH.Plugins.Documents
import WaSSH.Lib.Marker
import WaSSH.Terminal.Paste
import WaSSH.Terminal.Login
import WaSSH.Lib.FileTree
import WaSSH.Lib.UnixPath
import WaSSH.Agent.LocalFiles
import WaSSH.Agent.LocalMove
import WaSSH.Files.LocalList
import WaSSH.Layout.Moves
import WaSSH.Files.CollectTree
import WaSSH.Lib.BigEndian
import WaSSH.Core.Tzif
import WaSSH.Lib.Keyed
import WaSSH.Providers.Stream
import WaSSH.Providers.Body
import WaSSH.Lib.Lcs
import WaSSH.Agent.Diff
import WaSSH.Agent.Patch
import WaSSH.Mqtt.Tree
import WaSSH.Monitor.Report
import WaSSH.Monitor.Processes
import WaSSH.Monitor.Disks
import WaSSH.Monitor.Cores
import WaSSH.Monitor.History
import WaSSH.Lib.Flags
import WaSSH.Docker.Commands
import WaSSH.Docker.Run
import WaSSH.Files.ZipEntries
import WaSSH.Telnet.WindowSize
import WaSSH.Mqtt.Encode
import WaSSH.Lib.Slice
import WaSSH.Agent.Web
import WaSSH.Lib.Rewrite
import WaSSH.Agent.Html
import WaSSH.Lib.Trimmed
import WaSSH.Agent.Rag
import WaSSH.Lib.Digits
import WaSSH.Lib.Lowercase
import WaSSH.Files.NameOrder
import WaSSH.Lib.Tiles
import WaSSH.Logger.Spans
import WaSSH.Ssh.RemoteSession
import WaSSH.Lib.Slots
import WaSSH.Hosts.Drag
import WaSSH.Plugins.Frame
import WaSSH.Lib.Calendar
import WaSSH.Core.Time
import WaSSH.Lib.Prefixed
import WaSSH.Ssh.X11
import WaSSH.Store.Cycles
import WaSSH.Core.Tabs
import WaSSH.Lib.Dialog
import WaSSH.Lib.Backoff
import WaSSH.Ssh.Session
import WaSSH.Ssh.Story
import WaSSH.Ssh.Logins
import WaSSH.Ssh.Landing
import WaSSH.Ssh.Reconnect
import WaSSH.Terminal.Keys
import WaSSH.Terminal.Typing
import WaSSH.Ssh.Commands
import WaSSH.Docker.Updates
import WaSSH.Mqtt.Session
import WaSSH.Mqtt.Relay
import WaSSH.Lib.Since
import WaSSH.Agent.Gates
import WaSSH.Telnet.Thread
import WaSSH.Lib.Search
import WaSSH.Agent.Knowledge
import WaSSH.Lib.Sweep
import WaSSH.Agent.Replace

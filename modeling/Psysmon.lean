import Psysmon.Lib.Run
import Psysmon.Lib.Search
import Psysmon.Lib.Text
import Psysmon.Lib.Number
import Psysmon.Lib.Acyclic
import Psysmon.Lib.Fold
import Psysmon.Lib.Assoc
import Psysmon.Lib.Buckets
import Psysmon.Status
import Psysmon.Config.Model
import Psysmon.Config.Settings
import Psysmon.Config.Directives
import Psysmon.Config.Tree
import Psysmon.Config.Legacy
import Psysmon.Config.Lexer
import Psysmon.Config.LexLoop
import Psysmon.Config.Block
import Psysmon.Config.Graph
import Psysmon.Config.Link
import Psysmon.Config.Modern
import Psysmon.Config.Detect
import Psysmon.Config.ModernSeed
import Psysmon.Config.LegacyBlocks
import Psysmon.Config.LegacySeed
import Psysmon.Config.LegacyDefaults
import Psysmon.Config.LegacyFlat
import Psysmon.Config.Globals
import Psysmon.Config.Grammar
import Psysmon.Config.Recognise
import Psysmon.Config.Attributes
import Psysmon.Config.Statements
import Psysmon.Config.Raises
import Psysmon.Config.Objects
import Psysmon.Config.Inline
import Psysmon.Config.Reorder
import Psysmon.Config.Convert
import Psysmon.Config.ReadBack
import Psysmon.Config.LegacyRange
import Psysmon.Config.Serialised
import Psysmon.Config.ConvertObject
import Psysmon.Config.ConvertGlobals
import Psysmon.Config.Preorder
import Psysmon.Config.RoundTrip
import Psysmon.Config.ConvertNames
import Psysmon.Config.Newlines
import Psysmon.Engine.State
import Psysmon.Engine.History
import Psysmon.Engine.Paging
import Psysmon.Engine.Outage
import Psysmon.Engine.Flatten
import Psysmon.Engine.Scheduler
import Psysmon.Engine.Queue
import Psysmon.Engine.Project
import Psysmon.Engine.Pages
import Psysmon.Engine.Gate
import Psysmon.Engine.Tick
import Psysmon.Lib.Binary64
import Psysmon.Engine.DnsCache
import Psysmon.Engine.DnsBurst
import Psysmon.Lib.OnesComplement
import Psysmon.Lib.Bytes
import Psysmon.Checks.Icmp
import Psysmon.Checks.Base
import Psysmon.Checks.Ping
import Psysmon.Checks.Probe
import Psysmon.Checks.Verdict
import Psysmon.Checks.Imap
import Psysmon.Checks.Ftp
import Psysmon.Checks.Stream
import Psysmon.Engine.Persist
import Psysmon.Engine.Health
import Psysmon.Engine.Degraded
import Psysmon.Engine.Reload
import Psysmon.Engine.Walk
import Psysmon.Engine.Rebuild
import Psysmon.Engine.Due
import Psysmon.Engine.RunLoop
import Psysmon.Engine.Slots
import Psysmon.Engine.Merge
import Psysmon.Engine.Restore
import Psysmon.Engine.StateStore
import Psysmon.Output.Json
import Psysmon.Output.StatusPage
import Psysmon.Output.Sections
import Psysmon.Output.Document
import Psysmon.Output.Complete
import Psysmon.Lib.Markup
import Psysmon.Output.Markup
import Psysmon.Control.Server
import Psysmon.Control.Connections
import Psysmon.Control.Token
import Psysmon.Control.Client
import Psysmon.Daemon
import Psysmon.Output.TextLines
import Psysmon.Lib.Weight
import Psysmon.Lib.Semaphore
import Psysmon.Lib.FileProg
import Psysmon.Lib.Refresh
import Psysmon.Lib.Path
import Psysmon.Output.Visible
import Psysmon.Output.Wake
import Psysmon.Output.RenderLoop
import Psysmon.Output.Publish
import Psysmon.Engine.StateFile

import AcpAgent.Catalog.Registry
import AcpAgent.Catalog.Yolo
import AcpAgent.Commands.AgentOutput
import AcpAgent.Commands.Environment
import AcpAgent.Commands.Search
import AcpAgent.Installer.Archive
import AcpAgent.Installer.Batch
import AcpAgent.Installer.Cache
import AcpAgent.Installer.Cancellation
import AcpAgent.Installer.Checksum
import AcpAgent.Installer.Confinement
import AcpAgent.Installer.Custody
import AcpAgent.Installer.Damage
import AcpAgent.Installer.Digest
import AcpAgent.Installer.Directory
import AcpAgent.Installer.Download
import AcpAgent.Installer.History
import AcpAgent.Installer.Install
import AcpAgent.Installer.InstallLog
import AcpAgent.Installer.Inventory
import AcpAgent.Installer.Lifecycle
import AcpAgent.Installer.LockWorker
import AcpAgent.Installer.Names
import AcpAgent.Installer.Packages
import AcpAgent.Installer.Paths
import AcpAgent.Installer.Payload
import AcpAgent.Installer.Preparation
import AcpAgent.Installer.Promotion
import AcpAgent.Installer.Quota
import AcpAgent.Installer.Recovery
import AcpAgent.Installer.Removal
import AcpAgent.Installer.Sweep
import AcpAgent.Installer.TarCancellation
import AcpAgent.Installer.TarLayout
import AcpAgent.Installer.Transaction
import AcpAgent.Installer.Tree
import AcpAgent.Installer.Validation
import AcpAgent.Installer.Waits
import AcpAgent.Installer.ZipPasses
import AcpAgent.Installer.ZipTree
import AcpAgent.Lib.Branches
import AcpAgent.Lib.Except
import AcpAgent.Lib.FileSystem
import AcpAgent.Lib.Json
import AcpAgent.Lib.Layout
import AcpAgent.Lib.Ledger
import AcpAgent.Lib.Locks
import AcpAgent.Lib.Logged
import AcpAgent.Lib.Printer
import AcpAgent.Lib.Register
import AcpAgent.Lib.Runs
import AcpAgent.Lib.Schedule
import AcpAgent.Lib.Serde
import AcpAgent.Lib.SortedBy
import AcpAgent.Lib.Str
import AcpAgent.Lib.Suffix
import AcpAgent.Lib.Transition
import AcpAgent.Lib.Utf8
import AcpAgent.Runner.Command
import AcpAgent.Serve.Admission
import AcpAgent.Serve.Config
import AcpAgent.Serve.ForceClose
import AcpAgent.Serve.Health
import AcpAgent.Serve.Launch
import AcpAgent.Serve.Overload
import AcpAgent.Serve.Router
import AcpAgent.Serve.Shutdown
import AcpAgent.Serve.Stderr
import AcpAgent.Serve.StderrTail
import AcpAgent.Server.Client
import AcpAgent.Server.Control
import AcpAgent.Server.Deadlock
import AcpAgent.Server.Dispatch
import AcpAgent.Server.Protocol
import AcpAgent.Server.Readiness
import AcpAgent.Server.Refinement
import AcpAgent.Server.Routes
import AcpAgent.Server.Socket
import AcpAgent.Server.Startup
import AcpAgent.Server.Supervisor
import AcpAgent.Server.Wire

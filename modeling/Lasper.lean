import Lasper.Lib.Runs
import Lasper.Lib.Table
import Lasper.Jobs.Status
import Lasper.Jobs.Registry
import Lasper.Jobs.Invariant
import Lasper.Jobs.System
import Lasper.Jobs.Effects
import Lasper.Jobs.Stream
import Lasper.Jobs.Delivery
import Lasper.Lib.Pieces
import Lasper.Rpc.Json
import Lasper.Rpc.Exchange
import Lasper.Rpc.Framing
import Lasper.Rpc.Delivery
import Lasper.Jobs.Agreement
import Lasper.Config.Document
import Lasper.Config.Edit
import Lasper.Config.Frame
import Lasper.Lib.Directory
import Lasper.Lib.Traced
import Lasper.Provisioning.Cleanup
import Lasper.Provisioning.Recovery
import Lasper.X11.Access
import Lasper.X11.Evidence
import Lasper.X11.Pass
import Lasper.X11.Revocation
import Lasper.Config.Apply
import Lasper.Config.Conditional
import Lasper.Jobs.Eviction
import Lasper.Lib.Holders
import Lasper.Locking.Sidecar
import Lasper.Operations.Registry
import Lasper.Operations.Reservations
import Lasper.Provisioning.Executor
import Lasper.Provisioning.Grounding
import Lasper.Provisioning.Manifests
import Lasper.Provisioning.Outcome
import Lasper.X11.Catalog
import Lasper.X11.Finalization
import Lasper.X11.Interrupted
import Lasper.X11.Readability
import Lasper.X11.Uncertain
import Lasper.Lib.Lines
import Lasper.Nvidia.Block
import Lasper.Nvidia.Cleanup
import Lasper.Nvidia.Convergence
import Lasper.Nvidia.Placement
import Lasper.Overrides.Clone
import Lasper.Overrides.Content
import Lasper.Tar.Archive
import Lasper.Tar.Budget
import Lasper.Sessions.Ownership
import Lasper.Daemon.Drain
import Lasper.Daemon.Shutdown
import Lasper.Machines.Lifecycle
import Lasper.Machines.Projection
import Lasper.Machines.Readiness
import Lasper.Machines.Registration
import Lasper.Machines.Runtime
import Lasper.Machines.Transitions
import Lasper.Operations.Resources
import Lasper.Provisioning.Releases
import Lasper.Provisioning.Scans
import Lasper.Provisioning.Unresolved
import Lasper.Rpc.Limits
import Lasper.Runtime.Observation
import Lasper.Runtime.Refresh
import Lasper.Sessions.Startup
import Lasper.Terminal.Lifecycle
import Lasper.Terminal.Flow
import Lasper.Config.Candidates
import Lasper.Nvidia.Symlinks
import Lasper.Nvidia.Persistence
import Lasper.Tar.Hints
import Lasper.X11.Assessment
import Lasper.X11.Sharing
import Lasper.X11.Activation
import Lasper.Config.Promotion
import Lasper.Lib.Joined
import Lasper.Nspawn.RoundTrip
import Lasper.Sessions.Identity
import Lasper.Rootfs.Environment
import Lasper.Rootfs.Users
import Lasper.Sessions.Detach
import Lasper.Storage.Partitions
import Lasper.Bootstrap.Faithful
import Lasper.Probe.Chunks
import Lasper.Cli.Placement
import Lasper.Terminal.MachinePty
import Lasper.Lib.SparseFile
import Lasper.Storage.ImageCopy
import Lasper.Lib.Scanning
import Lasper.Terminal.Embedded
import Lasper.Terminal.EmbeddedScan
import Lasper.Terminal.EmbeddedChunks
import Lasper.Terminal.ShellSizes
import Lasper.Lib.Base64
import Lasper.Terminal.Osc52
import Lasper.Runtime.CompoundBytes
import Lasper.Nspawn.BindCodec
import Lasper.Provisioning.Ledger
import Lasper.Config.Reading
import Lasper.Tar.Framing
import Lasper.Daemon.Capture
import Lasper.Provisioning.OciReference
import Lasper.Terminal.Mouse
import Lasper.Terminal.ShellPrompt
import Lasper.Tui.TitleTabs
import Lasper.Tui.Wrapping

import Muak.Granola.Published
import Muak.Granola.Readiness
import Muak.Parttable.Geometry
import Muak.Auth.Coherence
import Muak.Auth.Confinement
import Muak.Apid.Gateway
import Muak.Provisiond.Update
import Muak.Provisiond.Commit
import Muak.Kmod.LoadOrder
import Muak.Erofs.CompactIndex
import Muak.Networkd.Resolv
import Muak.Networkd.Roles
import Muak.Btrfs.Consistency
import Muak.Workloadd.Disks
import Muak.Sbolt.Enrollment
import Muak.Sbolt.Signature
import Muak.Yuki.Measured
import Muak.Koci.Layer
import Muak.Koci.Content
import Muak.Provisiond.Select
import Muak.Auth.Approval
import Muak.Granola.Budget
import Muak.Granola.Loader
import Muak.Provisiond.Prune
import Muak.Parttable.Plan
import Muak.Parttable.Slots
import Muak.Workloadd.Upload
import Muak.Workloadd.Processes
import Muak.Networkd.Advertisement
import Muak.Networkd.Lifetimes
import Muak.Kmod.Alias
import Muak.Erofs.Directory
import Muak.Tpm2.Operations
import Muak.Btrfs.Node
import Muak.Luks2.Token
import Muak.Fatfs.Sizing
import Muak.Fatfs.Names
import Muak.Koci.Signature
import Muak.Timed.Ntp
import Muak.Consoled.Reader
import Muak.Config.Client
import Muak.Granola.Process
import Muak.Config.Diff
import Muak.Tui.Input
import Muak.Tui.Steps

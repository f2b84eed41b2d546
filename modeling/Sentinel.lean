import Sentinel.Audit.Evidence
import Sentinel.Audit.Linearity
import Sentinel.Authorization
import Sentinel.Commands.Bound
import Sentinel.Commands.Receipts
import Sentinel.Commands.Recorded
import Sentinel.Commands.VersionCounts
import Sentinel.Common.Retries
import Sentinel.CrossSite
import Sentinel.Delegation
import Sentinel.Identity.Administrators
import Sentinel.Identity.Migration
import Sentinel.Identity.Overlap
import Sentinel.Identity.Restart
import Sentinel.Identity.Returning
import Sentinel.Identity.Revocation
import Sentinel.Identity.Rotation
import Sentinel.Identity.Validator
import Sentinel.Intelligence.Digest
import Sentinel.Inventory.Changed
import Sentinel.Inventory.GroupMirror
import Sentinel.Inventory.LastWriter
import Sentinel.Inventory.Loop
import Sentinel.Inventory.RowSecurity
import Sentinel.Inventory.Search
import Sentinel.PipelineProofs
import Sentinel.Recovery
import Sentinel.Relationships.Cutoff
import Sentinel.Relationships.Paths
import Sentinel.Relationships.Reciprocity
import Sentinel.Relationships.Revived
import Sentinel.Relationships.Unsupported
import Sentinel.Tenancy
import Sentinel.Trail

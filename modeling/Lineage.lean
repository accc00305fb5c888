import Lineage.Flow.Inquiry
import Lineage.Proofs.Flow.Agreement
import Lineage.Stored.Assignment
import Lineage.Workspace.Documents
import Lineage.Proofs.Flow.Part
import Lineage.Proofs.Flow.Following
import Lineage.Proofs.Flow.Slice
import Lineage.Proofs.Flow.Order
import Lineage.Proofs.Flow.Merge
import Lineage.Proofs.Flow.LeastOrder
import Lineage.Proofs.Flow.Cycle
import Lineage.Proofs.Flow.Refusal
import Lineage.Proofs.Flow.Indexing
import Lineage.Proofs.Flow.Settling
import Lineage.Proofs.Json.Numbers
import Lineage.Proofs.Json.Strings
import Lineage.Proofs.Json.Trees
import Lineage.Proofs.Stored.Operation
import Lineage.Proofs.Stored.Document
import Lineage.Proofs.Canonical
import Lineage.Proofs.Workspace.Actions
import Lineage.Proofs.Snapshot.Views
import Lineage.Proofs.Workspace.Documents
import Lineage.Snapshot.Request
import Lineage.Proofs.Workspace.Building
import Lineage.Proofs.Snapshot.Requests
import Lineage.Proofs.Workspace.Frames
import Lineage.Proofs.Workspace.Answers
import Lineage.Workspace.Call
import Lineage.Workspace.Adjustment
import Lineage.Workspace.Session
import Lineage.Proofs.Workspace.Loading
import Lineage.Proofs.Workspace.Adjusting
import Lineage.Proofs.Settings
import Lineage.Proofs.Flow.Counts
import Lineage.Proofs.Snapshot.Reading
import Lineage.Proofs.Workspace.Emissions
import Lineage.Proofs.Workspace.Sessions
import Lineage.Proofs.Yaml.Cursor
import Lineage.Proofs.Yaml.Escapes
import Lineage.Proofs.Yaml.Folding
import Lineage.Proofs.Yaml.Quoted
import Lineage.Proofs.Yaml.Plain
import Lineage.Proofs.Yaml.Words
import Lineage.Proofs.Yaml.Rereading
import Lineage.Proofs.Yaml.Trees
import Lineage.Proofs.Yaml.Content
import Lineage.Proofs.Yaml.Reader
import Lineage.Proofs.Yaml.Listings
import Lineage.Proofs.Yaml.Documents
import Lineage.Proofs.Fingerprint.Division
import Lineage.Proofs.Fingerprint.Collision
import Lineage.Proofs.Workspace.Alteration
import Lineage.Proofs.Log.Lines

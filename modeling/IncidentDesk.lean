import IncidentDesk.Effects.Reachable
import IncidentDesk.Approval
import IncidentDesk.Freshness
import IncidentDesk.Fencing
import IncidentDesk.Finality
import IncidentDesk.Capacity
import IncidentDesk.EventFeed
import IncidentDesk.Quota
import IncidentDesk.Deletion
import IncidentDesk.LinearHistory
import IncidentDesk.Revocation
import IncidentDesk.Contention
import IncidentDesk.OneKind
import IncidentDesk.OneDecision
import IncidentDesk.Wedging
import IncidentDesk.Query.SqlGuard
import IncidentDesk.Worker.Terms
import IncidentDesk.Worker.Scope
import IncidentDesk.Worker.Continuation
import IncidentDesk.Demo.ExactlyOnce
import IncidentDesk.Query.Months
import IncidentDesk.Query.JoinLinks
import IncidentDesk.Query.Fusion
import IncidentDesk.Query.SchemaContext
import IncidentDesk.Reconciliation
import IncidentDesk.Worker.Resilience
import IncidentDesk.Targets
import IncidentDesk.Memories
import IncidentDesk.Worker.Times
import IncidentDesk.Worker.Identifiers
import IncidentDesk.Worker.Idempotence
import IncidentDesk.Worker.Prompt
import IncidentDesk.Demo.Canonical
import IncidentDesk.Worker.Replay
import IncidentDesk.Worker.Provenance
import IncidentDesk.Query.Delivery
import IncidentDesk.Query.Indexing
import IncidentDesk.Worker.Snapshots

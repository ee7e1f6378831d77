import Hugit.CostBuckets
import Hugit.Doors
import Hugit.ExportFidelity
import Hugit.ExportRefusals
import Hugit.FileLock
import Hugit.RecoveredImport
import Hugit.IncidentRefs
import Hugit.Landing
import Hugit.MachineReplay
import Hugit.BrokerDelivery
import Hugit.LineCounts
import Hugit.MergeRecovery
import Hugit.OutageQueue
import Hugit.Preimages
import Hugit.PricedUsage
import Hugit.PushOrder
import Hugit.RecoveryPrecedence
import Hugit.Diagnosis
import Hugit.Revocation
import Hugit.AffectedPackages
import Hugit.GluedDigests
import Hugit.RollupOrder
import Hugit.SerializerRuns
import Hugit.SyncEcho
import Hugit.TamperEvidence
import Hugit.TerminalPrs
import Hugit.TierRecovery
import Hugit.UndoLaws
import Hugit.VerdictCounts
import Hugit.Bisection
import Hugit.Lanes
import Hugit.CanonicalForm
import Hugit.DeltaSemantics
import Hugit.ReceiveAtomic
import Hugit.CampaignClose
import Hugit.SessionJournals
import Hugit.StickyRejects
import Hugit.ColdRefinement
import Hugit.EnvelopeCapture
import Hugit.ScrubShape
import Hugit.IntentBundles
import Hugit.AttemptHistory
import Hugit.CampaignView
import Hugit.BatchSound
import Hugit.WebhookAudit
import Hugit.ExitSeal
import Hugit.FleetProjection
import Hugit.DockClose
import Hugit.DockLand
import Hugit.ProjectionViews

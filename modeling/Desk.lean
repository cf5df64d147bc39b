import Desk.Activity.RecentSound
import Desk.Activity.RowsSound
import Desk.Anchor.MachineSound
import Desk.Anchor.TransactionSound
import Desk.Buffer.UndoSound
import Desk.Canon.DialectSound
import Desk.Canon.SessionSound
import Desk.Delegation.RelaySound
import Desk.Delegation.TasksSound
import Desk.Evaluation.JournalSound
import Desk.Exchange.ReviewSound
import Desk.Execution.Attempts
import Desk.Execution.RefusedSound
import Desk.Execution.Registration
import Desk.Graphs.WalkSound
import Desk.Handover.CheckpointsSound
import Desk.Lib.JsonScan
import Desk.Packs.ConditionSound
import Desk.Packs.InsertSound
import Desk.Packs.MoveSound
import Desk.Packs.ReferencesTold
import Desk.Packs.WritesSound
import Desk.Publication.OnceSound
import Desk.Publication.ReplacedSound
import Desk.Research.LimitSound
import Desk.Service.LaterSound
import Desk.Service.LifecycleSound
import Desk.Sessions.HandoffSound
import Desk.Signing.HistorySound
import Desk.Sources.QuoteSound
import Desk.Sources.RestoreSound
import Desk.Stamping.SchedulerSound
import Desk.Suites.ProposalsSound
import Desk.Workspace.GraphDraftsSound
import Desk.Files.PathsSound
import Desk.Lib.Encoded
import Desk.Lib.JsValue
import Desk.Sources.Tools
import Desk.Sources.ToolsSound
import Desk.Suites.FactPointers
import Desk.Suites.FactPointersSound
import Desk.Evaluation.Subscription
import Desk.Evaluation.SubscriptionSound
import Desk.Handover.WitnessReply
import Desk.Handover.WitnessReplySound
import Desk.Graphs.Redaction
import Desk.Graphs.RedactionSound
import Desk.Packs.Checks

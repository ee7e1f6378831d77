import Hugit.Authz
import Hugit.IntentModel
import Hugit.LandingQueue
import Hugit.StoredPayload

/-! Pull requests on the event log: they are opened, queued for landing, settled
and abandoned by records, and every verb decides from its own scan of the log. -/

namespace Hugit

def prOpenedKind : String := "pr.opened"

def prQueuedKind : String := "pr.queued"

def prAbandonedKind : String := "pr.abandoned"

def prLandedKind : String := "pr.landed"

def prEnvelopeKind : String := "pr.envelope"

def intentEnvelopeKind : String := "intent.envelope"

def campaignOpenedKind : String := "campaign.opened"

def refUpdateKind : String := "ref.update"

def landingMode : String := "union"

inductive AuthorKind where
  | orchestrator
  | human
  deriving DecidableEq

def AuthorKind.parse (text : String) : Option AuthorKind :=
  if text = "orchestrator" then some orchestrator
  else if text = "human" then some human
  else none

def AuthorKind.asStr : AuthorKind → String
  | orchestrator => "orchestrator"
  | human => "human"

inductive PrError where
  | subagentAuthor (got : String)
  | campaignMismatch (prId existing attempted : String)
  | unknownPr (prId : String)
  | emptyPr (prId : String)
  | queueRefused (prId reason : String)
  | missingIntents (prId : String) (missing : List String)
  | missingAuthorBinding (authorKind : AuthorKind)
  | missingCommits (prId : String) (missing : List String)
  | unknownCampaign (prId campaign : String)
  | abandonUnknownPr (prId : String)
  | abandonLanded (prId : String)
  | settleNotQueued (prId : String)
  | internal (message : String)
  deriving DecidableEq

structure OpenArgs where
  prId : String
  campaign : String
  authorKind : AuthorKind
  runId : Option String
  principal : Option String
  intentIds : List String
  commitIds : List String
  recordedAt : Nat

structure LandArgs where
  prId : String
  recordedAt : Nat

structure AbandonArgs where
  prId : String
  reason : String
  recordedAt : Nat

structure OpenedPr where
  prId : String
  campaign : String
  authorKind : AuthorKind
  intentIds : List String
  commitIds : List String
  seq : Nat
  deriving DecidableEq

structure QueuedPr where
  prId : String
  itemId : String
  orderIndex : Nat
  deriving DecidableEq

/-- The texts of the envelopes that a settlement captures, from the log and the
metrics it is given. An envelope that cannot be closed has none. -/
structure Envelopes where
  intentEnvelope : EventLog → OpenedPr → String → Option String
  prEnvelope : EventLog → OpenedPr → Option String

structure SettleArgs where
  prId : String
  recordedAt : Nat
  envelopes : Envelopes

namespace EventLog

def payloads (c : Crates) (log : EventLog) (kind : String) : List Value :=
  (log.records.filter (·.kind = kind)).filterMap fun r => c.fromStr r.payload

def hasKind (log : EventLog) (kind : String) : Bool :=
  log.records.any (·.kind = kind)

end EventLog

section Append

variable {c : Crates} {log : EventLog} {rs : List EventRecord}

theorem payloads_append (kind : String) :
    EventLog.payloads c ⟨log.records ++ rs⟩ kind = log.payloads c kind ++ EventLog.payloads c ⟨rs⟩ kind := by
  simp [EventLog.payloads]

theorem payloads_eq_nil {kind : String} (h : ∀ r ∈ rs, r.kind ≠ kind) : EventLog.payloads c ⟨rs⟩ kind = [] := by
  have hnil : rs.filter (·.kind = kind) = [] := by simpa using h
  rw [EventLog.payloads, hnil]
  rfl

end Append

section Projections

variable (c : Crates)

def parseOpened (r : EventRecord) : Option OpenedPr := do
  let v ← c.fromStr r.payload
  let prId ← v.fieldStr "pr_id"
  let campaign ← v.fieldStr "campaign"
  let authorKind ← (v.fieldStr "author_kind").bind AuthorKind.parse
  let intentIds ← (v.get "intent_ids").bind Value.strings
  let commitIds := ((v.get "commit_ids").bind Value.strings).getD []
  return ⟨prId, campaign, authorKind, intentIds, commitIds, r.seq⟩

def parseQueued (r : EventRecord) : Option QueuedPr := do
  let v ← c.fromStr r.payload
  return ⟨← v.fieldStr "pr_id", ← v.fieldStr "item_id", ← (v.get "order_index").bind Value.asU64⟩

def findPrOpened (log : EventLog) (prId : String) : Option OpenedPr :=
  ((log.records.filter (·.kind = prOpenedKind)).filterMap (parseOpened c)).reverse.find? (·.prId = prId)

def prIsLanded (log : EventLog) (prId : String) : Bool :=
  (log.payloads c prLandedKind).any fun v => v.fieldStr "pr_id" = some prId

/-- The active queue in log order: a PR that has landed has left it. -/
def allPrQueued (log : EventLog) : List QueuedPr :=
  ((log.records.filter (·.kind = prQueuedKind)).filterMap (parseQueued c)).filter fun q => !prIsLanded c log q.prId

def findPrQueued (log : EventLog) (prId : String) : Option QueuedPr :=
  (allPrQueued c log).find? (·.prId = prId)

def landedPrOrderIndex (log : EventLog) (prId : String) : Value :=
  match ((log.records.filter (·.kind = prQueuedKind)).filterMap (parseQueued c)).reverse.find? (·.prId = prId) with
  | some q => .number (.posInt q.orderIndex)
  | none => .null

def findPrAbandonedReason (log : EventLog) (prId : String) : Option String :=
  (((log.payloads c prAbandonedKind).filter fun v => v.fieldStr "pr_id" = some prId).filterMap
    fun v => v.fieldStr "reason").getLast?

def intentLandedOnLog (log : EventLog) (intentId : String) : Bool :=
  (log.payloads c intentLandedKind).any fun v => v.fieldStr "intent_id" = some intentId

def pushUpdatesContain (payload : Value) (oid : String) : Bool :=
  match payload.get "updates" with
  | some (.array updates) =>
    (payload.get "attempt").bind Value.asBool = some true &&
      updates.any fun update => update.fieldStr "local_oid" = some oid
  | _ => false

def commitRefTargetOnLog (log : EventLog) (oid : String) : Bool :=
  (log.payloads c refUpdateKind).any fun v => v.fieldStr "target" = some oid || pushUpdatesContain v oid

def campaignExists (log : EventLog) (campaign : String) : Bool :=
  (log.payloads c campaignOpenedKind).any fun v => v.fieldStr "campaign" = some campaign

end Projections

def authorAuthz : AuthorKind → PrincipalClass × Endpoint
  | .orchestrator => (.orchestrator, .land)
  | .human => (.human, .undo)

def authorPrincipalChain (kind : AuthorKind) (runId principal : Option String) : List String :=
  match kind with
  | .human => principal.toList
  | .orchestrator => runId.toList

section Open

variable (c : Crates)

def validateAuthorBinding (authorKind : AuthorKind) (runId principal : Option String) : Except PrError Unit :=
  let bound := match authorKind with
    | .orchestrator => runId.any (· ≠ "")
    | .human => principal.any (· ≠ "")
  if bound then .ok () else .error (.missingAuthorBinding authorKind)

def validateCampaign (log : EventLog) (prId campaign : String) : Except PrError Unit :=
  if log.hasKind campaignOpenedKind && !campaignExists c log campaign then .error (.unknownCampaign prId campaign)
  else .ok ()

/-- A log without landed intents does not use them, and is not asked for any. -/
def validateIntents (log : EventLog) (args : OpenArgs) : Except PrError Unit :=
  if !log.hasKind intentLandedKind then .ok ()
  else
    let missing := args.intentIds.filter fun id => !intentLandedOnLog c log id
    if missing.isEmpty then .ok () else .error (.missingIntents args.prId missing)

def validateCommits (log : EventLog) (args : OpenArgs) : Except PrError Unit :=
  let missing := args.commitIds.filter fun oid => !commitRefTargetOnLog c log oid
  if missing.isEmpty then .ok () else .error (.missingCommits args.prId missing)

def validateOpen (log : EventLog) (args : OpenArgs) : Except PrError Unit := do
  validateAuthorBinding args.authorKind args.runId args.principal
  validateCampaign c log args.prId args.campaign
  validateIntents c log args
  validateCommits c log args

end Open

def OpenedPr.openJson (opened : OpenedPr) (alreadyExists : Bool) : Value :=
  .object [("pr_id", .string opened.prId), ("campaign", .string opened.campaign),
    ("author_kind", .string opened.authorKind.asStr), ("intent_ids", .array (opened.intentIds.map .string)),
    ("intent_count", .number (.posInt opened.intentIds.length)),
    ("commit_ids", .array (opened.commitIds.map .string)),
    ("commit_count", .number (.posInt opened.commitIds.length)), ("state", .string "proposed"),
    ("already_exists", .bool alreadyExists)]

def settleJsonCaptured (prId campaign : String) (already : Bool) (captured : Nat) : Value :=
  .object [("pr_id", .string prId), ("campaign", .string campaign), ("landed", .bool true),
    ("already_landed", .bool already), ("state", .string "landed"),
    ("envelopes_captured", .number (.posInt captured))]

def settleJson (prId campaign : String) (already : Bool) : Value :=
  settleJsonCaptured prId campaign already 0

def abandonJson (prId reason : String) (already : Bool) : Value :=
  .object [("pr_id", .string prId), ("abandoned", .bool true), ("already_abandoned", .bool already),
    ("reason", .string reason)]

def BatchError.text : BatchError → String
  | .duplicateOrderIndex i => "duplicate order_index " ++ decimal i ++ " — queue order would be ambiguous"

def prQueuedPayload (prId itemId : String) (orderIndex : Nat) : Value :=
  .object [("item_id", .string itemId), ("mode", .string landingMode),
    ("order_index", .number (.posInt orderIndex)), ("pr_id", .string prId)]

def prLandedPayload (opened : OpenedPr) (prId : String) : Value :=
  .object [("campaign", .string opened.campaign), ("pr_id", .string prId)]

def prAbandonedPayload (prId reason : String) : Value :=
  .object [("pr_id", .string prId), ("reason", .string reason)]

def queuedJson (prId : String) (already : Bool) (position : Nat) : Value :=
  .object [("queued", .bool true), ("already_queued", .bool already), ("pr_id", .string prId),
    ("position", .number (.posInt position)), ("mode", .string landingMode)]

def queueItemId (prId : String) (orderIndex : Nat) : String :=
  prId ++ "#" ++ decimal orderIndex

def queueEntries (queued : List QueuedPr) (prId itemId : String) (orderIndex : Nat) :
    List (LandableEntry × List String) :=
  queued.map (fun q => (⟨q.itemId, q.prId, "", q.orderIndex⟩, [])) ++ [(⟨itemId, prId, "", orderIndex⟩, [])]

/-- The index of a new entry is the number of entries still active, as a 64-bit
integer. -/
def nextOrderIndex (queued : List QueuedPr) : Nat :=
  queued.length % 2 ^ 64

namespace Scrubber

variable (s : Scrubber)

def scrubOpenArgs (args : OpenArgs) : OpenArgs where
  prId := structuralSecretScrub s.measures args.prId
  campaign := structuralSecretScrub s.measures args.campaign
  authorKind := args.authorKind
  runId := args.runId.map (structuralSecretScrub s.measures)
  principal := args.principal.map (structuralSecretScrub s.measures)
  intentIds := args.intentIds.map (redactText s.measures)
  commitIds := args.commitIds.map (structuralSecretScrub s.measures)
  recordedAt := args.recordedAt

def openPayload (args : OpenArgs) : Value :=
  .object [("author_kind", .string args.authorKind.asStr), ("campaign", .string args.campaign),
    ("commit_ids", .array (args.commitIds.map fun oid => .string (structuralSecretScrub s.measures oid))),
    ("intent_ids", .array (args.intentIds.map .string)), ("pr_id", .string args.prId),
    ("principal", optText args.principal), ("run_id", optText args.runId)]

def canonicalOpenPayload (args : OpenArgs) : String :=
  s.scrubToCanonical (s.openPayload args)

def appendAsAuthor (log : EventLog) (author : AuthorKind) (kind : String) (principalChain : List String)
    (payload : String) (recordedAt : Nat) : Except AuthzDenied EventRecord × EventLog :=
  log.appendAuthorized s.crates (authorAuthz author).1 (authorAuthz author).2 kind principalChain payload recordedAt

def openPr (log : EventLog) (args : OpenArgs) : Except PrError Value × EventLog :=
  let args := s.scrubOpenArgs args
  match findPrOpened s.crates log args.prId with
  | some existing =>
    if existing.campaign ≠ args.campaign then
      (.error (.campaignMismatch args.prId existing.campaign args.campaign), log)
    else (.ok (existing.openJson true), log)
  | none =>
    match validateOpen s.crates log args with
    | .error e => (.error e, log)
    | .ok () =>
      match s.appendAsAuthor log args.authorKind prOpenedKind
          (authorPrincipalChain args.authorKind args.runId args.principal) (s.canonicalOpenPayload args)
          args.recordedAt with
      | (.error denied, log) => (.error (.subagentAuthor denied.reason.code), log)
      | (.ok _, log) =>
        match findPrOpened s.crates log args.prId with
        | some opened => (.ok (opened.openJson false), log)
        | none => (.error (.internal ("pr.opened for '" ++ args.prId ++ "' not found after a successful append — " ++
            "the payload round-tripped through canonical_json into a form that parse_opened could not project " ++
            "back; this is a hugit internal bug")), log)

def landPr (log : EventLog) (args : LandArgs) : Except PrError Value × EventLog :=
  let prId := structuralSecretScrub s.measures args.prId
  match findPrOpened s.crates log prId with
  | none => (.error (.unknownPr prId), log)
  | some opened =>
    if prIsLanded s.crates log prId then
      (.ok (.object [("queued", .bool true), ("already_queued", .bool true), ("already_landed", .bool true),
        ("pr_id", .string prId), ("position", landedPrOrderIndex s.crates log prId),
        ("mode", .string landingMode)]), log)
    else if opened.intentIds.isEmpty && opened.commitIds.isEmpty then (.error (.emptyPr prId), log)
    else match findPrQueued s.crates log prId with
      | some existing => (.ok (queuedJson prId true existing.orderIndex), log)
      | none =>
        let queued := allPrQueued s.crates log
        let orderIndex := nextOrderIndex queued
        let itemId := queueItemId prId orderIndex
        match Batch.tryFromEntries ("land-" ++ prId) (queueEntries queued prId itemId orderIndex) with
        | .error e => (.error (.queueRefused prId e.text), log)
        | .ok batch =>
          match batch.ids.findIdx? (· = itemId) with
          | none => (.error (.internal ("item_id '" ++ itemId ++ "' not found in the Batch after being pushed — " ++
              "the queue engine reordered or dropped the entry; this is a hugit internal bug")), log)
          | some position =>
            match s.appendAsAuthor log opened.authorKind prQueuedKind []
                (s.scrubToCanonical (prQueuedPayload prId itemId orderIndex)) args.recordedAt with
            | (.error denied, log) => (.error (.queueRefused prId denied.reason.code), log)
            | (.ok _, log) => (.ok (queuedJson prId false position), log)

/-- One captured envelope; what cannot be closed or appended is left out. -/
def captureEnvelope (author : AuthorKind) (kind : String) (recordedAt : Nat) (envelope : EventLog → Option String)
    (captured : Nat × EventLog) : Nat × EventLog :=
  match envelope captured.2 with
  | none => captured
  | some payload =>
    match s.appendAsAuthor captured.2 author kind [] payload recordedAt with
    | (.error _, log) => (captured.1, log)
    | (.ok _, log) => (captured.1 + 1, log)

def captureOnLand (log : EventLog) (opened : OpenedPr) (envelopes : Envelopes) (recordedAt : Nat) : Nat × EventLog :=
  let captured := opened.intentIds.foldl (fun captured id =>
    s.captureEnvelope opened.authorKind intentEnvelopeKind recordedAt
      (fun log => envelopes.intentEnvelope log opened id) captured) (0, log)
  s.captureEnvelope opened.authorKind prEnvelopeKind recordedAt (fun log => envelopes.prEnvelope log opened) captured

def settlePr (log : EventLog) (args : SettleArgs) : Except PrError Value × EventLog :=
  let prId := structuralSecretScrub s.measures args.prId
  match findPrOpened s.crates log prId with
  | none => (.error (.unknownPr prId), log)
  | some opened =>
    if prIsLanded s.crates log prId then (.ok (settleJson prId opened.campaign true), log)
    else if (findPrQueued s.crates log prId).isNone then (.error (.settleNotQueued prId), log)
    else
      match s.appendAsAuthor log opened.authorKind prLandedKind []
          (s.scrubToCanonical (prLandedPayload opened prId)) args.recordedAt with
      | (.error denied, log) => (.error (.queueRefused prId denied.reason.code), log)
      | (.ok _, log) =>
        let (captured, log) := s.captureOnLand log opened args.envelopes args.recordedAt
        (.ok (settleJsonCaptured prId opened.campaign false captured), log)

def abandonPr (log : EventLog) (args : AbandonArgs) : Except PrError Value × EventLog :=
  let prId := structuralSecretScrub s.measures args.prId
  let reason := redactText s.measures args.reason
  match findPrOpened s.crates log prId with
  | none => (.error (.abandonUnknownPr prId), log)
  | some opened =>
    if prIsLanded s.crates log prId then (.error (.abandonLanded prId), log)
    else match findPrAbandonedReason s.crates log prId with
      | some existing => (.ok (abandonJson prId existing true), log)
      | none =>
        match s.appendAsAuthor log opened.authorKind prAbandonedKind []
            (s.scrubToCanonical (prAbandonedPayload prId reason)) args.recordedAt with
        | (.error denied, log) => (.error (.queueRefused prId denied.reason.code), log)
        | (.ok _, log) => (.ok (abandonJson prId reason false), log)

end Scrubber

end Hugit

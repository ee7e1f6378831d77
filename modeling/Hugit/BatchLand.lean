import Hugit.ActionCache
import Hugit.PullRequests
import Hugit.UnionEvaluation

/-! The batch land: the active queue is evaluated as one union, what may proceed
lands on a copy of the log, and the copy replaces the log only at the end. -/

namespace Hugit

def queueUnionFailKind : String := "queue.union_fail"

/-- A clock, and the memoized check of the local runner over a PR's files. -/
structure LandHost (ω : Type) where
  now : ω → Nat × ω
  runMemoized : String → List (String × FileContent) → ω → Except ExecError CheckOutcome × ω

inductive BatchLandError where
  | panicked
  | authzDenied (message : String)
  deriving DecidableEq

structure BatchReport where
  queued : Nat
  campaign : Option String
  verdict : UnionVerdict
  landed : List String
  excluded : List String
  held : List String
  remainderVerdict : Option UnionVerdict
  failingPair : Option MinimalFailingPair
  locus : Option FailureLocus
  executedCount : Nat
  executionCountComplete : Bool
  probeCount : Nat
  stopReason : Option EvaluationStop
  binding : Option EvaluationBinding
  deriving DecidableEq

abbrev BatchMember := QueuedPr × OpenedPr

def batchMembers (c : Crates) (log : EventLog) (campaign : Option String) : List BatchMember :=
  let queued := (allPrQueued c log).insertionSort fun a b => a.orderIndex ≤ b.orderIndex
  (queued.filterMap fun q => (findPrOpened c log q.prId).map (q, ·)).filter fun m => campaign.all (m.2.campaign = ·)

def memberEntry (m : BatchMember) : LandableEntry × List String :=
  (⟨m.1.prId, (m.2.intentIds.head? <|> m.2.commitIds.head?).getD "", "", m.1.orderIndex⟩, [])

def batchContent (members : List BatchMember) : List (String × List String) :=
  members.map fun m => (m.2.prId, m.2.intentIds ++ m.2.commitIds)

/-- An intent `conflicts-with:<pr>` declares the union of the two PRs red. -/
def conflictPairs (content : List (String × List String)) : List (String × String) :=
  content.flatMap fun (prId, _) => ((lastWrite prId content).getD []).filterMap fun intent => do
    let other := String.ofList (← stripPrefix "conflicts-with:".toList intent.toList)
    if (lastWrite other content).isSome ∧ other ≠ prId then
      some (if other < prId then (other, prId) else (prId, other))
    else none

def contentFiles (prId : String) (ids : List String) : List (String × FileContent) :=
  if ids.isEmpty then [("src/" ++ prId ++ ".txt", utf8 prId)]
  else ids.map fun id => ("src/" ++ prId ++ "/" ++ id ++ ".txt", utf8 id)

section

variable {ω : Type} (host : LandHost ω)

def runChecks (content : List (String × List String)) (deadline : Nat) :
    List String → Bool → List CheckSource → ω → (Except UnionVerdict Bool × List CheckSource) × ω
  | [], anyRed, sources, w => ((.ok anyRed, sources), w)
  | prId :: rest, anyRed, sources, w =>
    let clock := host.now w
    if deadline ≤ clock.1 then ((.error .unknown, sources), clock.2)
    else match lastWrite prId content with
      | none => ((.error .unknown, sources), clock.2)
      | some ids =>
        match host.runMemoized prId (contentFiles prId ids) clock.2 with
        | (.error _, w) => ((.error .infrastructureFailure, sources), w)
        | (.ok outcome, w) =>
          runChecks content deadline rest (anyRed || outcome.result.exit ≠ 0)
            (sources ++ [if outcome.fromCache then .hit else .executed]) w

def evaluateUntil (content : List (String × List String)) (conflicts : List (String × String)) (ids : List String)
    (deadline : Nat) (w : ω) : (UnionVerdict × List CheckSource) × ω :=
  match runChecks host content deadline ids false [] w with
  | ((.error verdict, sources), w) => ((verdict, sources), w)
  | ((.ok anyRed, sources), w) =>
    let red := anyRed || conflicts.any fun pair => ids.contains pair.1 && ids.contains pair.2
    ((if red then .red else .green, sources), w)

def logMemoOracle (content : List (String × List String)) (conflicts : List (String × String)) : World ω where
  now := host.now
  evaluateBefore := evaluateUntil host content conflicts
  evaluateInContext ids deadline _ := evaluateUntil host content conflicts ids deadline

end

def UnionEvaluation.deadlineExceeded (ev : UnionEvaluation) (now : Nat) : Bool :=
  ev.validUntil.all (· ≤ now)

def heldSummary (ev : UnionEvaluation) (campaign : Option String) (ids : List String) (reason : EvaluationStop) :
    BatchReport where
  queued := ids.length
  campaign := campaign
  verdict := ev.verdict
  landed := []
  excluded := []
  held := ids
  remainderVerdict := ev.remainderVerdict
  failingPair := ev.minimalFailingPair
  locus := ev.failure
  executedCount := ev.executedCount
  executionCountComplete := ev.executionCountComplete
  probeCount := ev.probeCount
  stopReason := some reason
  binding := ev.binding

def emptySummary (campaign : Option String) : BatchReport where
  queued := 0
  campaign := campaign
  verdict := .green
  landed := []
  excluded := []
  held := []
  remainderVerdict := none
  failingPair := none
  locus := none
  executedCount := 0
  executionCountComplete := true
  probeCount := 0
  stopReason := none
  binding := none

def landedSummary (ev : UnionEvaluation) (campaign : Option String) (ids landed excluded : List String) :
    BatchReport where
  queued := ids.length
  campaign := campaign
  verdict := ev.verdict
  landed := landed
  excluded := excluded
  held := ev.held
  remainderVerdict := ev.remainderVerdict
  failingPair := if ev.verdict = .red ∧ ev.failure.isSome then ev.minimalFailingPair else none
  locus := ev.failure
  executedCount := ev.executedCount
  executionCountComplete := ev.executionCountComplete
  probeCount := ev.probeCount
  stopReason := none
  binding := ev.binding

def FailureLocus.kind : FailureLocus → String
  | pair _ => "pair"
  | singleItem _ => "single"
  | unlocalised => "unlocalised"

def FailureLocus.items : FailureLocus → Option String × Option String
  | pair p => (some p.itemA, some p.itemB)
  | singleItem id => (some id, none)
  | unlocalised => (none, none)

def unionFailPayload (campaign : Option String) (locus : FailureLocus) (excluded proceeding held : List String) :
    Value :=
  .object [("campaign", optText campaign), ("mode", .string landingMode), ("locus", .string locus.kind),
    ("item_a", optText locus.items.1), ("item_b", optText locus.items.2),
    ("excluded", .array (excluded.map .string)), ("proceeding", .array (proceeding.map .string)),
    ("held", .array (held.map .string)), ("validation_scope", .string "simulation_only")]

structure BatchLandArgs where
  campaign : Option String
  recordedAt : Nat
  limits : EvaluationLimits
  context : EvaluationContext

def authorizeNow {ω : Type} (host : LandHost ω) (ev : UnionEvaluation) (batch : Batch) (context : EvaluationContext)
    (w : ω) : Option (List String × List String) × ω :=
  let before := host.now w
  let after := host.now before.2
  (ev.authorizeFor batch context before.1 after.1, after.2)

namespace Scrubber

variable (s : Scrubber)

def landOne (log : EventLog) (opened : OpenedPr) (recordedAt : Nat) : Except BatchLandError EventLog :=
  if prIsLanded s.crates log opened.prId then .ok log
  else
    match s.appendAsAuthor log opened.authorKind prLandedKind []
        (s.scrubToCanonical (prLandedPayload opened opened.prId)) recordedAt with
    | (.error denied, _) =>
      .error (.authzDenied ("landing pr '" ++ opened.prId ++ "' denied: " ++ denied.reason.code))
    | (.ok _, log) => .ok log

def recordUnionFail (log : EventLog) (campaign : Option String) (locus : FailureLocus)
    (excluded proceeding held : List String) (recordedAt : Nat) : Except BatchLandError EventLog :=
  match log.appendAuthorized s.crates .orchestrator .land queueUnionFailKind ["orchestrator:hugit"]
      (s.scrubToCanonical (unionFailPayload campaign locus excluded proceeding held)) recordedAt with
  | (.error denied, _) => .error (.authzDenied ("recording union-fail denied: " ++ denied.reason.code))
  | (.ok _, log) => .ok log

def landProceeding (log : EventLog) (members : List BatchMember) (proceeding : List String) (recordedAt : Nat) :
    Except BatchLandError EventLog :=
  members.foldlM (fun log m => if m.1.prId ∈ proceeding then s.landOne log m.2 recordedAt else .ok log) log

def stageBatch (log : EventLog) (members : List BatchMember) (campaign : Option String) (ev : UnionEvaluation)
    (proceeding excluded : List String) (recordedAt : Nat) : Except BatchLandError EventLog := do
  let staged ← s.landProceeding log members proceeding recordedAt
  match ev.verdict, ev.failure with
  | .red, some locus =>
    let landed := (members.map (·.1.prId)).filter (· ∈ proceeding)
    s.recordUnionFail staged campaign locus excluded landed ev.held recordedAt
  | _, _ => .ok staged

variable {ω : Type} (host : LandHost ω)

/-- The steps after the evaluation: nothing is kept unless the authorization is
still live when everything is staged. -/
def landEvaluated (log : EventLog) (members : List BatchMember) (args : BatchLandArgs) (batch : Batch)
    (ev : UnionEvaluation) (w : ω) : Except BatchLandError BatchReport × EventLog × ω :=
  let ids := members.map (·.1.prId)
  let held := fun reason => heldSummary ev args.campaign ids reason
  match ev.stopReason with
  | some reason => (.ok (held reason), log, w)
  | none =>
    let (t, w) := host.now w
    if ev.deadlineExceeded t then (.ok (held .deadlineExceeded), log, w)
    else match authorizeNow host ev batch args.context w with
      | (none, w) => (.ok (held .invalidated), log, w)
      | (some (proceeding, excluded), w) =>
        match s.stageBatch log members args.campaign ev proceeding excluded args.recordedAt with
        | .error e => (.error e, log, w)
        | .ok staged =>
          let (t, w) := host.now w
          if ev.deadlineExceeded t then (.ok (held .deadlineExceeded), log, w)
          else match authorizeNow host ev batch args.context w with
            | (none, w) => (.ok (held .invalidated), log, w)
            | (some _, w) =>
              (.ok (landedSummary ev args.campaign ids (ids.filter (· ∈ proceeding)) excluded), staged, w)

/-- Two entries with one index make the batch panic. -/
def batchLandInContext (log : EventLog) (args : BatchLandArgs) (w : ω) :
    Except BatchLandError BatchReport × EventLog × ω :=
  let members := batchMembers s.crates log args.campaign
  if members.isEmpty then (.ok (emptySummary args.campaign), log, w)
  else match Batch.tryFromEntries "land-queue" (members.map memberEntry) with
    | .error _ => (.error .panicked, log, w)
    | .ok batch =>
      let content := batchContent members
      let oracle := logMemoOracle host content (conflictPairs content)
      let (ev, w) := evaluateUnionInContext oracle batch args.limits args.context w
      s.landEvaluated host log members args batch ev w

end Scrubber

end Hugit

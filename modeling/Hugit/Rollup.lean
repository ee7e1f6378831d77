import Hugit.CheckedSums

/-! The record of a pull request: what its intents, its author's session, the
panels and the checks have cost. -/

namespace Hugit

inductive Altitude where
  | intent
  | pr
  | campaign
  deriving DecidableEq

structure Spawn where
  runId : String
  parentRunId : Option String
  bornAt : Nat
  diedAt : Nat
  deriving DecidableEq

structure Authorship where
  model : String
  agentType : String
  spawn : Spawn
  operator : String
  deriving DecidableEq

structure IntentMetrics where
  tokensTotal : Nat
  activeMs : Nat
  toolCalls : Nat
  modelTurns : Nat
  costUsdMicros : Nat
  deriving DecidableEq

structure ContextEnvelope where
  altitude : Altitude
  intentId : String
  authorship : Authorship
  metrics : IntentMetrics
  deriving DecidableEq

structure WorkCost where
  tokens : Nat
  toolCalls : Nat
  costUsdMicros : Nat
  deriving DecidableEq

structure OrchestrationCost where
  tokens : Nat
  toolCalls : Nat
  turns : Nat
  costUsdMicros : Nat
  deriving DecidableEq

structure VerificationCost where
  tokens : Nat
  verdictPanels : Nat
  costUsdMicros : Nat
  deriving DecidableEq

structure CiCost where
  cacheHit : Nat
  exec : Nat
  costUsdMicros : Nat
  savedUsdMicros : Nat
  deriving DecidableEq

structure WasteCost where
  discardedIntents : Nat
  retriedAgents : Nat
  tokensNotLanded : Nat
  costUsdMicros : Nat
  deriving DecidableEq

structure TotalCost where
  tokens : Nat
  costUsdMicros : Nat
  deriving DecidableEq

structure CostDecomposition where
  work : WorkCost
  orchestration : OrchestrationCost
  verification : VerificationCost
  ci : CiCost
  waste : WasteCost
  total : TotalCost
  deriving DecidableEq

structure PrTime where
  wallSpanMs : Nat
  agentSumMs : Nat
  queueWaitMs : Nat
  humanTouches : Nat
  landedAt : Nat
  deriving DecidableEq

/-- The ratios are for display; here they are exact. -/
structure Efficiency where
  overheadPct : ℚ
  cacheSavingsPct : ℚ
  firstPassYield : ℚ
  costPerNetKloc : ℚ
  deriving DecidableEq

inductive PrAuthor where
  | orchestrator (model runId : String)
  | human (principal : String)
  deriving DecidableEq

structure PrQueueInput where
  queueWaitMs : Nat
  humanTouches : Nat
  landedAt : Nat
  deriving DecidableEq

structure PrRecord where
  prId : String
  author : PrAuthor
  intentIds : List String
  intentCount : Nat
  agentCount : Nat
  modelsUsed : List String
  envelopeRef : String
  cost : CostDecomposition
  time : PrTime
  efficiency : Efficiency
  deriving DecidableEq

inductive RollupError where
  | wrongAltitude (expected found : Altitude) (intentId : String)
  | subagentAuthor (altitude : Altitude) (intentId runId agentType : String)
  | overflow (field : String)
  deriving DecidableEq

def add (a b : Nat) (field : String) : Except RollupError Nat :=
  if a + b < 2 ^ 64 then .ok (a + b) else .error (.overflow field)

def ensureAltitude (env : ContextEnvelope) (expected : Altitude) : Except RollupError Unit :=
  if env.altitude = expected then .ok () else .error (.wrongAltitude expected env.altitude env.intentId)

def ensureAltitudes (expected : Altitude) : List ContextEnvelope → Except RollupError Unit
  | [] => .ok ()
  | env :: envs => do
    ensureAltitude env expected
    ensureAltitudes expected envs

def topLevelAgentType : String := "main"

def ensureTopLevel (env : ContextEnvelope) : Except RollupError Unit :=
  if env.authorship.agentType ≠ topLevelAgentType ∨ env.authorship.spawn.parentRunId.isSome then
    .error (.subagentAuthor env.altitude env.intentId env.authorship.spawn.runId env.authorship.agentType)
  else .ok ()

def prAuthor (env : ContextEnvelope) : Except RollupError PrAuthor := do
  ensureTopLevel env
  if env.authorship.model = "" then pure (.human env.authorship.operator)
  else pure (.orchestrator env.authorship.model env.authorship.spawn.runId)

abbrev Attempts := String × List ContextEnvelope

def pushAttempt (env : ContextEnvelope) : List Attempts → List Attempts
  | [] => [(env.intentId, [env])]
  | (id, group) :: groups =>
    if id = env.intentId then (id, group ++ [env]) :: groups else (id, group) :: pushAttempt env groups

def groupAttempts (envelopes : List ContextEnvelope) : List Attempts :=
  envelopes.foldl (fun groups env => pushAttempt env groups) []

/-- Later born, or of a greater run, or later in the input. -/
def isBetter (i : Nat) (env : ContextEnvelope) (best : Nat) (bestEnv : ContextEnvelope) : Bool :=
  match compare env.authorship.spawn.bornAt bestEnv.authorship.spawn.bornAt with
  | .gt => true
  | .lt => false
  | .eq =>
    match compare env.authorship.spawn.runId bestEnv.authorship.spawn.runId with
    | .gt => true
    | .lt => false
    | .eq => best < i

def finalAttemptFrom (group : List ContextEnvelope) (best i : Nat) : List ContextEnvelope → Nat
  | [] => best
  | env :: envs =>
    let better := group[best]?.any fun bestEnv => isBetter i env best bestEnv
    finalAttemptFrom group (if better then i else best) (i + 1) envs

def finalAttemptIdx (group : List ContextEnvelope) : Nat :=
  finalAttemptFrom group 0 0 group

def addWork (work : WorkCost) (env : ContextEnvelope) : Except RollupError WorkCost := do
  let tokens ← add work.tokens env.metrics.tokensTotal "work.tokens"
  let toolCalls ← add work.toolCalls env.metrics.toolCalls "work.tool_calls"
  let costUsdMicros ← add work.costUsdMicros env.metrics.costUsdMicros "work.cost_usd_micros"
  pure ⟨tokens, toolCalls, costUsdMicros⟩

def addWaste (waste : WasteCost) (env : ContextEnvelope) : Except RollupError WasteCost := do
  let tokensNotLanded ← add waste.tokensNotLanded env.metrics.tokensTotal "waste.tokens_not_landed"
  let costUsdMicros ← add waste.costUsdMicros env.metrics.costUsdMicros "waste.cost_usd_micros"
  pure { waste with tokensNotLanded, costUsdMicros }

/-- One attempt of an intent is work if it is the landed one, and waste otherwise. -/
def addAttempt (spend : WorkCost × WasteCost) (attempt : Bool × ContextEnvelope) :
    Except RollupError (WorkCost × WasteCost) :=
  if attempt.1 then do
    let work ← addWork spend.1 attempt.2
    pure (work, spend.2)
  else do
    let waste ← addWaste spend.2 attempt.2
    pure (spend.1, waste)

def markAttempts (isLanded : Bool) (group : List ContextEnvelope) : List (Bool × ContextEnvelope) :=
  group.zipIdx.map fun (env, i) => (isLanded && i = finalAttemptIdx group, env)

def countGroup (isLanded : Bool) (group : List ContextEnvelope) (waste : WasteCost) : WasteCost :=
  { waste with
    retriedAgents := waste.retriedAgents + (group.length - 1)
    discardedIntents := if isLanded then waste.discardedIntents else waste.discardedIntents + 1 }

def addGroup (landed : List String) (spend : WorkCost × WasteCost) (attempts : Attempts) :
    Except RollupError (WorkCost × WasteCost) :=
  let isLanded := landed.contains attempts.1
  (markAttempts isLanded attempts.2).foldlM addAttempt (spend.1, countGroup isLanded attempts.2 spend.2)

def decompose (work : WorkCost) (orchestration : OrchestrationCost) (verification : VerificationCost)
    (ci : CiCost) (waste : WasteCost) : Except RollupError CostDecomposition := do
  let tokens ← add work.tokens orchestration.tokens "total.tokens"
  let tokens ← add tokens verification.tokens "total.tokens"
  let costUsdMicros ← add work.costUsdMicros orchestration.costUsdMicros "total.cost_usd_micros"
  let costUsdMicros ← add costUsdMicros verification.costUsdMicros "total.cost_usd_micros"
  let costUsdMicros ← add costUsdMicros ci.costUsdMicros "total.cost_usd_micros"
  pure ⟨work, orchestration, verification, ci, waste, ⟨tokens, costUsdMicros⟩⟩

def ratio (num den : Nat) : ℚ :=
  if den = 0 then 0 else num / den

def efficiencyFrom (cost : CostDecomposition) (firstPassYield : ℚ) : Efficiency where
  overheadPct :=
    if 0 < cost.total.costUsdMicros then ratio cost.orchestration.costUsdMicros cost.total.costUsdMicros * 100
    else if 0 < cost.total.tokens then ratio cost.orchestration.tokens cost.total.tokens * 100
    else 0
  cacheSavingsPct :=
    ratio cost.ci.savedUsdMicros (min (cost.ci.savedUsdMicros + cost.ci.costUsdMicros) (2 ^ 64 - 1)) * 100
  firstPassYield := firstPassYield
  costPerNetKloc := 0

def dedupPush (models : List String) (model : String) : List String :=
  if model ≠ "" ∧ model ∉ models then models ++ [model] else models

def saturatingSum (xs : List Nat) : Nat :=
  xs.foldl (fun acc x => min (acc + x) (2 ^ 64 - 1)) 0

def prTime (prEnvelope : ContextEnvelope) (intentEnvelopes : List ContextEnvelope) (queue : PrQueueInput) :
    PrTime :=
  let spawns := (intentEnvelopes.map fun e => e.authorship.spawn) ++ [prEnvelope.authorship.spawn]
  let firstBorn := ((spawns.map Spawn.bornAt).min?).getD 0
  let lastDied := ((spawns.map Spawn.diedAt).max?).getD 0
  let spanEnd := if 0 < queue.landedAt then queue.landedAt else lastDied
  { wallSpanMs := spanEnd - firstBorn
    agentSumMs := saturatingSum (intentEnvelopes.map fun e => e.metrics.activeMs)
    queueWaitMs := queue.queueWaitMs
    humanTouches := queue.humanTouches
    landedAt := queue.landedAt }

/-- Intents landed on their first attempt; a landed one without an envelope counts as such. -/
def landedFirstPass (attempts : List Attempts) (landed : List String) : Nat :=
  (attempts.filter fun a => landed.contains a.1 && a.2.length ≤ 1).length +
    (landed.filter fun id => !attempts.any fun a => a.1 = id).length

def orchestrationCost (prEnvelope : ContextEnvelope) : OrchestrationCost where
  tokens := prEnvelope.metrics.tokensTotal
  toolCalls := prEnvelope.metrics.toolCalls
  turns := prEnvelope.metrics.modelTurns
  costUsdMicros := prEnvelope.metrics.costUsdMicros

def verificationCost (verdictPanels : Nat) : VerificationCost :=
  ⟨0, verdictPanels, 0⟩

/-- Of the verdicts only their number is read. -/
def prCost (prEnvelope : ContextEnvelope) (attempts : List Attempts) (landed : List String) (verdicts : Nat)
    (ci : CiCost) : Except RollupError CostDecomposition := do
  let spend ← attempts.foldlM (addGroup landed) (⟨0, 0, 0⟩, ⟨0, 0, 0, 0⟩)
  decompose spend.1 (orchestrationCost prEnvelope) (verificationCost verdicts) ci spend.2

def recordOf (prEnvelope : ContextEnvelope) (prEnvelopeRef : String) (intentEnvelopes : List ContextEnvelope)
    (landedIntentIds : List String) (queue : PrQueueInput) (author : PrAuthor) (cost : CostDecomposition) :
    PrRecord :=
  let attempts := groupAttempts intentEnvelopes
  let landed := landedIntentIds.dedup.insertionSort (· ≤ ·)
  let authoredIds := ((attempts.map Prod.fst) ++ landed).dedup
  { prId := prEnvelope.intentId
    author := author
    intentIds := landedIntentIds
    intentCount := landedIntentIds.length
    agentCount := (intentEnvelopes.map fun e => e.authorship.spawn.runId).dedup.length
    modelsUsed := (prEnvelope :: intentEnvelopes).foldl (fun models e => dedupPush models e.authorship.model) []
    envelopeRef := prEnvelopeRef
    cost := cost
    time := prTime prEnvelope intentEnvelopes queue
    efficiency := efficiencyFrom cost (ratio (landedFirstPass attempts landed) authoredIds.length) }

def prRecord (prEnvelope : ContextEnvelope) (prEnvelopeRef : String) (intentEnvelopes : List ContextEnvelope)
    (landedIntentIds : List String) (verdicts : Nat) (ci : CiCost) (queue : PrQueueInput) :
    Except RollupError PrRecord := do
  ensureAltitude prEnvelope .pr
  ensureAltitudes .intent intentEnvelopes
  let author ← prAuthor prEnvelope
  let landed := landedIntentIds.dedup.insertionSort (· ≤ ·)
  let cost ← prCost prEnvelope (groupAttempts intentEnvelopes) landed verdicts ci
  pure (recordOf prEnvelope prEnvelopeRef intentEnvelopes landedIntentIds queue author cost)

end Hugit

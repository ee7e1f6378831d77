import Hugit.Framing
import Hugit.LandingQueue
import Hugit.Text

/-! The bounded evaluation of a batch's union: one probe of the whole, a search
for a failing member or pair when it is red, and a probe of the exact remainder.
Oracle and clock are stateful and may answer differently at every call. -/

namespace Hugit

inductive UnionVerdict where
  | green
  | red
  | unknown
  | infrastructureFailure
  deriving DecidableEq

inductive CheckSource where
  | hit
  | executed
  deriving DecidableEq

inductive EvaluationStop where
  | probeBudgetExhausted
  | deadlineExceeded
  | unknown
  | infrastructureFailure
  | invalidBatch
  | invalidLimits
  | invalidContext
  | invalidated
  deriving DecidableEq

structure EvaluationLimits where
  maxProbes : Nat
  timeout : Nat

structure MinimalFailingPair where
  itemA : String
  itemB : String
  deriving DecidableEq

inductive FailureLocus where
  | pair (p : MinimalFailingPair)
  | singleItem (id : String)
  | unlocalised
  deriving DecidableEq

def FailureLocus.minimalFailingPair : FailureLocus → Option MinimalFailingPair
  | pair p => some p
  | _ => none

def FailureLocus.excluded : FailureLocus → Option (List String)
  | pair p => some [p.itemA, p.itemB]
  | singleItem id => some [id]
  | unlocalised => none

structure EvaluationContext where
  operationId : String
  baseId : String
  configId : String
  scope : String
  deriving DecidableEq

def isControl (c : Char) : Bool :=
  c.toNat < 0x20 || (0x7F ≤ c.toNat && c.toNat < 0xA0)

def EvaluationContext.isValid (c : EvaluationContext) : Bool :=
  [c.operationId, c.baseId, c.configId, c.scope].all fun s =>
    !(trim s.toList).isEmpty && s.utf8ByteSize ≤ 512 && !s.toList.any isControl

structure BatchSnapshot where
  batchId : String
  members : List BatchEntry
  deriving DecidableEq

def BatchSnapshot.capture (batch : Batch) : BatchSnapshot :=
  ⟨batch.batchId, batch.entries⟩

structure ProbeObservation where
  members : List String
  returnedVerdict : UnionVerdict
  sources : List CheckSource
  deriving DecidableEq

structure EvaluationBinding where
  context : EvaluationContext
  batch : BatchSnapshot
  probes : List ProbeObservation
  deriving DecidableEq

structure UnionEvaluation where
  verdict : UnionVerdict
  minimalFailingPair : Option MinimalFailingPair
  failure : Option FailureLocus
  proceeding : List String
  executedCount : Nat
  executionCountComplete : Bool
  held : List String
  remainderVerdict : Option UnionVerdict
  stopReason : Option EvaluationStop
  probeCount : Nat
  maxProbes : Nat
  elapsed : Nat
  timeout : Nat
  evaluatedMembers : List String
  validatedMembers : List String
  excludedMembers : List String
  validUntil : Option Nat
  revoked : Bool
  binding : Option EvaluationBinding
  deriving DecidableEq

/-- The oracle and the clock over one state of the world, so that either may
depend on everything that happened before. -/
structure World (ω : Type) where
  now : ω → Nat × ω
  evaluateBefore : List String → Nat → ω → (UnionVerdict × List CheckSource) × ω
  evaluateInContext :
    List String → Nat → EvaluationContext → ω → (UnionVerdict × List CheckSource) × ω

structure ProbeBudget (ω : Type) where
  limits : EvaluationLimits
  start : Nat
  deadline : Nat
  probes : Nat
  executed : Nat
  executionCountComplete : Bool
  world : ω

/-- An instant counts nanoseconds; its seconds are a signed 64-bit integer. -/
def checkedAdd (start timeout : Nat) : Option Nat :=
  if start + timeout < 2 ^ 63 * 10 ^ 9 then some (start + timeout) else none

section

variable {ω : Type} (w : World ω)

def ProbeBudget.probe (b : ProbeBudget ω) (ids : List String) :
    Except EvaluationStop UnionVerdict × ProbeBudget ω :=
  let before := w.now b.world
  if b.deadline ≤ before.1 then (.error .deadlineExceeded, { b with world := before.2 })
  else if b.limits.maxProbes ≤ b.probes then
    (.error .probeBudgetExhausted, { b with world := before.2 })
  else
    let answer := w.evaluateBefore ids b.deadline before.2
    let after := w.now answer.2
    let b := { b with
      probes := b.probes + 1
      executed := saturatingAdd b.executed (answer.1.2.count .executed)
      world := after.2 }
    if b.deadline ≤ after.1 then
      (.error .deadlineExceeded, { b with executionCountComplete := false })
    else match answer.1.1 with
      | .green => (.ok .green, b)
      | .red => (.ok .red, b)
      | .unknown => (.error .unknown, { b with executionCountComplete := false })
      | .infrastructureFailure =>
        (.error .infrastructureFailure, { b with executionCountComplete := false })

/-- The loops of `bisect_failure`: the first of the sets that is red gives the
locus. -/
def probeEach : List (List String × FailureLocus) → ProbeBudget ω →
    Except EvaluationStop FailureLocus × ProbeBudget ω
  | [], b => (.ok .unlocalised, b)
  | (ids, locus) :: rest, b =>
    match b.probe w ids with
    | (.error e, b) => (.error e, b)
    | (.ok verdict, b) => if verdict = .red then (.ok locus, b) else probeEach rest b

def singles (ids : List String) : List (List String × FailureLocus) :=
  ids.map fun id => ([id], .singleItem id)

def pairs : List String → List (List String × FailureLocus)
  | [] => []
  | a :: rest => (rest.map fun b => ([a, b], .pair ⟨a, b⟩)) ++ pairs rest

def bisectFailure (ids : List String) (b : ProbeBudget ω) :
    Except EvaluationStop FailureLocus × ProbeBudget ω :=
  probeEach w (singles ids ++ pairs ids) b

/-- The closure in the evaluator. What it has written into the evaluation stays
there when it stops. -/
def diagnose (batch : Batch) (ev : UnionEvaluation) (b : ProbeBudget ω) :
    Except EvaluationStop Unit × UnionEvaluation × ProbeBudget ω :=
  if !batch.isQueueOrdered || !decide batch.ids.Nodup || batch.ids.any (· == "") then
    (.error .invalidBatch, ev, b)
  else if batch.ids.isEmpty then (.ok (), { ev with verdict := .green, held := [] }, b)
  else match b.probe w batch.ids with
    | (.error e, b) => (.error e, ev, b)
    | (.ok verdict, b) =>
      let ev := { ev with verdict := verdict }
      if verdict = .green then
        (.ok (), { ev with proceeding := ev.evaluatedMembers, held := [] }, b)
      else match bisectFailure w batch.ids b with
        | (.error e, b) => (.error e, ev, b)
        | (.ok locus, b) =>
          let ev := { ev with minimalFailingPair := locus.minimalFailingPair, failure := some locus }
          match locus.excluded with
          | none => (.ok (), ev, b)
          | some excluded =>
            let remainder := batch.ids.filter (· ∉ excluded)
            if remainder.isEmpty then
              (.ok (), { ev with held := [], excludedMembers := excluded }, b)
            else match b.probe w remainder with
              | (.error e, b) => (.error e, ev, b)
              | (.ok verdict, b) =>
                let ev := { ev with remainderVerdict := some verdict, excludedMembers := excluded }
                if verdict = .green then
                  (.ok (), { ev with proceeding := remainder, held := [] }, b)
                else (.ok (), { ev with held := remainder }, b)

def UnionEvaluation.initial (batch : Batch) (limits : EvaluationLimits) (start : Nat) :
    UnionEvaluation :=
  { verdict := .unknown, minimalFailingPair := none, failure := none, proceeding := []
    executedCount := 0, executionCountComplete := true, held := batch.ids
    remainderVerdict := none, stopReason := none, probeCount := 0
    maxProbes := limits.maxProbes, elapsed := 0, timeout := limits.timeout
    evaluatedMembers := batch.ids, validatedMembers := [], excludedMembers := []
    validUntil := checkedAdd start limits.timeout, revoked := false, binding := none }

def UnionEvaluation.hold (ev : UnionEvaluation) (reason : EvaluationStop) : UnionEvaluation :=
  { ev with
    stopReason := some reason
    proceeding := []
    excludedMembers := []
    held := ev.evaluatedMembers
    revoked := true }

def UnionEvaluation.close (ev : UnionEvaluation) : Except EvaluationStop Unit → UnionEvaluation
  | .ok _ => ev
  | .error reason =>
    let verdict := if ev.verdict = .unknown ∧ reason = .infrastructureFailure
      then .infrastructureFailure else ev.verdict
    { ev with verdict := verdict }.hold reason

/-- The end of an evaluation. The time spent on building the result counts, so
the clock is read once more before anybody may proceed. -/
def conclude (batch : Batch) (ev : UnionEvaluation) (b : ProbeBudget ω) : UnionEvaluation × ω :=
  let built := w.now b.world
  let ev := { ev with
    validatedMembers := ev.proceeding
    probeCount := b.probes
    executedCount := b.executed
    executionCountComplete := b.executionCountComplete
    elapsed := built.1 - b.start }
  if ev.stopReason.isNone && !batch.ids.isEmpty then
    let last := w.now built.2
    if b.deadline ≤ last.1 then
      ({ ev.hold .deadlineExceeded with validatedMembers := [] }, last.2)
    else (ev, last.2)
  else (ev, built.2)

def evaluateUnionWithClock (batch : Batch) (limits : EvaluationLimits) (s : ω) :
    UnionEvaluation × ω :=
  let start := w.now s
  let ev := UnionEvaluation.initial batch limits start.1
  match checkedAdd start.1 limits.timeout with
  | none => ({ ev with stopReason := some .invalidLimits, revoked := true }, start.2)
  | some deadline =>
    let run := diagnose w batch ev ⟨limits, start.1, deadline, 0, 0, true, start.2⟩
    conclude w batch (run.2.1.close run.1) run.2.2

end

namespace UnionEvaluation

def authorizationLive (ev : UnionEvaluation) (now : Nat) : Bool :=
  !ev.revoked && ev.validUntil.any (now < ·)

def validatedProceeding (ev : UnionEvaluation) (now : Nat) : List String :=
  if ev.binding.isNone && ev.authorizationLive now then ev.validatedMembers else []

def validatedExcluded (ev : UnionEvaluation) (now : Nat) : List String :=
  if ev.binding.isNone && ev.authorizationLive now then ev.excludedMembers else []

def invalidate (ev : UnionEvaluation) : UnionEvaluation :=
  { ev with
    revoked := true
    stopReason := some .invalidated
    proceeding := []
    held := ev.evaluatedMembers }

def outcomeOf (ev : UnionEvaluation) (id : String) : Option UnionOutcome :=
  if id ∈ ev.validatedMembers then some .green
  else if id ∈ ev.excludedMembers then some .failingPairMember
  else none

def outcomesForLanding (ev : UnionEvaluation) (now : Nat) (ids : List String) :
    List (String × UnionOutcome) :=
  if ev.binding.isSome || !ev.authorizationLive now || ids != ev.evaluatedMembers then []
  else ids.filterMap fun id => (ev.outcomeOf id).map (id, ·)

end UnionEvaluation

def World.scoped {ω : Type} (w : World ω) (context : EvaluationContext) :
    World (ω × List ProbeObservation) where
  now s := ((w.now s.1).1, (w.now s.1).2, s.2)
  evaluateBefore ids deadline s :=
    let r := w.evaluateInContext ids deadline context s.1
    (r.1, r.2, s.2 ++ [⟨ids, r.1.1, r.1.2⟩])
  evaluateInContext ids deadline _ s :=
    let r := w.evaluateInContext ids deadline context s.1
    (r.1, r.2, s.2 ++ [⟨ids, r.1.1, r.1.2⟩])

def evaluateUnionInContext {ω : Type} (w : World ω) (batch : Batch) (limits : EvaluationLimits)
    (context : EvaluationContext) (s : ω) : UnionEvaluation × ω :=
  if context.isValid then
    let run := evaluateUnionWithClock (w.scoped context) batch limits (s, [])
    ({ run.1 with binding := some ⟨context, .capture batch, run.2.2⟩ }, run.2.1)
  else
    let run := evaluateUnionWithClock w batch ⟨0, 0⟩ s
    ({ run.1 with
      stopReason := some .invalidContext
      verdict := .unknown
      revoked := true
      binding := some ⟨context, .capture batch, []⟩ }, run.2)

/-- The authorization is checked before and after the snapshots are compared. -/
def UnionEvaluation.authorizeFor (ev : UnionEvaluation) (batch : Batch)
    (context : EvaluationContext) (now later : Nat) : Option (List String × List String) := do
  let binding ← ev.binding
  if !ev.authorizationLive now || binding.context != context ||
      binding.batch != .capture batch then none
  else if ev.authorizationLive later then some (ev.validatedMembers, ev.excludedMembers)
  else none

inductive Observation where
  | clock (t : Nat)
  | answered (ids : List String) (deadline : Nat) (verdict : UnionVerdict)
  deriving DecidableEq

/-- The same world with a record of its calls, oldest first. -/
def World.recorded {ω : Type} (w : World ω) : World (ω × List Observation) where
  now s := ((w.now s.1).1, (w.now s.1).2, s.2 ++ [.clock (w.now s.1).1])
  evaluateBefore ids deadline s :=
    let r := w.evaluateBefore ids deadline s.1
    (r.1, r.2, s.2 ++ [.answered ids deadline r.1.1])
  evaluateInContext ids deadline context s :=
    let r := w.evaluateInContext ids deadline context s.1
    (r.1, r.2, s.2 ++ [.answered ids deadline r.1.1])

end Hugit

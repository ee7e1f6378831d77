import Hugit.Authz
import Hugit.RawPush

/-! The engine that keeps a forge and its GitHub mirror in step. The forge is an
event log; what was last emitted and last ingested is kept per ref. -/

namespace Hugit

open Std

def incidentRefPrefix : String := "refs/hugit/incidents/"

def proposedRefPrefix : String := "refs/hugit/proposed/"

def incidentRefName (branch githubTip : String) : String :=
  let leaf := ((stripPrefix "refs/heads/".toList branch.toList).map String.ofList).getD branch
  incidentRefPrefix ++ leaf ++ "/" ++ githubTip

def proposedRefName (githubTip : String) : String :=
  proposedRefPrefix ++ "main/" ++ githubTip

inductive SyncError where
  | missingAttribution
  | tamper (e : ReplayError)
  | landDenied (reason : String)
  deriving DecidableEq

inductive AuthoritySide where
  | forge
  | gitHub
  deriving DecidableEq

structure AuthorityModel where
  protectedRef : String
  authority : ExtTreeMap String AuthoritySide

namespace AuthorityModel

def new (protectedRef : String) : AuthorityModel :=
  ⟨protectedRef, (∅ : ExtTreeMap String AuthoritySide).insert protectedRef .forge⟩

def authorityFor (m : AuthorityModel) (refName : String) : AuthoritySide :=
  m.authority[refName]?.getD .forge

def arbitrate (m : AuthorityModel) (refName : String) : AuthorityModel :=
  { m with authority := m.authority.insert refName .forge }

def isSymmetricForMain (m : AuthorityModel) : Bool :=
  m.authorityFor m.protectedRef = .gitHub

end AuthorityModel

structure ProtectedReroute where
  proposedRef : String
  attemptedTip : String
  deriving DecidableEq

inductive IngestOutcome where
  | branchIngested (refName tip : String)
  | rerouted (reroute : ProtectedReroute)
  deriving DecidableEq

inductive ConvergeOutcome where
  | alreadyConverged
  | emitted (refName tip : String)
  deriving DecidableEq

structure IncidentRef where
  refName : String
  preservedTip : String
  deriving DecidableEq

inductive MutationOrigin where
  | unobserved
  | forgeSide
  | mirrorSide
  deriving DecidableEq

structure MirrorState where
  refName : String
  forgeTip : String
  mirrorTip : String
  undecidable : Bool
  origin : MutationOrigin

inductive RefClass where
  | synced
  | divergent
  | degraded
  deriving DecidableEq

def RefClass.isDivergent : RefClass → Bool
  | synced => false
  | _ => true

def MirrorState.classify (state : MirrorState) : RefClass :=
  if state.undecidable then .degraded
  else if state.forgeTip = state.mirrorTip then .synced else .divergent

inductive RepairStrategy where
  | forgeAuthoritative
  deriving DecidableEq

inductive DivergenceReason where
  | tipMismatch
  | degraded
  deriving DecidableEq

def DivergenceReason.text : DivergenceReason → String
  | tipMismatch => "mirror tip differs from forge tip"
  | degraded => "detector degraded (fail-closed to divergent)"

structure Alarm where
  refName : String
  reason : DivergenceReason
  deriving DecidableEq

structure Repair where
  refName : String
  forgeTip : String
  strategy : RepairStrategy
  deriving DecidableEq

structure Incident where
  refName : String
  detail : String
  mirrorWrite : Bool
  deriving DecidableEq

structure DivergenceResolution where
  alarm : Alarm
  repair : Repair
  incident : Incident
  deriving DecidableEq

def MirrorState.resolve (state : MirrorState) : Option DivergenceResolution :=
  if !state.classify.isDivergent then none
  else
    let reason := if state.classify = .degraded then .degraded else .tipMismatch
    some ⟨⟨state.refName, reason⟩, ⟨state.refName, state.forgeTip, .forgeAuthoritative⟩,
      ⟨state.refName, reason.text, state.origin = .mirrorSide⟩⟩

structure ReflectRef where
  refName : String
  forgeTip : String
  observedGithubTip : Option String
  deriving DecidableEq

inductive RefReflect where
  | emitted (refName tip : String)
  | skipped (refName : String)
  | deferred (refName : String)
  deriving DecidableEq

structure ReflectHalt where
  refName : String
  forgeTip : String
  githubTip : String
  deriving DecidableEq

structure ReflectReport where
  results : List RefReflect
  halted : Option ReflectHalt
  deriving DecidableEq

def RefReflect.isEmitted : RefReflect → Bool
  | emitted _ _ => true
  | _ => false

def ReflectReport.emittedCount (report : ReflectReport) : Nat :=
  (report.results.filter RefReflect.isEmitted).length

structure ReflectPass where
  lastEmitted : ExtTreeMap String String
  results : List RefReflect
  halted : Option ReflectHalt
  emitted : Nat

def ReflectRef.diverged (want : ReflectRef) (lastEmitted : Option String) : Option String :=
  want.observedGithubTip.filter fun gh => lastEmitted ≠ some gh && gh ≠ want.forgeTip

def ReflectPass.one (bound : Nat) (pass : ReflectPass) (want : ReflectRef) : ReflectPass :=
  if pass.halted.isSome || bound ≤ pass.emitted then
    { pass with results := pass.results ++ [.deferred want.refName] }
  else
    match want.diverged pass.lastEmitted[want.refName]? with
    | some gh =>
      { pass with results := pass.results ++ [.deferred want.refName],
                  halted := some ⟨want.refName, want.forgeTip, gh⟩ }
    | none =>
      if pass.lastEmitted[want.refName]? = some want.forgeTip then
        { pass with results := pass.results ++ [.skipped want.refName] }
      else
        { pass with lastEmitted := pass.lastEmitted.insert want.refName want.forgeTip,
                    results := pass.results ++ [.emitted want.refName want.forgeTip],
                    emitted := pass.emitted + 1 }

structure BidirSync where
  log : EventLog
  protectedRef : String
  emittedOutbound : ExtTreeMap String String
  ingestedInbound : ExtTreeMap String String
  authority : AuthorityModel

namespace BidirSync

def withProtected (protectedRef : String) : BidirSync :=
  ⟨.empty, protectedRef, ∅, ∅, .new protectedRef⟩

def new : BidirSync := withProtected "refs/heads/main"

section

variable (c : Crates) (s : BidirSync)

def forgeRefs : Except SyncError RefState :=
  match replay c s.log with
  | .ok state => .ok state
  | .error e => .error (.tamper e)

def forgeTip (refName : String) : Except SyncError (Option String) :=
  (s.forgeRefs c).map fun state => state.get refName

def appendExternalUpdate (refName tip : String) (principalChain : List String) (recordedAt : Nat) :
    Except SyncError Unit × BidirSync :=
  match recordExternalChange c s.log (.update refName tip) principalChain recordedAt with
  | (.ok _, log) => (.ok (), { s with log := log })
  | (.error _, log) => (.error .missingAttribution, { s with log := log })

def ingestGithubPush (refName githubTip : String) (principalChain : List String) (recordedAt : Nat) :
    Except SyncError IngestOutcome × BidirSync :=
  if principalChain = [] then (.error .missingAttribution, s)
  else if refName = s.protectedRef then
    match s.appendExternalUpdate c (proposedRefName githubTip) githubTip principalChain recordedAt with
    | (.ok (), s) => (.ok (.rerouted ⟨proposedRefName githubTip, githubTip⟩), s)
    | (.error e, s) => (.error e, s)
  else
    match s.appendExternalUpdate c refName githubTip principalChain recordedAt with
    | (.ok (), s) =>
      (.ok (.branchIngested refName githubTip),
        { s with ingestedInbound := s.ingestedInbound.insert refName githubTip })
    | (.error e, s) => (.error e, s)

/-- Without debug assertions this is the push itself, protected branch or not. -/
def ingestGithubBranch (refName githubTip : String) (principalChain : List String) (recordedAt : Nat) :
    Except SyncError IngestOutcome × BidirSync :=
  s.ingestGithubPush c refName githubTip principalChain recordedAt

def landPayload (protectedRef intentId tip charter : String) : String :=
  let payload := c.print (.object [("intent_id", .string intentId), ("ref", .string protectedRef),
    ("target", .string tip), ("charter", .string charter)])
  (canonicalJson c payload).getD payload

def landViaQueue (intentId tip charter : String) (principalChain : List String) (recordedAt : Nat) :
    Except SyncError Unit × BidirSync :=
  match auditedAuthorize c s.log principalChain .land recordedAt with
  | (.allow, _, log) =>
    let principal := (principalChain.getLast?.bind PrincipalClass.classify).getD .worker
    match log.appendAuthorized c principal .land intentLandedKind principalChain
        (landPayload c s.protectedRef intentId tip charter) recordedAt with
    | (.ok _, log) => (.ok (), { s with log := log, authority := s.authority.arbitrate s.protectedRef })
    | (.error denied, log) => (.error (.landDenied denied.reason.code), { s with log := log })
  | (.deny reason, _, log) => (.error (.landDenied reason.code), { s with log := log })

/-- The protected branch is excluded by a debug assertion only. -/
def mirrorOutForgeBranch (refName forgeTip : String) (principalChain : List String) (recordedAt : Nat) :
    Except SyncError String × BidirSync :=
  match s.appendExternalUpdate c refName forgeTip principalChain recordedAt with
  | (.ok (), s) => (.ok forgeTip, { s with emittedOutbound := s.emittedOutbound.insert refName forgeTip })
  | (.error e, s) => (.error e, s)

def convergeOutbound (refName : String) : Except SyncError ConvergeOutcome × BidirSync :=
  match s.forgeTip c refName with
  | .error e => (.error e, s)
  | .ok none => (.ok .alreadyConverged, s)
  | .ok (some tip) =>
    if s.emittedOutbound[refName]? = some tip then (.ok .alreadyConverged, s)
    else (.ok (.emitted refName tip), { s with emittedOutbound := s.emittedOutbound.insert refName tip })

def convergeInbound (refName observedGithubTip : String) (principalChain : List String) (recordedAt : Nat) :
    Except SyncError ConvergeOutcome × BidirSync :=
  if s.emittedOutbound[refName]? = some observedGithubTip then (.ok .alreadyConverged, s)
  else if s.ingestedInbound[refName]? = some observedGithubTip then (.ok .alreadyConverged, s)
  else
    match s.ingestGithubBranch c refName observedGithubTip principalChain recordedAt with
    | (.ok _, s) => (.ok (.emitted refName observedGithubTip), s)
    | (.error e, s) => (.error e, s)

/-- Equal tips are no divergence: the engine panics before it changes anything. -/
def arbitrateBranchDivergence (refName forgeTip githubTip : String) (principalChain : List String)
    (recordedAt : Nat) : Option (Except SyncError (DivergenceResolution × IncidentRef)) × BidirSync :=
  match (MirrorState.mk refName forgeTip githubTip false .mirrorSide).resolve with
  | none => (none, s)
  | some resolution =>
    let incident : IncidentRef := ⟨incidentRefName refName githubTip, githubTip⟩
    match s.appendExternalUpdate c incident.refName githubTip principalChain recordedAt with
    | (.ok (), s) => (some (.ok (resolution, incident)), { s with authority := s.authority.arbitrate refName })
    | (.error e, s) => (some (.error e), s)

end

def reflectBounded (s : BidirSync) (desired : List ReflectRef) (bound : Nat) : ReflectReport × BidirSync :=
  let pass := desired.foldl (ReflectPass.one bound) ⟨s.emittedOutbound, [], none, 0⟩
  (⟨pass.results, pass.halted⟩, { s with emittedOutbound := pass.lastEmitted })

end BidirSync

end Hugit

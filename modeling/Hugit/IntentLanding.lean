import Hugit.IntentImport
import Hugit.SealGuard

/-! The verb that lands an authored intent on the log. -/

namespace Hugit

def authoredRef : String := "refs/hugit/intents"

def authoredTarget (intentId : String) : String :=
  "authored:" ++ intentId

/-- The campaign an intent is filed under: the first of its principals that names
one. -/
def chainCampaign (principalChain : List String) : String :=
  String.ofList ((principalChain.findSome? fun p => stripPrefix "campaign:".toList p.toList).getD [])

def AuthzDenied.text (denied : AuthzDenied) : String :=
  "authorization denied (" ++ denied.reason.code ++ "): the mutation was not appended (audited as " ++
    authzDeniedKind ++ ")"

def intentLandedPayload (sidecar : IntentSidecar) (campaign : String) : Value :=
  .object ([("intent_id", .string sidecar.intentId), ("ref", .string authoredRef),
    ("target", .string (authoredTarget sidecar.intentId)), ("charter", .string sidecar.charter)] ++
    if campaign = "" then [] else [("campaign", .string campaign)])

/-- One of the landed intents has the id. If any of them cannot be read, none is
known. -/
def landedById (c : Crates) (log : EventLog) (intentId : String) : Bool :=
  match intentsFromRecords c log.records with
  | .ok landed => landed.intents.any (·.intentId = intentId)
  | .error _ => false

namespace Scrubber

variable (s : Scrubber)

def importSidecarAuthorized (log : EventLog) (sidecar : IntentSidecar) (principalChain : List String)
    (recordedAt : Nat) : Except PorcelainError Unit × EventLog :=
  if sidecar.intentId = "" then
    (.error ⟨"invalid_intent", "sidecar has an empty intent_id",
      "ensure --charter is set and the intent id is non-empty", []⟩, log)
  else
    match log.appendAuthorized s.crates (actorClass principalChain) .push intentLandedKind principalChain
        (s.scrubToCanonical (intentLandedPayload sidecar (chainCampaign principalChain))) recordedAt with
    | (.error denied, _) =>
      (.error ⟨"authz_denied", denied.text,
        "the acting principal is not permitted to author intents at this altitude", []⟩, log)
    | (.ok _, log') => (.ok (), log')

def landIntent (log : EventLog) (sidecar : IntentSidecar) (principalChain : List String) (recordedAt : Nat) :
    Except PorcelainError Unit × EventLog :=
  let campaignKey := chainCampaign principalChain
  match if campaignKey = "" then .ok () else guardNotSealed s.crates log campaignKey with
  | .error v =>
    (.error ⟨v.kind, v.message, v.fix, [("campaign", .string (redactText s.measures v.campaign))]⟩, log)
  | .ok () =>
    if landedById s.crates log sidecar.intentId then (.ok (), log)
    else s.importSidecarAuthorized log sidecar principalChain recordedAt

def landedRecord (log : EventLog) (sidecar : IntentSidecar) (principalChain : List String) (recordedAt : Nat) :
    EventRecord :=
  EventLog.nextRecord s.crates log.records intentLandedKind principalChain
    (s.scrubToCanonical (intentLandedPayload sidecar (chainCampaign principalChain))) recordedAt

end Scrubber

section Effects

variable {s : Scrubber} {log : EventLog} {sidecar : IntentSidecar} {principalChain : List String} {recordedAt : Nat}

theorem landIntent_cases :
    ((s.landIntent log sidecar principalChain recordedAt).2 = log ∧
        ((s.landIntent log sidecar principalChain recordedAt).1 = .ok () →
          landedById s.crates log sidecar.intentId = true)) ∨
      (s.landIntent log sidecar principalChain recordedAt =
          (.ok (), ⟨log.records ++ [s.landedRecord log sidecar principalChain recordedAt]⟩) ∧
        (chainCampaign principalChain = "" ∨
          campaignIsSealed s.crates log (chainCampaign principalChain) = false) ∧
        landedById s.crates log sidecar.intentId = false) := by
  have hopen : (if chainCampaign principalChain = "" then .ok () else
      guardNotSealed s.crates log (chainCampaign principalChain)) = .ok () →
      chainCampaign principalChain = "" ∨ campaignIsSealed s.crates log (chainCampaign principalChain) = false := by
    split_ifs with hkey
    · exact fun _ => .inl hkey
    · exact fun hguard => .inr (guardNotSealed_eq_ok.mp hguard)
  unfold Scrubber.landIntent
  cases hguard : (if chainCampaign principalChain = "" then .ok () else
      guardNotSealed s.crates log (chainCampaign principalChain)) with
  | error v =>
    simp only [hguard]
    exact .inl ⟨trivial, nofun⟩
  | ok _ =>
    simp only [hguard]
    split_ifs with hlanded
    · exact .inl ⟨rfl, fun _ => hlanded⟩
    · unfold Scrubber.importSidecarAuthorized
      split_ifs with hempty
      · exact .inl ⟨rfl, nofun⟩
      · refine .inr ⟨?_, hopen hguard, by simpa using hlanded⟩
        cases actorClass principalChain <;> rfl

theorem intentLandedPayload_printable (sidecar : IntentSidecar) (campaign : String) :
    (intentLandedPayload sidecar campaign).Printable 127 := by
  by_cases h : campaign = ""
  · rw [intentLandedPayload, if_pos h]
    refine .object (by simp) ?_
    simp only [List.append_nil, List.forall_mem_cons, List.not_mem_nil, IsEmpty.forall_iff, implies_true, and_true]
    exact ⟨.string _, .string _, .string _, .string _⟩
  · rw [intentLandedPayload, if_neg h]
    refine .object (by simp) ?_
    simp only [List.cons_append, List.nil_append, List.forall_mem_cons, List.not_mem_nil, IsEmpty.forall_iff,
      implies_true, and_true]
    exact ⟨.string _, .string _, .string _, .string _, .string _⟩

end Effects

end Hugit

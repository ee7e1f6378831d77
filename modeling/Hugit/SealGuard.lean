import Hugit.PullRequests

/-! The errors of the command line verbs, their check of an identifier, and the
guard in front of a sealed campaign. -/

namespace Hugit

structure PorcelainError where
  kind : String
  message : String
  fix : String
  context : List (String × Value)

def secretHint : String :=
  "identifiers are addresses, not secrets — they are stored unredacted; do not put a credential in " ++
    "--campaign/--pr/--id/--run-id/--owner; use a non-secret short name or content-hash instead"

def validateIdentifier (m : Measures) (value fieldName : String) : Except PorcelainError Unit :=
  let trimmed := String.ofList (trim value.toList)
  if trimmed = "" then
    .error ⟨"invalid_argument", fieldName ++ " is empty", "pass a non-empty identifier value", []⟩
  else if structuralSecretScrub m trimmed ≠ trimmed then
    .error ⟨"secret_in_identifier", fieldName ++ " looks like a credential (it trips the redaction engine's " ++
      "structural-secret detector): identifiers are stored unredacted in the forever-log", secretHint, []⟩
  else .ok ()

def campaignClosedKind : String := "campaign.closed"

structure SealViolation where
  campaign : String
  deriving DecidableEq

namespace SealViolation

def kind (_ : SealViolation) : String := "campaign_sealed"

def message (v : SealViolation) : String :=
  "campaign '" ++ v.campaign ++ "' is sealed (campaign.closed on log): a sealed campaign is terminal — no " ++
    "further appends (intent, pr, or verdict) are allowed"

def fix (_ : SealViolation) : String :=
  "open or create a new campaign for further work; a closed campaign is an immutable audit-trail fact and " ++
    "cannot be mutated"

end SealViolation

def campaignIsSealed (c : Crates) (log : EventLog) (campaignKey : String) : Bool :=
  (log.payloads c campaignClosedKind).any fun v => v.fieldStr "campaign" = some campaignKey

def guardNotSealed (c : Crates) (log : EventLog) (campaignKey : String) : Except SealViolation Unit :=
  if campaignIsSealed c log campaignKey then .error ⟨campaignKey⟩ else .ok ()

theorem guardNotSealed_eq_ok {c : Crates} {log : EventLog} {key : String} :
    guardNotSealed c log key = .ok () ↔ campaignIsSealed c log key = false := by
  rw [guardNotSealed]
  cases campaignIsSealed c log key <;> simp

end Hugit

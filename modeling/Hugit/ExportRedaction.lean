import Hugit.ExportSchema
import Hugit.StoredPayload

/-! Redaction at export: the manifest of removals, and the check that refuses a
canonical event that redaction would change. -/

namespace Hugit

open Serde

def ledgerPolicyLabel : String := "ledger-engine"

structure Removal where
  location : String
  policy : String
  removedDigest : String
  deriving DecidableEq

structure RedactionManifest where
  removals : List Removal
  deriving DecidableEq

def Removal.serde : Serde Removal :=
  record ["location", "policy", "removed_digest"] false
    (fun r => [str.toValue r.location, str.toValue r.policy, str.toValue r.removedDigest]) fun
    | [location, policy, removedDigest] =>
      return ⟨← str.ofValue location, ← str.ofValue policy, ← str.ofValue removedDigest⟩
    | _ => none

namespace RedactionManifest

def new : RedactionManifest := ⟨[]⟩

def serde : Serde RedactionManifest :=
  record ["removals"] false (fun m => [Removal.serde.vec.toValue m.removals]) fun
    | [removals] => return ⟨← Removal.serde.vec.ofValue removals⟩
    | _ => none

def contentRef (c : Crates) (manifest : RedactionManifest) : String :=
  "redaction-" ++ hexEncode (c.digest (utf8 (c.print (serde.toValue manifest))))

end RedactionManifest

def removalOf (c : Crates) (location : String) (original : Bytes) : Removal :=
  ⟨location, ledgerPolicyLabel, hexEncode (c.digest original)⟩

mutual

def jsonKeyWouldRedact (m : Measures) : Value → Bool
  | .object fields => fieldKeyWouldRedact m fields
  | .array items => itemKeyWouldRedact m items
  | _ => false

def itemKeyWouldRedact (m : Measures) : List Value → Bool
  | [] => false
  | v :: vs => jsonKeyWouldRedact m v || itemKeyWouldRedact m vs

def fieldKeyWouldRedact (m : Measures) : List (String × Value) → Bool
  | [] => false
  | (key, v) :: fields =>
    redactText m key ≠ key || jsonKeyWouldRedact m v || fieldKeyWouldRedact m fields

end

namespace Scrubber

variable (s : Scrubber)

def redactField (location text : String) : StateM RedactionManifest String := do
  let redacted := redactText s.measures text
  if redacted ≠ text then
    modify fun m => ⟨m.removals ++ [removalOf s.crates location (utf8 text)]⟩
  return redacted

def wouldRedact (text : String) : Bool :=
  let canonical := fun v => canonicalJson s.crates (s.crates.print v)
  match s.crates.fromStr text with
  | none => redactText s.measures text ≠ text
  | some v => jsonKeyWouldRedact s.measures v || canonical v ≠ canonical (s.scrubPayload v)

def wouldRedactEvent (event : EventRecord) : Bool :=
  redactText s.measures event.kind ≠ event.kind ||
    event.principalChain.any (fun principal => redactText s.measures principal ≠ principal) ||
    s.wouldRedact event.payload

end Scrubber

def Scrubber.fieldRemovals (s : Scrubber) (location text : String) : List Removal :=
  if redactText s.measures text = text then [] else [removalOf s.crates location (utf8 text)]

theorem Scrubber.run_redactField (s : Scrubber) (location text : String) (m : RedactionManifest) :
    (s.redactField location text).run m =
      (redactText s.measures text, ⟨m.removals ++ s.fieldRemovals location text⟩) := by
  unfold redactField fieldRemovals
  by_cases h : redactText s.measures text = text
  · simp only [h, ne_eq, not_true_eq_false, if_false, if_true, List.append_nil]
    rfl
  · simp only [ne_eq, h, not_false_eq_true, if_true, if_false]
    rfl

theorem run_mapM_manifest {α β : Type} {f : α → StateM RedactionManifest β} {out : α → β}
    {removed : α → List Removal} (h : ∀ a m, (f a).run m = (out a, ⟨m.removals ++ removed a⟩)) (as : List α)
    (m : RedactionManifest) : (as.mapM f).run m = (as.map out, ⟨m.removals ++ as.flatMap removed⟩) := by
  induction as generalizing m with
  | nil =>
    rw [List.flatMap_nil, List.append_nil]
    rfl
  | cons a as ih =>
    rw [List.mapM_cons, StateT.run_bind, h]
    show ((as.mapM f >>= fun bs => pure (out a :: bs)) : StateM RedactionManifest (List β)).run _ = _
    rw [StateT.run_bind, ih, List.flatMap_cons, List.append_assoc]
    rfl

namespace Scrubber

variable {s : Scrubber}

theorem wouldRedact_parsed (hc : s.crates.Parses) {text : String} {v : Value}
    (h : s.crates.fromStr text = some v) : s.wouldRedact text = false ↔
      jsonKeyWouldRedact s.measures v = false ∧ canonicalizeValue v = canonicalizeValue (s.scrubPayload v) := by
  have hv := hc.parsed_printable text v h
  have hw := s.scrubPayload_printable hv
  have hprint : s.crates.print (canonicalizeValue v) = s.crates.print (canonicalizeValue (s.scrubPayload v)) ↔
      canonicalizeValue v = canonicalizeValue (s.scrubPayload v) := by
    constructor
    · intro he
      have hread := congrArg s.crates.fromStr he
      rw [hc.reads_back _ hv.canonicalize, hc.reads_back _ hw.canonicalize] at hread
      exact Option.some.inj hread
    · exact congrArg _
  rw [wouldRedact, h]
  dsimp only
  rw [Bool.or_eq_false_iff, decide_eq_false_iff_not, not_not, canonicalJson_print hc.toJson hv,
    canonicalJson_print hc.toJson hw, Option.some_inj, hprint]

theorem redactText_fieldStr (hc : s.crates.Parses) {text : String} {v : Value}
    (h : s.crates.fromStr text = some v) (hw : s.wouldRedact text = false) {key field : String}
    (hk : ∀ text, s.scrubMode key (.string text) = .freeText) (hf : v.fieldStr key = some field) :
    redactText s.measures field = field := by
  obtain ⟨-, hcanon⟩ := (wouldRedact_parsed hc h).mp hw
  have hv := hc.parsed_printable text v h
  obtain ⟨gates, hscrub⟩ := s.scrubPayload_eq v
  have hget := congrArg (Value.fieldStr · key) hcanon
  rw [fieldStr_canonicalizeValue hv, fieldStr_canonicalizeValue (s.scrubPayload_printable hv), hscrub,
    fieldStr_scrubValue s gates .freeText v hk, hf, Option.map_some] at hget
  exact (Option.some.inj hget).symm

end Scrubber

end Hugit

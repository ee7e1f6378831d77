import Hugit.CanonicalJson
import Hugit.JsonLimits
import Hugit.Revocation

/-! The audit records of the webhook endpoint. A payload is built around the id
of a request by hand, without escaping it. -/

namespace Hugit

def auditPayload (field id : String) : String :=
  "\x7b\"" ++ field ++ "\":\"" ++ id ++ "\"\x7d"

/-- The two builders of the source differ in the kind and in the field only. -/
def buildAuditRecord (c : Crates) (kind field id prevHash : String) (seq receivedAt : Nat) : EventRecord :=
  let rawPayload := auditPayload field id
  let payload := (canonicalJson c rawPayload).getD rawPayload
  { seq := seq
    prevHash := prevHash
    thisHash := computeThisHash c prevHash kind ["github"] payload seq
    kind := kind
    principalChain := ["github"]
    payload := payload
    recordedAt := receivedAt }

def buildWebhookRejectedRecord (c : Crates) (deliveryId prevHash : String) (seq receivedAt : Nat) : EventRecord :=
  buildAuditRecord c "webhook.rejected" "delivery_id" deliveryId prevHash seq receivedAt

theorem buildInstallationRevokedRecord_eq (c : Crates) (installationId prevHash : String) (seq recordedAt : Nat) :
    buildInstallationRevokedRecord c installationId prevHash seq recordedAt =
      buildAuditRecord c "installation.revoked" "installation_id" installationId prevHash seq recordedAt := rfl

inductive AuditCall where
  | rejected (deliveryId : String) (receivedAt : Nat)
  | revoked (installationId : String) (recordedAt : Nat)

namespace AuditCall

def id : AuditCall → String
  | rejected deliveryId _ => deliveryId
  | revoked installationId _ => installationId

def field : AuditCall → String
  | rejected _ _ => "delivery_id"
  | revoked _ _ => "installation_id"

def record (c : Crates) (prevHash : String) (seq : Nat) : AuditCall → EventRecord
  | rejected deliveryId receivedAt => buildWebhookRejectedRecord c deliveryId prevHash seq receivedAt
  | revoked installationId recordedAt => buildInstallationRevokedRecord c installationId prevHash seq recordedAt

/-- The record parses as an object with one field, the id it was built from. -/
def Told (c : Crates) (call : AuditCall) (r : EventRecord) : Prop :=
  c.fromStr r.payload = some (.object [(call.field, .string call.id)])

end AuditCall

def auditTrail (c : Crates) (calls : List AuditCall) : List EventRecord :=
  calls.foldl (fun records call => records ++ [call.record c (headHash records) records.length]) []

theorem auditTrail_concat (c : Crates) (calls : List AuditCall) (call : AuditCall) :
    auditTrail c (calls ++ [call]) =
      auditTrail c calls ++ [call.record c (headHash (auditTrail c calls)) (auditTrail c calls).length] := by
  rw [auditTrail, List.foldl_append]
  rfl

theorem auditTrail_accepted (c : Crates) (calls : List AuditCall) :
    RedactionFree (auditTrail c calls) ∧ verifyChain c (auditTrail c calls) = .ok () := by
  induction calls using List.reverseRecOn with
  | nil => exact ⟨fun r hr => absurd hr List.not_mem_nil, rfl⟩
  | append_singleton calls call ih =>
    obtain ⟨hfree, hok⟩ := ih
    have hunnamed := redactionFree_markers (c := c) hfree (auditTrail c calls).length
    rw [auditTrail_concat]
    refine ⟨fun r hr => ?_, ?_⟩
    · rcases List.mem_append.mp hr with hr | hr
      · exact hfree r hr
      · obtain rfl := List.mem_singleton.mp hr
        cases call with
        | rejected => exact (by decide : "webhook.rejected" ≠ provenanceRedactionKind)
        | revoked => exact (by decide : "installation.revoked" ≠ provenanceRedactionKind)
    · cases call with
      | rejected => exact @verifyChain_append_of_ne c ⟨_⟩ hok hunnamed _ (by decide) ["github"] _ _
      | revoked => exact @verifyChain_append_of_ne c ⟨_⟩ hok hunnamed _ (by decide) ["github"] _ _

namespace JsonText

/-- Text that stands for itself between quotes. -/
def Plain (text : List Char) : Prop :=
  ∀ c ∈ text, c ≠ '"' ∧ c ≠ '\\' ∧ ¬ c.toNat < 0x20

instance (text : List Char) : Decidable (Plain text) :=
  List.decidableBAll _ text

theorem Plain.flatMap_escapeChar {text : List Char} (h : Plain text) : text.flatMap escapeChar = text := by
  have hchar : ∀ c ∈ text, escapeChar c = [c] := by
    intro c hc
    obtain ⟨hquote, hslash, hcontrol⟩ := h c hc
    have hne (d : Char) (hd : d.toNat < 0x20) : c ≠ d := fun he => hcontrol (he ▸ hd)
    simp only [escapeChar, hquote, hslash, hcontrol, if_false, hne '\n' (by decide), hne '\r' (by decide),
      hne '\t' (by decide), hne '\x08' (by decide), hne '\x0c' (by decide)]
  rw [List.flatMap_congr hchar, List.flatMap_singleton']

theorem readText_plain_or_shorter {fuel : Nat} {cs text rest : List Char}
    (h : readText fuel cs = some (text, rest)) :
    (cs = text ++ '"' :: rest ∧ Plain text) ∨ text.length + rest.length + 2 ≤ cs.length := by
  induction fuel generalizing cs text rest with
  | zero => cases h
  | succ fuel ih =>
    cases cs with
    | nil => cases h
    | cons c cs =>
      rw [readText] at h
      split_ifs at h with hquote hslash hcontrol
      · obtain ⟨rfl, rfl⟩ := by simpa using h
        rw [hquote]
        exact .inl ⟨rfl, fun c hc => absurd hc List.not_mem_nil⟩
      · simp only [bind, Option.bind_eq_some_iff, Option.some.injEq, Prod.mk.injEq] at h
        obtain ⟨⟨e, mid⟩, he, ⟨s, tail⟩, hs, rfl, rfl⟩ := h
        have hescape := length_readEscape he
        have htext := length_readText hs
        simp only [List.length_cons] at htext ⊢
        right
        omega
      · simp only [bind, Option.bind_eq_some_iff, Option.some.injEq, Prod.mk.injEq] at h
        obtain ⟨⟨s, tail⟩, hs, rfl, rfl⟩ := h
        rcases ih hs with ⟨rfl, hplain⟩ | hlen
        · exact .inl ⟨rfl, List.forall_mem_cons.mpr ⟨⟨hquote, hslash, hcontrol⟩, hplain⟩⟩
        · simp only [List.length_cons]
          right
          omega

theorem readMembers_field {field id rest : List Char} {fuel depth : Nat} {fs : List (String × Value)}
    (hfield : Plain field) (hf : field.length < fuel + 1)
    (h : readMembers (fuel + 2) depth [] ('"' :: (field ++ '"' :: ':' :: '"' :: (id ++ ['"', '}']))) =
      some (fs, rest)) : Plain id ∨ longestField fs < id.length := by
  have hkey := escapes_escapeChar.readText field hf (':' :: '"' :: (id ++ ['"', '}']))
  rw [hfield.flatMap_escapeChar] at hkey
  have hquote (cs : List Char) : skipBlank ('"' :: cs) = '"' :: cs := skipBlank_cons (by decide) cs
  have hcolon (cs : List Char) : skipBlank (':' :: cs) = ':' :: cs := skipBlank_cons (by decide) cs
  have hvalue (cs : List Char) : readValue (fuel + 1) depth ('"' :: cs) =
      (readText fuel cs).map fun r => (.string (String.ofList r.1), r.2) := by
    rw [readValue, hquote]
    simp
  rw [readMembers] at h
  simp only [hquote, hkey, hcolon, hvalue] at h
  cases ht : readText fuel (id ++ ['"', '}']) with
  | none => simp only [ht, Option.map_none, reduceCtorEq] at h
  | some r =>
    obtain ⟨text, tail⟩ := r
    have hread := readText_plain_or_shorter ht
    have htail := length_skipBlank_le tail
    simp only [ht, Option.map_some, insertKey] at h
    simp only [List.length_append, List.length_cons, List.length_nil] at hread
    split at h
    · next more hs =>
      obtain ⟨hmore, hlongest⟩ := (read_shorter _).2.2 _ _ _ _ _ h
      simp only [longestField, longestText, String.length_ofList] at hlongest
      simp only [hs, List.length_cons] at htail
      right
      rcases hread with ⟨heq, -⟩ | hlen
      · have hlen := congrArg List.length heq
        simp only [List.length_append, List.length_cons, List.length_nil] at hlen
        omega
      · omega
    · next more hs =>
      obtain ⟨rfl, rfl⟩ := by simpa using h
      simp only [longestField, longestText, String.length_ofList]
      simp only [hs, List.length_cons] at htail
      rcases hread with ⟨heq, hplain⟩ | hlen
      · have hlen := congrArg List.length heq
        simp only [List.length_append, List.length_cons, List.length_nil] at hlen
        by_cases hshort : text.length = id.length
        · left
          rwa [(List.append_inj heq hshort.symm).1]
        · right
          omega
      · right
        omega
    · cases h

theorem le_longestField {fs : List (String × Value)} {key text : String}
    (h : (Value.object fs).fieldStr key = some text) : text.length ≤ longestField fs := by
  induction fs with
  | nil => cases h
  | cons f fs ih =>
    obtain ⟨k, v⟩ := f
    rw [Value.fieldStr, Value.get_cons] at h
    rw [longestField]
    split_ifs at h
    · cases v with
      | string s =>
        obtain rfl := Option.some.inj h
        exact le_max_left _ _
      | null | bool _ | number _ | array _ | object _ => cases h
    · exact le_max_of_le_right (ih h)

end JsonText

open JsonText

theorem auditPayload_toList (field id : String) : (auditPayload field id).toList =
    '{' :: '"' :: (field.toList ++ '"' :: ':' :: '"' :: (id.toList ++ ['"', '}'])) := by
  simp [auditPayload]

theorem plain_of_readJson {field id : String} {v : Value} (hfield : Plain field.toList)
    (h : readJson (auditPayload field id) = some v) (hid : v.fieldStr field = some id) : Plain id.toList := by
  rw [readJson, auditPayload_toList] at h
  generalize hn : List.length _ = n at h
  simp only [List.length_cons, List.length_append, List.length_nil] at hn
  have hvalue (cs : List Char) : readValue (3 * n + 2 + 1) 127 ('{' :: '"' :: cs) =
      (readMembers (3 * n + 2) 126 [] ('"' :: cs)).map fun r => (.object r.1, r.2) := by
    rw [readValue, skipBlank_cons (by decide)]
    simp [skipBlank_cons]
  simp only [hvalue] at h
  cases hm : readMembers (3 * n + 2) 126 []
      ('"' :: (field.toList ++ '"' :: ':' :: '"' :: (id.toList ++ ['"', '}']))) with
  | none => simp only [hm, Option.map_none, reduceCtorEq] at h
  | some r =>
    obtain ⟨fs, rest⟩ := r
    simp only [hm, Option.map_some] at h
    split_ifs at h
    obtain rfl := Option.some.inj h
    have hlong := le_longestField hid
    rw [← String.length_toList] at hlong
    exact (readMembers_field hfield (by omega) hm).resolve_right (by omega)

theorem readJson_auditPayload {field id : String} (hfield : Plain field.toList) (hid : Plain id.toList) :
    readJson (auditPayload field id) = some (.object [(field, .string id)]) := by
  have hprint : auditPayload field id = printJson (.object [(field, .string id)]) := by
    apply String.toList_injective
    rw [auditPayload_toList]
    simp [printJson, printValue, printMember, printMembers, printText, hfield.flatMap_escapeChar,
      hid.flatMap_escapeChar]
  rw [hprint]
  refine readJson_printJson (.object (by simp) fun f hf => ?_)
  obtain rfl := List.mem_singleton.mp hf
  exact .string id

theorem auditPayload_told_iff {c : Crates} (hc : c.Json) (hread : ∀ text, c.fromStr text = readJson text)
    {field id : String} (hfield : Plain field.toList) :
    c.fromStr ((canonicalJson c (auditPayload field id)).getD (auditPayload field id)) =
      some (.object [(field, .string id)]) ↔ Plain id.toList := by
  rw [canonicalJson, hread (auditPayload field id)]
  constructor
  · intro h
    cases hv : readJson (auditPayload field id) with
    | none =>
      rw [hv, Option.map_none, Option.getD_none, hread, hv] at h
      cases h
    | some v =>
      have hp := readJson_printable hv
      rw [hv, Option.map_some, Option.getD_some, hc.reads_back _ hp.canonicalize] at h
      refine plain_of_readJson hfield hv ?_
      rw [← fieldStr_canonicalizeValue hp, Option.some.inj h]
      simp [Value.fieldStr, Value.asStr]
  · intro hid
    have hv := readJson_auditPayload hfield hid
    rw [hv, Option.map_some, Option.getD_some]
    exact hc.reads_back _ (readJson_printable hv).canonicalize

theorem AuditCall.told_iff {c : Crates} (hc : c.Json) (hread : ∀ text, c.fromStr text = readJson text)
    (call : AuditCall) (prevHash : String) (seq : Nat) :
    call.Told c (call.record c prevHash seq) ↔ Plain call.id.toList := by
  cases call with
  | rejected deliveryId receivedAt => exact auditPayload_told_iff hc hread (by decide)
  | revoked installationId recordedAt =>
    rw [AuditCall.Told, AuditCall.record, buildInstallationRevokedRecord_eq]
    exact auditPayload_told_iff hc hread (by decide)

/-- Every trail is accepted, and a record tells the id it was built from exactly
when no character of the id has to be escaped. -/
theorem audit_records_exact_iff {c : Crates} (hc : c.Json) (hread : ∀ text, c.fromStr text = readJson text) :
    (∀ calls, verifyChain c (auditTrail c calls) = .ok ()) ∧
    ∀ (call : AuditCall) (prevHash : String) (seq : Nat),
      call.Told c (call.record c prevHash seq) ↔ Plain call.id.toList :=
  ⟨fun calls => (auditTrail_accepted c calls).2, AuditCall.told_iff hc hread⟩

theorem reference_fromStr (text : String) : reference.fromStr text = readJson text := rfl

theorem reference_audit_record_told :
    (AuditCall.rejected "72d3162e" 0).Told reference
      ((AuditCall.rejected "72d3162e" 0).record reference genesisPrevHash 0) :=
  ((audit_records_exact_iff reference_json reference_fromStr).2 _ _ _).mpr (by decide)

/-- A delivery id with a closing quote puts a second field into the record. -/
theorem injected_delivery_id_not_told :
    ¬ (AuditCall.rejected "a\",\"b\":\"c" 0).Told reference
      ((AuditCall.rejected "a\",\"b\":\"c" 0).record reference genesisPrevHash 0) :=
  mt (AuditCall.told_iff reference_json reference_fromStr _ _ _).mp (by decide)

end Hugit

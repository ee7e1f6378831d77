import Hugit.Export
import Hugit.ScrubFixpoint

/-! Which events of the write path export refuses. Texts are stored as the check
leaves them, but the check also looks at principals and keys, which the write path
keeps when they are addresses. -/

namespace Hugit

mutual

def Value.keys : Value → List String
  | .object fields => fieldKeys fields
  | .array items => itemKeys items
  | _ => []

def itemKeys : List Value → List String
  | [] => []
  | v :: vs => v.keys ++ itemKeys vs

def fieldKeys : List (String × Value) → List String
  | [] => []
  | (key, v) :: fields => key :: (v.keys ++ fieldKeys fields)

end

theorem mem_itemKeys {key : String} {items : List Value} : key ∈ itemKeys items ↔ ∃ v ∈ items, key ∈ v.keys := by
  induction items with
  | nil => simp [itemKeys]
  | cons v vs ih => simp [itemKeys, ih]

theorem mem_fieldKeys {key : String} {fields : List (String × Value)} :
    key ∈ fieldKeys fields ↔ ∃ f ∈ fields, key = f.1 ∨ key ∈ f.2.keys := by
  induction fields with
  | nil => simp [fieldKeys]
  | cons f fields ih =>
    obtain ⟨k, v⟩ := f
    simp [fieldKeys, ih, or_assoc]

theorem mem_keys_canonicalizeValue {depth : Nat} {v : Value} (hv : v.Printable depth) {key : String} :
    key ∈ (canonicalizeValue v).keys ↔ key ∈ v.keys := by
  induction hv with
  | null | bool _ | number _ | string _ => simp only [canonicalizeValue]
  | array _ ih =>
    rw [canonicalizeValue, canonicalizeItems_eq_map, Value.keys, Value.keys, mem_itemKeys, mem_itemKeys]
    constructor
    · rintro ⟨w, hw, hk⟩
      obtain ⟨v, hv, rfl⟩ := List.mem_map.mp hw
      exact ⟨v, hv, (ih v hv).mp hk⟩
    · rintro ⟨v, hv, hk⟩
      exact ⟨_, List.mem_map_of_mem hv, (ih v hv).mpr hk⟩
  | object hnd _ ih =>
    rw [canonicalizeValue, Value.keys, Value.keys, mem_fieldKeys, mem_fieldKeys]
    constructor
    · rintro ⟨f, hf, hk⟩
      obtain ⟨g, hg, rfl⟩ := List.mem_map.mp ((canonicalizeFields_nil_perm hnd).mem_iff.mp hf)
      exact ⟨g, hg, hk.imp_right (ih g hg).mp⟩
    · rintro ⟨g, hg, hk⟩
      exact ⟨canonicalMember g, (canonicalizeFields_nil_perm hnd).mem_iff.mpr (List.mem_map_of_mem hg),
        hk.imp_right (ih g hg).mpr⟩

mutual

theorem jsonKeyWouldRedact_eq_false {m : Measures} : ∀ v : Value,
    jsonKeyWouldRedact m v = false ↔ ∀ key ∈ v.keys, isSecret m key.toList = false
  | .object fields => by
    rw [jsonKeyWouldRedact, Value.keys]
    exact fieldKeyWouldRedact_eq_false fields
  | .array items => by
    rw [jsonKeyWouldRedact, Value.keys]
    exact itemKeyWouldRedact_eq_false items
  | .null | .bool _ | .number _ | .string _ => by simp [jsonKeyWouldRedact, Value.keys]

theorem itemKeyWouldRedact_eq_false {m : Measures} : ∀ items : List Value,
    itemKeyWouldRedact m items = false ↔ ∀ key ∈ itemKeys items, isSecret m key.toList = false
  | [] => by simp [itemKeyWouldRedact, itemKeys]
  | v :: vs => by
    rw [itemKeyWouldRedact, itemKeys, List.forall_mem_append, Bool.or_eq_false_iff,
      jsonKeyWouldRedact_eq_false v, itemKeyWouldRedact_eq_false vs]

theorem fieldKeyWouldRedact_eq_false {m : Measures} : ∀ fields : List (String × Value),
    fieldKeyWouldRedact m fields = false ↔ ∀ key ∈ fieldKeys fields, isSecret m key.toList = false
  | [] => by simp [fieldKeyWouldRedact, fieldKeys]
  | (key, v) :: fields => by
    rw [fieldKeyWouldRedact, fieldKeys, List.forall_mem_cons, List.forall_mem_append, Bool.or_eq_false_iff,
      Bool.or_eq_false_iff, jsonKeyWouldRedact_eq_false v, fieldKeyWouldRedact_eq_false fields,
      decide_eq_false_iff_not, not_not, redactText_eq_self_iff, and_assoc]

end

namespace Scrubber

variable {s : Scrubber}

theorem keys_scrubValue (gates : Value → Value) {depth : Nat} {v : Value} (hv : v.Printable depth)
    (mode : ScrubMode) {key : String} : key ∈ (s.scrubValue gates mode v).keys ↔ key ∈ v.keys := by
  induction hv generalizing mode with
  | null | bool _ | number _ | string _ => simp [scrubValue, Value.keys]
  | array _ ih =>
    rw [scrubValue, scrubItems_eq_map, Value.keys, Value.keys, mem_itemKeys, mem_itemKeys]
    constructor
    · rintro ⟨w, hw, hk⟩
      obtain ⟨v, hv, rfl⟩ := List.mem_map.mp hw
      exact ⟨v, hv, (ih v hv _).mp hk⟩
    · rintro ⟨v, hv, hk⟩
      exact ⟨_, List.mem_map_of_mem hv, (ih v hv _).mpr hk⟩
  | object _ _ ih =>
    rw [scrubValue, scrubFields_eq_map, Value.keys, Value.keys, mem_fieldKeys, mem_fieldKeys]
    constructor
    · rintro ⟨f, hf, hk⟩
      obtain ⟨g, hg, rfl⟩ := List.mem_map.mp hf
      exact ⟨g, hg, hk.imp_right (ih g hg _).mp⟩
    · rintro ⟨g, hg, hk⟩
      exact ⟨_, List.mem_map_of_mem hg, hk.imp_right (ih g hg _).mpr⟩

theorem printable_of_scrubValue {gates : Value → Value} {depth depth' : Nat} {v : Value}
    (hv : v.Printable depth') {mode : ScrubMode} (h : (s.scrubValue gates mode v).Printable depth) :
    v.Printable depth := by
  induction hv generalizing mode depth with
  | null => exact .null
  | bool b => exact .bool b
  | number hn => exact .number hn
  | string text => exact .string text
  | array _ ih =>
    rw [scrubValue, scrubItems_eq_map] at h
    obtain _ | _ | _ | _ | h := h
    exact .array fun v hv => ih v hv (h _ (List.mem_map_of_mem hv))
  | object hnd _ ih =>
    rw [scrubValue, scrubFields_eq_map] at h
    obtain _ | _ | _ | _ | _ | ⟨-, h⟩ := h
    exact .object hnd fun f hf => ih f hf (h _ (List.mem_map_of_mem hf))

theorem wouldRedact_scrubToCanonical (hs : s.Lawful) {v : Value} (hv : v.Printable 127) :
    s.wouldRedact (s.scrubToCanonical v) = false ↔ ∀ key ∈ v.keys, isSecret s.measures key.toList = false := by
  have hscrubbed := s.scrubPayload_printable hv
  have hclean : s.Clean .freeText (s.stored v) := (clean_scrubPayload hs hv).canonicalize hscrubbed
  have hread := fromStr_scrubToCanonical hs.parses.toJson hv
  have hkeys : ∀ key, key ∈ (s.stored v).keys ↔ key ∈ v.keys := by
    intro key
    obtain ⟨gates, hscrub⟩ := s.scrubPayload_eq v
    rw [stored, mem_keys_canonicalizeValue hscrubbed, hscrub, keys_scrubValue gates hv]
  rw [wouldRedact_parsed hs.parses hread, hclean.scrubPayload, jsonKeyWouldRedact_eq_false]
  simp only [hkeys, and_true]

theorem wouldRedact_deep (hs : s.Lawful) {depth : Nat} {v : Value} (hv : v.Printable depth)
    (hdeep : ¬ v.Printable 127) : s.wouldRedact (s.scrubToCanonical v) = false ↔
      isSecret s.measures (s.crates.print (s.scrubPayload v)).toList = false := by
  obtain ⟨gates, hscrub⟩ := s.scrubPayload_eq v
  have hnone : s.crates.fromStr (s.crates.print (s.scrubPayload v)) = none := by
    refine hs.refuses_deep depth _ (s.scrubPayload_printable hv) fun h => hdeep ?_
    rw [hscrub] at h
    exact printable_of_scrubValue hv h
  have htext : s.scrubToCanonical v = s.crates.print (s.scrubPayload v) := by
    rw [scrubToCanonical, canonicalJson, hnone]
    rfl
  rw [htext, wouldRedact, hnone]
  dsimp only
  rw [decide_eq_false_iff_not, not_not, redactText_eq_self_iff]

theorem redactText_structuralSecretScrub {m : Measures} {principal : String} :
    redactText m (structuralSecretScrub m principal) = structuralSecretScrub m principal ↔
      (isSafeIdentifierShape m principal.toList = true → isSecret m principal.toList = false) := by
  rw [structuralSecretScrub]
  split_ifs with h
  · rw [redactText_eq_self_iff]
    exact ⟨fun hk _ => hk, fun hk => hk h⟩
  · exact ⟨fun _ hsafe => absurd hsafe h, fun _ => redactText_marker m⟩

end Scrubber

structure EventWrite where
  principals : List String
  payload : Value

namespace Scrubber

/-- The event is what the write path stores, under a harmless kind. -/
structure Stored (s : Scrubber) (w : EventWrite) (event : EventRecord) : Prop where
  kind : redactText s.measures event.kind = event.kind
  principalChain : event.principalChain = w.principals.map (structuralSecretScrub s.measures)
  payload : event.payload = s.scrubToCanonical w.payload
  value : ∃ depth, w.payload.Printable depth

/-- No principal is an address that reads as a secret and no key reads as one; a
value nested too deep to be read back does not read as one as a whole. -/
structure Exportable (s : Scrubber) (w : EventWrite) : Prop where
  principals : ∀ p ∈ w.principals, isSafeIdentifierShape s.measures p.toList = true →
    isSecret s.measures p.toList = false
  keys : w.payload.Printable 127 → ∀ key ∈ w.payload.keys, isSecret s.measures key.toList = false
  deep : ¬ w.payload.Printable 127 → isSecret s.measures (s.crates.print (s.scrubPayload w.payload)).toList = false

variable {s : Scrubber}

theorem Stored.payload_kept_iff (hs : s.Lawful) {w : EventWrite} {event : EventRecord} (h : s.Stored w event) :
    s.wouldRedact event.payload = false ↔
      (w.payload.Printable 127 → ∀ key ∈ w.payload.keys, isSecret s.measures key.toList = false) ∧
      (¬ w.payload.Printable 127 → isSecret s.measures (s.crates.print (s.scrubPayload w.payload)).toList = false) := by
  obtain ⟨depth, hv⟩ := h.value
  rw [h.payload]
  by_cases hshallow : w.payload.Printable 127
  · rw [wouldRedact_scrubToCanonical hs hshallow]
    exact ⟨fun hk => ⟨fun _ => hk, fun hdeep => absurd hshallow hdeep⟩, fun hk => hk.1 hshallow⟩
  · rw [wouldRedact_deep hs hv hshallow]
    exact ⟨fun hk => ⟨fun hv => absurd hv hshallow, fun _ => hk⟩, fun hk => hk.2 hshallow⟩

theorem Stored.kept_iff (hs : s.Lawful) {w : EventWrite} {event : EventRecord} (h : s.Stored w event) :
    s.wouldRedactEvent event = false ↔ s.Exportable w := by
  have hprincipals : event.principalChain.any (fun p => redactText s.measures p ≠ p) = false ↔
      ∀ p ∈ w.principals, isSafeIdentifierShape s.measures p.toList = true → isSecret s.measures p.toList = false := by
    simp only [h.principalChain, List.any_eq_false, List.forall_mem_map, decide_eq_true_eq, ne_eq, not_not,
      redactText_structuralSecretScrub]
  rw [wouldRedactEvent, Bool.or_eq_false_iff, Bool.or_eq_false_iff, hprincipals, h.payload_kept_iff hs,
    decide_eq_false_iff_not, not_not]
  constructor
  · rintro ⟨⟨-, hp⟩, hk, hd⟩
    exact ⟨hp, hk, hd⟩
  · rintro ⟨hp, hk, hd⟩
    exact ⟨⟨h.kind, hp⟩, hk, hd⟩

end Scrubber

/-- Export passes exactly those events of the write path whose addresses and keys do
not read as secrets, and refuses a log for any other. -/
theorem stored_log_exports_iff (x : Exporter) (hs : x.scrubber.Lawful) {writes : List EventWrite}
    {records : List EventRecord} (h : List.Forall₂ x.scrubber.Stored writes records) :
    List.Forall₂ (fun w r => x.scrubber.wouldRedactEvent r = false ↔ x.scrubber.Exportable w) writes records ∧
      (x.refuseSensitive records = .ok () ↔ ∀ w ∈ writes, x.scrubber.Exportable w) := by
  refine ⟨h.imp fun w r hw => hw.kept_iff hs, ?_⟩
  rw [Exporter.refuseSensitive_eq_ok]
  induction h with
  | nil => simp
  | cons hw _ ih => rw [List.forall_mem_cons, List.forall_mem_cons, hw.kept_iff hs, ih]

def gateExporter : Exporter where
  scrubber := gateScrubber ⟨fun _ => 0⟩
  fromUtf8Lossy bytes := (readUtf8 bytes).getD "\uFFFD"

def noteWrite (principal : String) : EventWrite where
  principals := [principal]
  payload := .object [("note", .string "first build")]

def noteEvent (principal : String) : EventRecord where
  seq := 0
  prevHash := genesisPrevHash
  thisHash := ""
  kind := "run.started"
  principalChain := (noteWrite principal).principals.map (structuralSecretScrub ⟨fun _ => 0⟩)
  payload := gateExporter.scrubber.scrubToCanonical (noteWrite principal).payload
  recordedAt := 0

theorem noteEvent_stored (principal : String) :
    gateExporter.scrubber.Stored (noteWrite principal) (noteEvent principal) where
  kind := by
    have hkind : isSecret ⟨fun _ => 0⟩ "run.started".toList = false := by decide +kernel
    exact redactText_eq_self_iff.mpr hkind
  principalChain := rfl
  payload := rfl
  value := ⟨1, .object (by simp) fun f hf => by
    obtain rfl := List.mem_singleton.mp hf
    exact .string _⟩

theorem noteWrite_exported : gateExporter.refuseSensitive [noteEvent "ada"] = .ok () := by
  refine (stored_log_exports_iff gateExporter (gateScrubber_lawful _)
    (.cons (noteEvent_stored "ada") .nil)).2.mpr fun w hw => ?_
  obtain rfl := List.mem_singleton.mp hw
  refine ⟨fun p hp _ => ?_, fun _ key hk => ?_, fun hdeep => absurd ?_ hdeep⟩
  · obtain rfl := List.mem_singleton.mp hp
    decide +kernel
  · have hnote : (noteWrite "ada").payload.keys = ["note"] := by decide +kernel
    rw [hnote] at hk
    obtain rfl := List.mem_singleton.mp hk
    decide +kernel
  · refine .object (by simp) fun f hf => ?_
    obtain rfl := List.mem_singleton.mp hf
    exact .string _

/-- A principal that is a commit id is stored as it is, and its event is refused. -/
theorem commitPrincipal_refused :
    gateExporter.scrubber.Stored (noteWrite "da39a3ee5e6b4b0d3255bfef95601890afd80709")
        (noteEvent "da39a3ee5e6b4b0d3255bfef95601890afd80709") ∧
      (noteEvent "da39a3ee5e6b4b0d3255bfef95601890afd80709").principalChain =
        ["da39a3ee5e6b4b0d3255bfef95601890afd80709"] ∧
      gateExporter.refuseSensitive [noteEvent "da39a3ee5e6b4b0d3255bfef95601890afd80709"] =
        .error (.sensitiveCanonicalEventPayload 0) := by
  have hkept : (noteEvent "da39a3ee5e6b4b0d3255bfef95601890afd80709").principalChain =
      ["da39a3ee5e6b4b0d3255bfef95601890afd80709"] := by decide +kernel
  refine ⟨noteEvent_stored _, hkept, ?_⟩
  have hredacted := redactText_of_bareHexDigest ⟨fun _ => 0⟩
    (show isBareHexDigestShape "da39a3ee5e6b4b0d3255bfef95601890afd80709".toList = true by decide +kernel)
  have hrefused : gateExporter.scrubber.wouldRedactEvent
      (noteEvent "da39a3ee5e6b4b0d3255bfef95601890afd80709") = true := by
    rw [Scrubber.wouldRedactEvent, hkept, List.any_cons, Bool.or_eq_true, Bool.or_eq_true, Bool.or_eq_true]
    refine .inl (.inr (.inl (decide_eq_true ?_)))
    show redactText ⟨fun _ => 0⟩ _ ≠ _
    rw [hredacted]
    decide
  rw [Exporter.refuseSensitive, List.find?_cons, hrefused]
  rfl

end Hugit

import Hugit.JsonRecords
import Hugit.PayloadScrub

/-! What the write path stores of a payload, and what a reader finds under its
keys. -/

namespace Hugit

def Value.strings : Value → Option (List String)
  | .array items => some (items.filterMap Value.asStr)
  | _ => none

namespace Scrubber

variable {s : Scrubber}

def scrubToCanonical (s : Scrubber) (v : Value) : String :=
  let compact := s.crates.print (s.scrubPayload v)
  (canonicalJson s.crates compact).getD compact

def stored (s : Scrubber) (v : Value) : Value :=
  canonicalizeValue (s.scrubPayload v)

variable {v : Value}

theorem fromStr_scrubToCanonical (hc : s.crates.Json) (hv : v.Printable 127) :
    s.crates.fromStr (s.scrubToCanonical v) = some (s.stored v) := by
  have hscrubbed := s.scrubPayload_printable hv
  rw [scrubToCanonical, canonicalJson_print hc hscrubbed]
  exact hc.reads_back _ hscrubbed.canonicalize

def PlainKey (key : String) : Prop :=
  key ≠ "old" ∧ key ≠ "new"

instance (key : String) : Decidable (PlainKey key) :=
  inferInstanceAs (Decidable (key ≠ "old" ∧ key ≠ "new"))

def storedText (s : Scrubber) (key text : String) : String :=
  if isIdentifierKey key then structuralSecretScrub s.measures text
  else if isDigestKey key = true ∧ isDigestValue key text = true then text
  else redactText s.measures text

def storedItem (s : Scrubber) (key text : String) : String :=
  if isIdentifierKey key then structuralSecretScrub s.measures text else redactText s.measures text

variable {key : String}

theorem storedText_freeText (hi : isIdentifierKey key = false) (hd : isDigestKey key = false) (text : String) :
    s.storedText key text = redactText s.measures text := by
  simp [storedText, hi, hd]

theorem storedItem_freeText (hi : isIdentifierKey key = false) (text : String) :
    s.storedItem key text = redactText s.measures text := by
  simp [storedItem, hi]

theorem scrubValue_text (gates : Value → Value) (hk : PlainKey key) (text : String) :
    s.scrubValue gates (s.scrubMode key (.string text)) (.string text) = .string (s.storedText key text) := by
  have hg : ¬ ((key = "old" ∨ key = "new") ∧ (Value.string text).asStr.any s.isGateList = true) := by
    rintro ⟨rfl | rfl, -⟩
    · exact hk.1 rfl
    · exact hk.2 rfl
  rw [scrubValue, scrubMode, if_neg hg, storedText]
  split_ifs <;> simp_all [scrubLeaf]

theorem get_stored {v : Value} (hv : v.Printable 127) (key : String) :
    ∃ gates, (s.stored v).get key =
      (v.get key).map fun w => canonicalizeValue (s.scrubValue gates (s.scrubMode key w) w) := by
  obtain ⟨gates, he⟩ := s.scrubPayload_eq v
  refine ⟨gates, ?_⟩
  rw [stored, get_canonicalizeValue (s.scrubPayload_printable hv), he, get_scrubValue, Option.map_map]
  rfl

theorem get_stored_text (hv : v.Printable 127) {key text : String} (hk : PlainKey key)
    (h : v.get key = some (.string text)) : (s.stored v).get key = some (.string (s.storedText key text)) := by
  obtain ⟨gates, he⟩ := @get_stored s v hv key
  rw [he, h, Option.map_some, scrubValue_text gates hk]
  rfl

theorem get_stored_texts (hv : v.Printable 127) {texts : List String}
    (h : v.get key = some (.array (texts.map .string))) :
    (s.stored v).get key = some (.array ((texts.map (s.storedItem key)).map .string)) := by
  obtain ⟨gates, he⟩ := @get_stored s v hv key
  have hmode : s.scrubMode key (.array (texts.map .string)) =
      if isIdentifierKey key then .structural else .freeText := by
    simp [scrubMode, Value.asStr]
  rw [he, h, Option.map_some, hmode, scrubValue, scrubItems_eq_map, canonicalizeValue, canonicalizeItems_eq_map,
    List.map_map, List.map_map, List.map_map]
  refine congrArg some (congrArg Value.array (List.map_congr_left fun text _ => ?_))
  simp only [Function.comp_apply, scrubValue, storedItem]
  split_ifs <;> rfl

theorem fieldsOf_stored {fields : List (String × Value)} (hv : (Value.object fields).Printable 127)
    {keys : List String} (hk : ∀ f ∈ fields, f.1 ∈ keys) (closed : Bool) :
    (s.stored (.object fields)).fieldsOf keys closed = keys.mapM (s.stored (.object fields)).get := by
  obtain ⟨gates, he⟩ := s.scrubPayload_eq (.object fields)
  have hnd : ((s.scrubFields gates fields).map Prod.fst).Nodup := by
    rw [scrubFields_keys]
    cases hv with
    | object hnd _ => exact hnd
  rw [stored, he, scrubValue, canonicalizeValue, Value.fieldsOf, if_neg]
  · rfl
  · rintro ⟨-, f, hf, hfresh⟩
    have hmem := (canonicalizeFields_keys hnd).mem_iff.mp (List.mem_map_of_mem hf)
    rw [scrubFields_keys] at hmem
    obtain ⟨g, hg, hkey⟩ := List.mem_map.mp hmem
    exact hfresh (hkey ▸ hk g hg)

theorem ofValue_stored {α : Type} {keys : List String} {closed : Bool} {fields : α → List Value}
    {build : List Value → Option α} {a : α} (hp : ((Serde.record keys closed fields build).toValue a).Printable 127)
    {vs : List Value}
    (h : List.Forall₂ (fun key v => (s.stored ((Serde.record keys closed fields build).toValue a)).get key = some v)
      keys vs) :
    (Serde.record keys closed fields build).ofValue (s.stored ((Serde.record keys closed fields build).toValue a)) =
      build vs := by
  have hfields := @fieldsOf_stored s _ hp keys (fun f hf => (List.of_mem_zip hf).1) closed
  exact congrArg (Option.bind · build) (hfields.trans (Value.mapM_of_forall₂ h))

theorem fieldStr_stored (hv : v.Printable 127) (hk : PlainKey key) :
    (s.stored v).fieldStr key = (v.fieldStr key).map (s.storedText key) := by
  obtain ⟨gates, he⟩ := @get_stored s v hv key
  rw [Value.fieldStr, he, Value.fieldStr]
  cases v.get key with
  | none => rfl
  | some w =>
    cases w with
    | string text =>
      rw [Option.map_some, scrubValue_text gates hk, Option.bind_some, asStr_canonicalizeValue]
      rfl
    | null | bool _ | number _ | array _ | object _ => simp [scrubValue, canonicalizeValue, Value.asStr]

theorem fieldStr_stored_address (hv : v.Printable 127) (hk : PlainKey key) (hi : isIdentifierKey key = true) :
    (s.stored v).fieldStr key = (v.fieldStr key).map (structuralSecretScrub s.measures) := by
  rw [fieldStr_stored hv hk]
  exact congrArg (Option.map · (v.fieldStr key)) (funext fun _ => if_pos hi)

theorem fieldStr_stored_freeText (hv : v.Printable 127) (hk : PlainKey key) (hi : isIdentifierKey key = false)
    (hd : isDigestKey key = false) :
    (s.stored v).fieldStr key = (v.fieldStr key).map (redactText s.measures) := by
  rw [fieldStr_stored hv hk]
  exact congrArg (Option.map · (v.fieldStr key)) (funext fun text => storedText_freeText hi hd text)

theorem u64_stored (hv : v.Printable 127) (key : String) :
    ((s.stored v).get key).bind Value.asU64 = (v.get key).bind Value.asU64 := by
  obtain ⟨gates, he⟩ := @get_stored s v hv key
  rw [he]
  cases v.get key with
  | none => rfl
  | some w => cases w <;> simp [scrubValue, canonicalizeValue, Value.asU64]

theorem strings_stored (hv : v.Printable 127) (key : String) :
    ((s.stored v).get key).bind Value.strings =
      ((v.get key).bind Value.strings).map (List.map (s.storedItem key)) := by
  obtain ⟨gates, he⟩ := @get_stored s v hv key
  rw [he]
  cases v.get key with
  | none => rfl
  | some w =>
    cases w with
    | array items =>
      have hmode : s.scrubMode key (.array items) = if isIdentifierKey key then .structural else .freeText := by
        simp [scrubMode, Value.asStr]
      have hitem : ∀ item, (canonicalizeValue (s.scrubValue gates (s.scrubMode key (.array items)) item)).asStr =
          item.asStr.map (s.storedItem key) := by
        intro item
        rw [asStr_canonicalizeValue, hmode]
        cases item with
        | string text =>
          rw [scrubValue, Value.asStr_string, Value.asStr_string, Option.map_some, storedItem]
          split_ifs <;> rfl
        | null | bool _ | number _ | array _ | object _ => simp [scrubValue, Value.asStr]
      rw [Option.map_some, scrubValue, scrubItems_eq_map, canonicalizeValue, canonicalizeItems_eq_map]
      simp only [Option.bind_some, Value.strings, Option.map_some, List.map_map, List.filterMap_map, Option.some_inj]
      rw [List.map_filterMap]
      exact List.filterMap_congr fun item _ => hitem item
    | null | bool _ | number _ | string _ | object _ => simp [scrubValue, canonicalizeValue, Value.strings]

end Scrubber

end Hugit

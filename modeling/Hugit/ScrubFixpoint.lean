import Hugit.ExportRedaction

/-! Scrubbing twice is scrubbing once: what the write path stores is a fixed point
of its own scrub, in whatever order its keys are stored. -/

namespace Hugit

open Serde

structure GateDescriptor where
  id : String
  description : String
  enabled : Bool
  deriving DecidableEq

def GateDescriptor.serde : Serde GateDescriptor :=
  record ["id", "description", "enabled"] false
    (fun g => [str.toValue g.id, str.toValue g.description, bool.toValue g.enabled]) fun
    | [id, description, enabled] =>
      return ⟨← str.ofValue id, ← str.ofValue description, ← bool.ofValue enabled⟩
    | _ => none

def isGateListValue (v : Value) : Bool :=
  (GateDescriptor.serde.vec.ofValue v).isSome

/-- What scrubbing relies on: JSON that is read back within the nesting limit and
refused beyond it, texts shorter than the document they stand in, and gate lists
recognised by their JSON value. -/
structure Scrubber.Lawful (s : Scrubber) : Prop where
  parses : s.crates.Parses
  refuses_deep : ∀ depth v, v.Printable depth → ¬ v.Printable 127 → s.crates.fromStr (s.crates.print v) = none
  shorter : ∀ text v, s.crates.fromStr text = some v → longestText v < text.length
  marker : s.crates.fromStr redactedMarker = none
  gates_parse : ∀ text, s.isGateList text = true →
    ∃ v, s.crates.fromStr text = some v ∧ isGateListValue v = true
  gates_print : ∀ v, v.Printable 127 → isGateListValue v = true → s.isGateList (s.crates.print v) = true

def gateScrubber (m : Measures) : Scrubber :=
  ⟨reference, m, fun text => (readJson text).any isGateListValue⟩

theorem gateScrubber_fromStr (m : Measures) : (gateScrubber m).crates.fromStr = readJson := rfl

theorem gateScrubber_lawful (m : Measures) : (gateScrubber m).Lawful where
  parses := reference_parses
  refuses_deep _ _ := readJson_printJson_of_deep
  shorter _ _ := longestText_lt_of_readJson
  marker := by
    rw [gateScrubber_fromStr, ← Option.isNone_iff_eq_none]
    decide +kernel
  gates_parse text h := by
    obtain ⟨v, hv, hg⟩ := (Option.any_eq_true _ _).mp h
    exact ⟨v, hv, hg⟩
  gates_print v hv hg := by
    show (readJson (printJson v)).any isGateListValue = true
    rw [readJson_printJson hv]
    exact hg

namespace Scrubber

/-- Every text is left alone by the scrub of the mode it is reached in. -/
inductive Clean (s : Scrubber) : ScrubMode → Value → Prop
  | null {mode : ScrubMode} : Clean s mode .null
  | bool {mode : ScrubMode} (b : Bool) : Clean s mode (.bool b)
  | number {mode : ScrubMode} (n : Number) : Clean s mode (.number n)
  | freeText {text : String} (h : redactText s.measures text = text) : Clean s .freeText (.string text)
  | structural {text : String} (h : structuralSecretScrub s.measures text = text) :
      Clean s .structural (.string text)
  | verbatim (text : String) : Clean s .verbatim (.string text)
  | gates {text : String} {v : Value} (hg : s.isGateList text = true) (hp : s.crates.fromStr text = some v)
      (hprint : s.crates.print v = text) (h : Clean s .freeText v) :
      Clean s .serializedPolicyGates (.string text)
  | array {mode : ScrubMode} {items : List Value} (h : ∀ v ∈ items, Clean s mode v) :
      Clean s mode (.array items)
  | object {mode : ScrubMode} {fields : List (String × Value)}
      (h : ∀ f ∈ fields, Clean s (s.scrubMode f.1 f.2) f.2) : Clean s mode (.object fields)

variable {s : Scrubber}

variable {mode : ScrubMode} {v : Value} {gates : Value → Value}

theorem Clean.scrubValue (h : s.Clean mode v) (hgates : ∀ w, s.Clean .freeText w → gates w = w) :
    s.scrubValue gates mode v = v := by
  induction h with
  | null | bool _ | number _ => simp [Scrubber.scrubValue]
  | freeText h => rw [Scrubber.scrubValue, scrubLeaf, h]
  | structural h => rw [Scrubber.scrubValue, scrubLeaf, h]
  | verbatim text => rw [Scrubber.scrubValue, scrubLeaf]
  | gates hg hp hprint h _ =>
    rw [Scrubber.scrubValue, scrubLeaf, if_pos hg, hp]
    dsimp only
    rw [hgates _ h, hprint]
  | array h ih =>
    rw [Scrubber.scrubValue, scrubItems_eq_map]
    exact congrArg Value.array ((List.map_congr_left fun v hv => ih v hv).trans (List.map_id _))
  | object h ih =>
    rw [Scrubber.scrubValue, scrubFields_eq_map]
    refine congrArg Value.object ((List.map_congr_left fun f hf => ?_).trans (List.map_id _))
    rw [scrubMember, ih f hf]
    rfl

theorem Clean.scrubNested (h : s.Clean .freeText v) (depth : Nat) : s.scrubNested depth v = v := by
  induction depth generalizing v with
  | zero => exact h.scrubValue fun _ _ => rfl
  | succ depth ih => exact h.scrubValue fun _ hw => ih hw

theorem lookup_scrubFields (gates : Value → Value) (fields : List (String × Value)) (key : String) :
    (s.scrubFields gates fields).lookup key =
      (fields.lookup key).map fun w => s.scrubValue gates (s.scrubMode key w) w :=
  s.get_scrubValue gates .freeText (.object fields) key

theorem fieldsOf_scrubValue {gates : Value → Value} {mode : ScrubMode} {keys : List String} {v : Value}
    {values : List Value} (h : v.fieldsOf keys false = some values) :
    ∃ scrubbed, (s.scrubValue gates mode v).fieldsOf keys false = some scrubbed ∧
      List.Forall₂ (fun w w' => ∃ mode, w' = s.scrubValue gates mode w) values scrubbed := by
  cases v with
  | null | bool _ | number _ | string _ => cases h
  | array items =>
    rw [Value.fieldsOf] at h
    split_ifs at h with hl
    obtain rfl := Option.some.inj h
    refine ⟨items.map (s.scrubValue gates mode), ?_, ?_⟩
    · rw [scrubValue, scrubItems_eq_map, Value.fieldsOf, List.length_map, if_pos hl]
    · exact List.forall₂_map_right_iff.mpr (List.forall₂_same.mpr fun w _ => ⟨mode, rfl⟩)
  | object fields =>
    rw [Value.fieldsOf, if_neg (by simp)] at h
    rw [scrubValue, Value.fieldsOf, if_neg (by simp)]
    induction keys generalizing values with
    | nil =>
      cases h
      exact ⟨[], rfl, .nil⟩
    | cons key keys ih =>
      rw [List.mapM_cons] at h
      obtain ⟨w, hw, h⟩ := Option.bind_eq_some_iff.mp h
      obtain ⟨rest, hrest, h⟩ := Option.bind_eq_some_iff.mp h
      obtain rfl := Option.some.inj h
      obtain ⟨scrubbed, hs, hall⟩ := ih hrest
      refine ⟨s.scrubValue gates (s.scrubMode key w) w :: scrubbed, ?_, .cons ⟨_, rfl⟩ hall⟩
      rw [List.mapM_cons, lookup_scrubFields, hw, hs]
      rfl

theorem isSome_mapM {α β : Type} {f : α → Option β} {as : List α} :
    (as.mapM f).isSome = true ↔ ∀ a ∈ as, (f a).isSome = true := by
  induction as with
  | nil => simp
  | cons a as ih =>
    rw [List.mapM_cons, List.forall_mem_cons, ← ih]
    cases f a with
    | none => simp
    | some b => cases as.mapM f <;> simp

theorem gate_isSome : (GateDescriptor.serde.ofValue v).isSome = true ↔
    ∃ id description enabled, v.fieldsOf ["id", "description", "enabled"] false =
      some [.string id, .string description, .bool enabled] := by
  constructor
  · intro h
    obtain ⟨g, hg⟩ := Option.isSome_iff_exists.mp h
    obtain ⟨values, hv, hbuild⟩ := Option.bind_eq_some_iff.mp hg
    rw [hv]
    split at hbuild
    · obtain ⟨id, hid, hbuild⟩ := Option.bind_eq_some_iff.mp hbuild
      obtain ⟨description, hdescription, hbuild⟩ := Option.bind_eq_some_iff.mp hbuild
      obtain ⟨enabled, henabled, -⟩ := Option.bind_eq_some_iff.mp hbuild
      obtain rfl := Value.asStr_eq_some hid
      obtain rfl := Value.asStr_eq_some hdescription
      obtain rfl := Value.asBool_eq_some henabled
      exact ⟨id, description, enabled, rfl⟩
    · cases hbuild
  · rintro ⟨id, description, enabled, hf⟩
    show ((v.fieldsOf ["id", "description", "enabled"] false).bind _).isSome = true
    rw [hf]
    rfl

theorem isGateListValue_scrubValue (h : isGateListValue v = true) :
    isGateListValue (s.scrubValue gates mode v) = true := by
  cases v with
  | null | bool _ | number _ | string _ | object _ => cases h
  | array items =>
    have hgates : ∀ g ∈ items, (GateDescriptor.serde.ofValue g).isSome = true := isSome_mapM.mp h
    rw [scrubValue, scrubItems_eq_map]
    refine isSome_mapM.mpr fun g' hg' => ?_
    obtain ⟨g, hg, rfl⟩ := List.mem_map.mp hg'
    obtain ⟨id, description, enabled, hf⟩ := gate_isSome.mp (hgates g hg)
    obtain ⟨scrubbed, hs, hall⟩ := @fieldsOf_scrubValue s gates mode _ _ _ hf
    obtain _ | ⟨⟨_, rfl⟩, _ | ⟨⟨_, rfl⟩, _ | ⟨⟨_, rfl⟩, _ | _⟩⟩⟩ := hall
    simp only [scrubValue] at hs
    exact gate_isSome.mpr ⟨_, _, enabled, hs⟩

theorem Clean.scrubPayload (h : s.Clean .freeText v) : s.scrubPayload v = v :=
  h.scrubNested _

theorem isDigestValue_marker (key : String) : isDigestValue key redactedMarker = false := by
  have hwords : splitWhitespace redactedMarker.toList = [redactedMarker.toList] := by decide +kernel
  have hshape : isDigestShaped redactedMarker.toList = false := by decide +kernel
  rw [isDigestValue, hwords]
  split_ifs
  · simp [hshape]
  · exact hshape

theorem Lawful.isGateList_marker (hs : s.Lawful) : s.isGateList redactedMarker = false := by
  rw [Bool.eq_false_iff]
  intro h
  obtain ⟨v, hv, -⟩ := hs.gates_parse _ h
  rw [hs.marker] at hv
  cases hv

theorem scrubMode_text {key text : String} (hg : ¬ ((key = "old" ∨ key = "new") ∧ s.isGateList text = true)) :
    s.scrubMode key (.string text) = if isIdentifierKey key then .structural
      else if isDigestKey key = true ∧ isDigestValue key text = true then .verbatim else .freeText := by
  have hg' : ¬ ((key = "old" ∨ key = "new") ∧ (Value.string text).asStr.any s.isGateList = true) := hg
  rw [scrubMode, if_neg hg', ite_and]

theorem clean_scrubbedText (hs : s.Lawful) (key text : String)
    (hgates : ∀ v, s.crates.fromStr text = some v → isGateListValue v = true →
      s.Clean .freeText (gates v) ∧ isGateListValue (gates v) = true ∧ (gates v).Printable 127) :
    s.Clean (s.scrubMode key (.string (s.scrubLeaf gates text (s.scrubMode key (.string text)))))
      (.string (s.scrubLeaf gates text (s.scrubMode key (.string text)))) := by
  by_cases hg : (key = "old" ∨ key = "new") ∧ s.isGateList text = true
  · have hmode : s.scrubMode key (.string text) = .serializedPolicyGates := if_pos hg
    obtain ⟨v, hv, hlist⟩ := hs.gates_parse text hg.2
    obtain ⟨hclean, hlist', hprintable⟩ := hgates v hv hlist
    have hleaf : s.scrubLeaf gates text .serializedPolicyGates = s.crates.print (gates v) := by
      rw [scrubLeaf, if_pos hg.2, hv]
    have hlisted := hs.gates_print _ hprintable hlist'
    have hmode' : s.scrubMode key (.string (s.crates.print (gates v))) = .serializedPolicyGates :=
      if_pos ⟨hg.1, hlisted⟩
    rw [hmode, hleaf, hmode']
    exact .gates hlisted (hs.parses.reads_back _ hprintable) rfl hclean
  · have hmarker : ¬ ((key = "old" ∨ key = "new") ∧ s.isGateList redactedMarker = true) := by
      rw [hs.isGateList_marker]
      simp
    by_cases hid : isIdentifierKey key = true
    · have hmode : s.scrubMode key (.string text) = .structural := by rw [scrubMode_text hg, if_pos hid]
      rw [hmode, scrubLeaf]
      rcases structuralSecretScrub_cases s.measures text with h | h
      · rw [h, hmode]
        exact .structural h
      · rw [h, scrubMode_text hmarker, if_pos hid]
        exact .structural (structuralSecretScrub_marker _)
    · by_cases hdigest : isDigestKey key = true ∧ isDigestValue key text = true
      · have hmode : s.scrubMode key (.string text) = .verbatim := by
          rw [scrubMode_text hg, if_neg hid, if_pos hdigest]
        rw [hmode, scrubLeaf, hmode]
        exact .verbatim text
      · have hmode : s.scrubMode key (.string text) = .freeText := by
          rw [scrubMode_text hg, if_neg hid, if_neg hdigest]
        rw [hmode, scrubLeaf]
        rcases redactText_cases s.measures text with h | h
        · rw [h, hmode]
          exact .freeText h
        · rw [h, scrubMode_text hmarker, if_neg hid, isDigestValue_marker, if_neg (by simp)]
          exact .freeText (redactText_marker _)

theorem scrubMode_scrubValue (key : String) (mode : ScrubMode) (hv : v.asStr = none) :
    s.scrubMode key (s.scrubValue gates mode v) = s.scrubMode key v := by
  cases v with
  | string text => cases hv
  | null | bool _ | number _ | array _ | object _ => simp [scrubValue, scrubMode, Value.asStr]

theorem scrubMode_of_not_text (key : String) (hv : v.asStr = none) :
    s.scrubMode key v = .freeText ∨ s.scrubMode key v = .structural := by
  cases v with
  | string text => cases hv
  | null | bool _ | number _ | array _ | object _ =>
    simp only [scrubMode, Value.asStr, Option.any_none, Bool.false_eq_true, and_false, if_false]
    split_ifs <;> simp

theorem longestText_le_item {items : List Value} (h : v ∈ items) : longestText v ≤ longestText (.array items) := by
  rw [longestText]
  induction items with
  | nil => cases h
  | cons w items ih =>
    rw [longestItem]
    rcases List.mem_cons.mp h with rfl | h
    · exact Nat.le_max_left _ _
    · exact le_trans (ih h) (Nat.le_max_right _ _)

theorem longestText_le_field {f : String × Value} {fields : List (String × Value)} (h : f ∈ fields) :
    longestText f.2 ≤ longestText (.object fields) := by
  rw [longestText]
  induction fields with
  | nil => cases h
  | cons g fields ih =>
    obtain ⟨key, w⟩ := g
    rw [longestField]
    rcases List.mem_cons.mp h with rfl | h
    · exact Nat.le_max_left _ _
    · exact le_trans (ih h) (Nat.le_max_right _ _)

theorem clean_scrubValue (hs : s.Lawful) {bound depth : Nat}
    (hgates : ∀ w, longestText w < bound → w.Printable 127 → isGateListValue w = true →
      s.Clean .freeText (gates w) ∧ isGateListValue (gates w) = true ∧ (gates w).Printable 127)
    (hv : v.Printable depth) (hb : longestText v ≤ bound) (hm : mode = .freeText ∨ mode = .structural) :
    s.Clean mode (s.scrubValue gates mode v) := by
  induction hv generalizing mode with
  | null => simpa only [scrubValue] using Clean.null
  | bool b => simpa only [scrubValue] using Clean.bool b
  | number hn => simpa only [scrubValue] using Clean.number _
  | string text =>
    rw [scrubValue]
    rcases hm with rfl | rfl
    · exact .freeText (redactText_redactText _ _)
    · exact .structural (structuralSecretScrub_idem _ _)
  | array h ih =>
    rw [scrubValue, scrubItems_eq_map]
    refine .array fun w hw => ?_
    obtain ⟨v, hv, rfl⟩ := List.mem_map.mp hw
    exact ih v hv (le_trans (longestText_le_item hv) hb) hm
  | object _ h ih =>
    rw [scrubValue, scrubFields_eq_map]
    refine .object fun f hf => ?_
    obtain ⟨⟨key, v⟩, hv, rfl⟩ := List.mem_map.mp hf
    have hbv := le_trans (longestText_le_field hv) hb
    cases htext : v.asStr with
    | none =>
      rw [scrubMember, scrubMode_scrubValue key _ htext]
      exact ih _ hv hbv (scrubMode_of_not_text key htext)
    | some text =>
      obtain rfl := Value.asStr_eq_some htext
      rw [scrubMember, scrubValue]
      refine clean_scrubbedText hs key text fun w hw hlist => hgates w ?_ (hs.parses.parsed_printable _ _ hw) hlist
      rw [longestText] at hbv
      exact lt_of_lt_of_le (hs.shorter _ _ hw) hbv

variable {depth : Nat}

theorem clean_scrubNested (hs : s.Lawful) (hv : v.Printable depth) {fuel : Nat} (hf : longestText v ≤ fuel) :
    s.Clean .freeText (s.scrubNested fuel v) := by
  induction fuel generalizing v depth with
  | zero => exact clean_scrubValue hs (fun w hw => absurd hw (Nat.not_lt_zero _)) hv hf (.inl rfl)
  | succ fuel ih =>
    refine clean_scrubValue hs (fun w hw hprintable hlist => ⟨ih hprintable (Nat.le_of_lt_succ hw), ?_, ?_⟩)
      hv hf (.inl rfl)
    · cases fuel <;> exact isGateListValue_scrubValue hlist
    · cases fuel <;> exact s.scrubValue_printable _ hprintable _

theorem clean_scrubPayload (hs : s.Lawful) (hv : v.Printable depth) : s.Clean .freeText (s.scrubPayload v) :=
  clean_scrubNested hs hv le_rfl

theorem scrubMode_canonicalizeValue (key : String) (v : Value) :
    s.scrubMode key (canonicalizeValue v) = s.scrubMode key v := by
  cases v with
  | string text => simp only [canonicalizeValue]
  | null | bool _ | number _ | array _ | object _ => simp [canonicalizeValue, scrubMode, Value.asStr]

theorem Clean.canonicalize (hv : v.Printable depth) (h : s.Clean mode v) : s.Clean mode (canonicalizeValue v) := by
  induction hv generalizing mode with
  | null | bool _ | number _ | string _ => simpa only [canonicalizeValue] using h
  | array _ ih =>
    obtain _ | _ | _ | _ | _ | _ | _ | h | _ := h
    rw [canonicalizeValue, canonicalizeItems_eq_map]
    refine .array fun w hw => ?_
    obtain ⟨v, hv, rfl⟩ := List.mem_map.mp hw
    exact ih v hv (h v hv)
  | object hnd _ ih =>
    obtain _ | _ | _ | _ | _ | _ | _ | _ | h := h
    rw [canonicalizeValue]
    refine .object fun f hf => ?_
    obtain ⟨g, hg, rfl⟩ := List.mem_map.mp ((canonicalizeFields_nil_perm hnd).mem_iff.mp hf)
    rw [canonicalMember, scrubMode_canonicalizeValue]
    exact ih g hg (h g hg)

end Scrubber

end Hugit

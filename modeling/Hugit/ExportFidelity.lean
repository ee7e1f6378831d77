import Hugit.ExportRestore

/-! What export may change. Every charter, journal body and git object is written
as it is or replaced with its removal in the manifest. Git objects are read as text
on the way, so this holds exactly when all of them are text. -/

namespace Hugit

structure ExportedField where
  location : String
  original : Bytes
  exported : Bytes
  deriving DecidableEq

def ExportedField.removal (c : Crates) (f : ExportedField) : List Removal :=
  if f.exported = f.original then [] else [removalOf c f.location f.original]

namespace ExportArtifact

def charterFields (art : ExportArtifact) (intents : List Intent) : List ExportedField :=
  List.zipWith (fun i s => ⟨"intents/" ++ i.intentId ++ ".charter", utf8 i.charter, utf8 s.charter⟩) intents
    art.envelope.intents

def journalFields (art : ExportArtifact) (journals : List JournalEntry) : List ExportedField :=
  List.zipWith (fun j e => ⟨"journals/" ++ j.journalId ++ ".body", utf8 j.body, utf8 e.body⟩) journals
    art.envelope.journals

def objectFields (art : ExportArtifact) (objects : List (String × Bytes)) : List ExportedField :=
  List.zipWith (fun o e => ⟨"git/" ++ o.1, o.2, e.2⟩) objects art.gitObjects

def fields (art : ExportArtifact) (intentLog : IntentLog) (corpus : Corpus) : List ExportedField :=
  art.charterFields intentLog.intents ++ art.journalFields corpus.journals ++ art.objectFields corpus.gitObjects

/-- No source is dropped, each is written as it is or replaced by the marker, and
the manifest holds the removals of those replaced, in order, and no others. -/
structure AltersNothingSilently (c : Crates) (art : ExportArtifact) (intentLog : IntentLog) (corpus : Corpus) :
    Prop where
  intents : art.envelope.intents.map (·.intentId) = intentLog.intents.map (·.intentId)
  journals : art.envelope.journals.map (·.journalId) = corpus.journals.map (·.journalId)
  gitObjects : art.gitObjects.map Prod.fst = corpus.gitObjects.map Prod.fst
  kept_or_marked : ∀ f ∈ art.fields intentLog corpus, f.exported = f.original ∨ f.exported = utf8 redactedMarker
  removals : art.manifest.removals = (art.fields intentLog corpus).flatMap (ExportedField.removal c)

end ExportArtifact

/-- Lossy decoding keeps a text and marks bytes that are none. -/
structure Exporter.Lossy (x : Exporter) : Prop where
  text : ∀ text, x.fromUtf8Lossy (utf8 text) = text
  marked : ∀ bytes, readUtf8 bytes = none → '�' ∈ (x.fromUtf8Lossy bytes).toList

structure FieldSource where
  location : String
  original : Bytes
  text : String

namespace FieldSource

def exported (m : Measures) (f : FieldSource) : ExportedField :=
  ⟨f.location, f.original, utf8 (redactText m f.text)⟩

structure IsBinary (c : Crates) (f : FieldSource) : Prop where
  invalid : readUtf8 f.original = none
  marked : '�' ∈ f.text.toList
  apart : Set.InjOn c.digest {f.original, utf8 f.text}

variable {s : Scrubber} {f : FieldSource}

theorem exported_eq_or (m : Measures) (f : FieldSource) :
    (f.exported m).exported = utf8 f.text ∨ (f.exported m).exported = utf8 redactedMarker := by
  rcases redactText_cases m f.text with h | h
  · exact .inl (congrArg utf8 h)
  · exact .inr (congrArg utf8 h)

theorem removal_of_text (h : f.original = utf8 f.text) :
    (f.exported s.measures).removal s.crates = s.fieldRemovals f.location f.text := by
  have hiff : utf8 (redactText s.measures f.text) = utf8 f.text ↔ redactText s.measures f.text = f.text :=
    ⟨fun he => utf8_injective he, congrArg utf8⟩
  rw [exported, ExportedField.removal, Scrubber.fieldRemovals, h]
  simp only [hiff]

theorem IsBinary.altered (h : f.IsBinary s.crates) :
    (f.exported s.measures).exported ≠ (f.exported s.measures).original := by
  intro he
  have hinvalid : readUtf8 (f.exported s.measures).original = none := h.invalid
  rw [← he, exported, readUtf8_utf8] at hinvalid
  cases hinvalid

theorem IsBinary.removal_ne (h : f.IsBinary s.crates)
    (hm : (f.exported s.measures).exported = utf8 redactedMarker) :
    (s.fieldRemovals f.location f.text).length = ((f.exported s.measures).removal s.crates).length ∧
      s.fieldRemovals f.location f.text ≠ (f.exported s.measures).removal s.crates := by
  have hchanged : redactText s.measures f.text ≠ f.text := by
    intro he
    have htext : f.text = redactedMarker := he ▸ utf8_injective hm
    have hmark := h.marked
    rw [htext] at hmark
    exact absurd hmark (by decide)
  rw [Scrubber.fieldRemovals, if_neg hchanged, ExportedField.removal, if_neg h.altered]
  refine ⟨rfl, fun he => ?_⟩
  have hdigest : hexEncode (s.crates.digest (utf8 f.text)) = hexEncode (s.crates.digest f.original) :=
    congrArg Removal.removedDigest (List.cons.inj he).1
  have hsame := h.apart (by simp) (by simp) (hexEncode_injective hdigest)
  have hinvalid := h.invalid
  rw [← hsame, readUtf8_utf8] at hinvalid
  cases hinvalid

theorem accounted_iff {sources : List FieldSource}
    (hs : ∀ f ∈ sources, f.original = utf8 f.text ∨ f.IsBinary s.crates) :
    ((∀ f ∈ sources.map (exported s.measures), f.exported = f.original ∨ f.exported = utf8 redactedMarker) ∧
      sources.flatMap (fun f => s.fieldRemovals f.location f.text) =
        (sources.map (exported s.measures)).flatMap (ExportedField.removal s.crates)) ↔
    ∀ f ∈ sources, f.original = utf8 f.text := by
  induction sources with
  | nil => simp
  | cons f sources ih =>
    obtain ⟨hf, hs⟩ := List.forall_mem_cons.mp hs
    have ih := ih hs
    rw [List.map_cons, List.forall_mem_cons, List.flatMap_cons, List.flatMap_cons, List.forall_mem_cons]
    rcases hf with hf | hf
    · rw [removal_of_text hf, List.append_cancel_left_eq, ← ih]
      have hkept : (f.exported s.measures).exported = (f.exported s.measures).original ∨
          (f.exported s.measures).exported = utf8 redactedMarker := by
        have hh := exported_eq_or s.measures f
        rwa [← hf] at hh
      exact ⟨fun h => ⟨hf, h.1.2, h.2⟩, fun h => ⟨⟨hkept, h.2.1⟩, h.2.2⟩⟩
    · constructor
      · rintro ⟨⟨hkept, _⟩, hremovals⟩
        have hm := hkept.resolve_left hf.altered
        obtain ⟨hlen, hne⟩ := hf.removal_ne hm
        exact absurd (List.append_inj hremovals hlen).1 hne
      · rintro ⟨htext, -⟩
        have hinvalid := hf.invalid
        rw [htext, readUtf8_utf8] at hinvalid
        cases hinvalid

end FieldSource

namespace Exporter

variable {x : Exporter} {corpus : Corpus} {art : ExportArtifact} {state : RefState} {intentLog : IntentLog}

def sources (x : Exporter) (intentLog : IntentLog) (corpus : Corpus) : List FieldSource :=
  intentLog.intents.map (fun i => ⟨"intents/" ++ i.intentId ++ ".charter", utf8 i.charter, i.charter⟩) ++
    corpus.journals.map (fun j => ⟨"journals/" ++ j.journalId ++ ".body", utf8 j.body, j.body⟩) ++
    corpus.gitObjects.map fun o => ⟨"git/" ++ o.1, o.2, x.fromUtf8Lossy o.2⟩

theorem Exports.fields_eq (h : Exports x corpus art state intentLog) :
    art.fields intentLog corpus = (x.sources intentLog corpus).map (FieldSource.exported x.scrubber.measures) := by
  have hi : art.envelope.intents = intentLog.intents.map x.exportedIntent := by rw [h.envelope]; rfl
  have hj : art.envelope.journals = corpus.journals.map x.exportedJournal := by rw [h.envelope]; rfl
  rw [ExportArtifact.fields, ExportArtifact.charterFields, ExportArtifact.journalFields,
    ExportArtifact.objectFields, hi, hj, h.gitObjects]
  simp only [sources, List.map_append, List.map_map, List.zipWith_map_right, List.zipWith_self]
  rfl

theorem Exports.removals_eq (h : Exports x corpus art state intentLog) : art.manifest.removals =
    (x.sources intentLog corpus).flatMap fun f => x.scrubber.fieldRemovals f.location f.text := by
  rw [h.removals, laneRemovals, sources]
  simp only [List.flatMap_append, List.flatMap_map]

theorem sources_text_iff (hx : x.Lossy) : (∀ f ∈ x.sources intentLog corpus, f.original = utf8 f.text) ↔
    ∀ o ∈ corpus.gitObjects, (readUtf8 o.2).isSome = true := by
  have hobject (o : String × Bytes) : o.2 = utf8 (x.fromUtf8Lossy o.2) ↔ (readUtf8 o.2).isSome = true := by
    constructor
    · intro he
      rw [he, readUtf8_utf8]
      rfl
    · intro hsome
      obtain ⟨text, htext⟩ := Option.isSome_iff_exists.mp hsome
      rw [← utf8_of_readUtf8 htext, hx.text]
  simp only [sources, List.mem_append, List.mem_map, or_imp, forall_and, forall_exists_index, and_imp,
    forall_apply_eq_imp_iff₂, implies_true, true_and, hobject]

theorem sources_text_or_binary (hx : x.Lossy)
    (hinj : ∀ o ∈ corpus.gitObjects, Set.InjOn x.scrubber.crates.digest {o.2, utf8 (x.fromUtf8Lossy o.2)}) :
    ∀ f ∈ x.sources intentLog corpus, f.original = utf8 f.text ∨ f.IsBinary x.scrubber.crates := by
  intro f hf
  rcases List.mem_append.mp hf with hf | hf
  · rcases List.mem_append.mp hf with hf | hf
    · obtain ⟨i, -, rfl⟩ := List.mem_map.mp hf
      exact .inl rfl
    · obtain ⟨j, -, rfl⟩ := List.mem_map.mp hf
      exact .inl rfl
  · obtain ⟨o, ho, rfl⟩ := List.mem_map.mp hf
    cases hread : readUtf8 o.2 with
    | none => exact .inr ⟨hread, hx.marked o.2 hread, hinj o ho⟩
    | some text =>
      refine .inl ?_
      show o.2 = utf8 (x.fromUtf8Lossy o.2)
      rw [← utf8_of_readUtf8 hread, hx.text]

end Exporter

/-- An export alters nothing silently exactly when all git objects are texts. -/
theorem export_alters_nothing_iff {x : Exporter} (hx : x.Lossy) {host : ExportHost} {corpus : Corpus}
    {account : AccountState} {art : ExportArtifact} (h : x.exportCorpus host corpus account = .ok art)
    {intentLog : IntentLog}
    (hi : intentsFromRecords x.scrubber.crates corpus.eventLog.records = .ok intentLog)
    (hinj : ∀ o ∈ corpus.gitObjects, Set.InjOn x.scrubber.crates.digest {o.2, utf8 (x.fromUtf8Lossy o.2)}) :
    art.AltersNothingSilently x.scrubber.crates intentLog corpus ↔
      ∀ o ∈ corpus.gitObjects, (readUtf8 o.2).isSome = true := by
  obtain ⟨state, log, hex⟩ := Exporter.exportCorpus_eq_ok h
  obtain rfl : log = intentLog := Except.ok.inj (hex.parses.symm.trans hi)
  have hkind : ∀ f ∈ x.sources log corpus, f.original = utf8 f.text ∨ f.IsBinary x.scrubber.crates :=
    Exporter.sources_text_or_binary hx hinj
  have htext : (∀ f ∈ x.sources log corpus, f.original = utf8 f.text) ↔ _ := Exporter.sources_text_iff hx
  rw [← htext, ← FieldSource.accounted_iff hkind, ← hex.fields_eq, ← hex.removals_eq]
  constructor
  · intro ha
    exact ⟨ha.kept_or_marked, ha.removals⟩
  · rintro ⟨hkept, hremovals⟩
    refine ⟨?_, ?_, ?_, hkept, hremovals⟩
    · rw [hex.envelope]
      exact List.map_map
    · rw [hex.envelope]
      exact List.map_map
    · rw [hex.gitObjects]
      exact List.map_map

theorem plainExporter_lossy : plainExporter.Lossy where
  text text := by
    show (readUtf8 (utf8 text)).getD _ = text
    rw [readUtf8_utf8, Option.getD_some]
  marked bytes h := by
    show '�' ∈ ((readUtf8 bytes).getD "\uFFFD").toList
    rw [h]
    decide

theorem landedCorpus_intents (gitObjects : List (String × Bytes)) :
    intentsFromRecords reference (landedCorpus gitObjects).eventLog.records =
      .ok ⟨[landedIntent "i-1" "fix the build"]⟩ := by
  show (parseIntents reference (landedLog reference "i-1" "fix the build").records).map IntentLog.mk = _
  rw [landedLog_parseIntents reference_sound]
  rfl

theorem textBlob_kept : ∃ art,
    plainExporter.exportCorpus quietHost (landedCorpus [("blob", utf8 "text")]) .active = .ok art ∧
      art.AltersNothingSilently reference ⟨[landedIntent "i-1" "fix the build"]⟩
        (landedCorpus [("blob", utf8 "text")]) := by
  have hobjects : (landedCorpus [("blob", utf8 "text")]).gitObjects = [("blob", utf8 "text")] := rfl
  obtain ⟨art, h⟩ := @landedCorpus_exports [("blob", utf8 "text")] (by decide)
  refine ⟨art, h, (export_alters_nothing_iff plainExporter_lossy h (landedCorpus_intents _) ?_).mpr ?_⟩
  · intro o ho
    rw [hobjects] at ho
    obtain rfl := List.mem_singleton.mp ho
    rw [plainExporter_lossy.text, Set.pair_eq_singleton]
    exact Set.injOn_singleton _ _
  · intro o ho
    rw [hobjects] at ho
    obtain rfl := List.mem_singleton.mp ho
    rw [readUtf8_utf8]
    rfl

/-- One byte that is no text leaves the export as a replacement character, with no
removal in the manifest. -/
theorem binaryBlob_altered : ∃ art,
    plainExporter.exportCorpus quietHost (landedCorpus [("blob", [137])]) .active = .ok art ∧
      art.gitObjects = [("blob", utf8 "\uFFFD")] ∧ utf8 "\uFFFD" ≠ [137] ∧ utf8 "\uFFFD" ≠ utf8 redactedMarker ∧
      art.manifest.removals = [] := by
  obtain ⟨art, h⟩ := @landedCorpus_exports [("blob", [137])] (by decide)
  obtain ⟨state, log, hex⟩ := Exporter.exportCorpus_eq_ok h
  obtain rfl : log = ⟨[landedIntent "i-1" "fix the build"]⟩ :=
    Except.ok.inj (hex.parses.symm.trans (landedCorpus_intents _))
  refine ⟨art, h, ?_, by decide, by decide, ?_⟩
  · rw [hex.gitObjects]
    decide +kernel
  · rw [hex.removals]
    decide +kernel

end Hugit

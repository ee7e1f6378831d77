import Hugit.Export
import Hugit.Projection

/-! An exported corpus restored: the same records, the ref state they replay to and
every native intent. Names pass through the redactor unchanged because the check
over the whole log has read each of them. -/

namespace Hugit

theorem fromStr_of_refWrite {c : Crates} {r : EventRecord} {w : String × Option String}
    (h : refWrite c r = .ok (some w)) : ∃ v, c.fromStr r.payload = some v ∧ v.fieldStr "ref" = some w.1 := by
  rw [refWrite] at h
  split_ifs at h
  · obtain ⟨v, hv, h⟩ := bind_eq_ok.mp h
    cases hinert : inertCapture v with
    | true => simp [hinert, pure, Except.pure] at h
    | false =>
      rw [hinert, if_neg Bool.false_ne_true] at h
      obtain ⟨name, hname, h⟩ := bind_eq_ok.mp h
      obtain ⟨target, _, h⟩ := bind_eq_ok.mp h
      obtain rfl := Option.some.inj (pure_eq_ok.mp h)
      exact ⟨v, okOr_eq_ok.mp hv, okOr_eq_ok.mp hname⟩
  · obtain ⟨v, hv, h⟩ := bind_eq_ok.mp h
    obtain ⟨name, hname, h⟩ := bind_eq_ok.mp h
    obtain rfl := Option.some.inj (pure_eq_ok.mp h)
    exact ⟨v, okOr_eq_ok.mp hv, okOr_eq_ok.mp hname⟩
  · cases pure_eq_ok.mp h

theorem exists_refWrite {c : Crates} {records : List EventRecord} {state : RefState}
    (h : replayUnchecked c records = .ok state) {name target : String} (hget : state.get name = some target) :
    ∃ r ∈ records, refWrite c r = .ok (some (name, some target)) := by
  have hlast : lastWrite name (writesOf c records) = some (some target) := by
    have hh := (replayUnchecked_eq_ok.mp h).2 name
    rw [hget] at hh
    cases hw : lastWrite name (writesOf c records) with
    | none => rw [hw] at hh; cases hh
    | some o =>
      rw [hw] at hh
      exact congrArg some hh.symm
  obtain ⟨r, hr, hw⟩ := List.mem_filterMap.mp (mem_of_lastWrite hlast)
  refine ⟨r, hr, ?_⟩
  cases he : refWrite c r with
  | error e => simp [he, Except.toOption] at hw
  | ok w =>
    rw [he] at hw
    exact congrArg Except.ok hw

theorem charter_of_parseIntents {c : Crates} {records : List EventRecord} {intents : List Intent}
    (h : parseIntents c records = .ok intents) : ∀ i ∈ intents, ∃ r ∈ records, ∃ v,
      c.fromStr r.payload = some v ∧ v.fieldStr "charter" = some i.charter := by
  induction records generalizing intents with
  | nil =>
    cases h
    simp
  | cons r records ih =>
    rw [parseIntents] at h
    split_ifs at h
    · obtain ⟨intent, hintent, h⟩ := bind_eq_ok.mp h
      obtain ⟨rest, hrest, h⟩ := bind_eq_ok.mp h
      obtain rfl := pure_eq_ok.mp h
      intro i hi
      obtain rfl | hi := List.mem_cons.mp hi
      · obtain ⟨v, hv, h⟩ := bind_eq_ok.mp hintent
        obtain ⟨intentId, _, h⟩ := bind_eq_ok.mp h
        obtain ⟨refName, _, h⟩ := bind_eq_ok.mp h
        obtain ⟨target, _, h⟩ := bind_eq_ok.mp h
        obtain ⟨charter, hcharter, h⟩ := bind_eq_ok.mp h
        obtain rfl := pure_eq_ok.mp h
        exact ⟨r, List.mem_cons_self, v, okOr_eq_ok.mp hv, okOr_eq_ok.mp hcharter⟩
      · obtain ⟨q, hq, hv⟩ := ih hrest i hi
        exact ⟨q, List.mem_cons_of_mem r hq, hv⟩
    · intro i hi
      obtain ⟨q, hq, hv⟩ := ih h i hi
      exact ⟨q, List.mem_cons_of_mem r hq, hv⟩

namespace Exporter

variable {x : Exporter} {corpus : Corpus} {art : ExportArtifact} {state : RefState} {intentLog : IntentLog}

theorem wouldRedact_of_harmless {s : Scrubber} {r : EventRecord} (h : s.wouldRedactEvent r = false) :
    s.wouldRedact r.payload = false := by
  rw [Scrubber.wouldRedactEvent, Bool.or_eq_false_iff] at h
  exact h.2

theorem Exports.refs (hc : x.scrubber.crates.Parses) (h : Exports x corpus art state intentLog) :
    x.exportRefs state = state.refs.toList.map fun b => ⟨b.1, b.2⟩ := by
  refine List.map_congr_left fun b hb => ?_
  have hget : state.get b.1 = some b.2 := Std.ExtTreeMap.mem_toList_iff_getElem?_eq_some.mp hb
  obtain ⟨r, hr, hw⟩ := exists_refWrite (replay_eq_ok.mp h.replays).2 hget
  obtain ⟨v, hv, hf⟩ := fromStr_of_refWrite hw
  have hsafe := wouldRedact_of_harmless (h.harmless r hr)
  rw [Scrubber.redactText_fieldStr hc hv hsafe (fun _ => rfl) hf]

theorem Exports.charter (hc : x.scrubber.crates.Parses) (h : Exports x corpus art state intentLog) {i : Intent}
    (hi : i ∈ intentLog.intents) : redactText x.scrubber.measures i.charter = i.charter := by
  have hparse : parseIntents x.scrubber.crates corpus.eventLog.records = .ok intentLog.intents := by
    have hh := h.parses
    rw [intentsFromRecords] at hh
    cases hp : parseIntents x.scrubber.crates corpus.eventLog.records with
    | error e => rw [hp] at hh; cases hh
    | ok intents =>
      rw [hp] at hh
      cases hh
      rfl
  obtain ⟨r, hr, v, hv, hf⟩ := charter_of_parseIntents hparse i hi
  have hsafe := wouldRedact_of_harmless (h.harmless r hr)
  exact Scrubber.redactText_fieldStr hc hv hsafe (fun _ => rfl) hf

end Exporter

def nativeSidecar (i : Intent) : ExportSidecar where
  intentId := i.intentId
  charter := i.charter
  acceptance := []
  contextRef := "ctx-" ++ i.intentId
  authoritative := false

theorem restoreFromBytes_print {c : Crates} (hc : c.Json) {e : ExportEnvelope} (hu : ∀ r ∈ e.events, r.IsU64)
    (hv : e.validate = .ok ()) (hchain : verifyChain c e.events = .ok ()) (hg : GapFree e.events) :
    restoreFromBytes c (utf8 (c.print (ExportEnvelope.serde.toValue e))) = .ok ⟨⟨e.events⟩, e.refs, e.intents, e⟩ := by
  have hreads := ExportEnvelope.serde_reads 123 hu
  have hparse : parseEnvelope c (utf8 (c.print (ExportEnvelope.serde.toValue e))) = some e := by
    rw [parseEnvelope, readUtf8_utf8, Option.bind_eq_bind, Option.bind_some, hc.reads_back _ hreads.printable]
    exact hreads.reads
  simp [restoreFromBytes, hparse, hv, hchain, EventLog.pushRecords_of_gapFree hg, bind, Except.bind,
    Except.mapError, pure, Except.pure]

/-- An export that succeeds is restored to the records it was made from, the ref
state they replay to and their intents; and the streamed file is the envelope
serialized at once. -/
theorem export_restores {x : Exporter} (hc : x.scrubber.crates.Parses) (hp : x.scrubber.crates.Compact)
    {host : ExportHost} {corpus : Corpus} {account : AccountState} {art : ExportArtifact}
    (h : x.exportCorpus host corpus account = .ok art) :
    art.json = utf8 (x.scrubber.crates.print (ExportEnvelope.serde.toValue art.envelope)) ∧
    ∃ state intentLog restored, replay x.scrubber.crates corpus.eventLog = .ok state ∧
      intentsFromRecords x.scrubber.crates corpus.eventLog.records = .ok intentLog ∧
      restoreFromBytes x.scrubber.crates art.json = .ok restored ∧
      restored.eventLog = corpus.eventLog ∧
      restored.refs = state.refs.toList.map (fun b => ⟨b.1, b.2⟩) ∧
      restored.intents = intentLog.intents.map nativeSidecar := by
  obtain ⟨state, intentLog, hx⟩ := Exporter.exportCorpus_eq_ok h
  have hjson : art.json = utf8 (x.scrubber.crates.print (ExportEnvelope.serde.toValue art.envelope)) := by
    rw [hx.json, streamEnvelopeJson_eq hp]
  have hevents : art.envelope.events = corpus.eventLog.records := by
    rw [hx.envelope]
    rfl
  have hintents : art.envelope.intents = intentLog.intents.map nativeSidecar := by
    rw [hx.envelope]
    refine List.map_congr_left fun i hi => ?_
    rw [Exporter.exportedIntent, hx.charter hc hi, nativeSidecar]
  have hrefs : art.envelope.refs = state.refs.toList.map fun b => ⟨b.1, b.2⟩ := by
    rw [hx.envelope]
    exact hx.refs hc
  have hrestore := restoreFromBytes_print hc.toJson (by rw [hevents]; exact corpus.isU64) hx.valid
    (by rw [hevents]; exact (replay_eq_ok.mp hx.replays).1) (by rw [hevents]; exact corpus.gapFree)
  rw [← hjson] at hrestore
  exact ⟨hjson, state, intentLog, _, hx.replays, hx.parses, hrestore, by rw [hevents], hrefs, hintents⟩

def plainExporter : Exporter where
  scrubber := ⟨reference, ⟨fun _ => 0⟩, fun _ => false⟩
  fromUtf8Lossy bytes := (readUtf8 bytes).getD "\uFFFD"

def landedCorpus (gitObjects : List (String × Bytes)) : Corpus where
  eventLog := landedLog reference "i-1" "fix the build"
  gapFree := fun i r hi => by
    cases i with
    | zero => cases hi; rfl
    | succ i => cases hi
  isU64 := fun r hr => by
    obtain rfl := List.mem_singleton.mp hr
    exact ⟨Nat.two_pow_pos 64, Nat.two_pow_pos 64⟩
  ledger := [⟨"entry-1", "i-1", 100⟩]
  verdicts := []
  journals := [⟨"journal-1", "i-1", "built and landed"⟩]
  policy := []
  provenanceLinks := [⟨"main", 0⟩]
  attestations := []
  gitObjects := gitObjects

theorem landedRecord_harmless :
    plainExporter.scrubber.wouldRedactEvent (landedRecord reference "i-1" "fix the build") = false := by
  decide +kernel

theorem landedCorpus_exports {gitObjects : List (String × Bytes)}
    (h : ∀ o ∈ gitObjects, oidPathSafe o.1 = true) :
    ∃ art, plainExporter.exportCorpus quietHost (landedCorpus gitObjects) .active = .ok art := by
  have hn : NextUnnamed reference EventLog.empty := nextUnnamed_of_redactionFree (by simp [RedactionFree, EventLog.empty])
  have hw : refWrite reference (landedRecord reference "i-1" "fix the build") = .ok (some ("main", some "a")) := by
    have hkind : (landedRecord reference "i-1" "fix the build").kind = intentLandedKind := rfl
    have hparse := landed_parse reference_sound "i-1" "fix the build"
    have hpayload : (landedRecord reference "i-1" "fix the build").payload =
      landedPayload reference "i-1" "fix the build" := rfl
    simp [refWrite, parsePayload, hkind, hpayload, hparse, inertCapture, Value.fieldStr, bind, Except.bind, pure,
      Except.pure]
  have hr := (replay_append (show replay reference .empty = .ok .new from rfl) (by decide) hw).2 hn
  have hi : intentsFromRecords reference (landedLog reference "i-1" "fix the build").records =
      .ok ⟨[landedIntent "i-1" "fix the build"]⟩ := by
    rw [intentsFromRecords, landedLog_parseIntents reference_sound]
    rfl
  refine plainExporter.exportCorpus_succeeds .active hr hi ?_ ?_ h
  · intro r hr
    obtain rfl := List.mem_singleton.mp hr
    exact landedRecord_harmless
  · intro link hlink
    obtain rfl := List.mem_singleton.mp hlink
    exact Nat.one_pos

theorem landedCorpus_restores : ∃ art restored,
    plainExporter.exportCorpus quietHost (landedCorpus [("blob", [137])]) .active = .ok art ∧
      restoreFromBytes reference art.json = .ok restored ∧
      restored.eventLog = landedLog reference "i-1" "fix the build" := by
  obtain ⟨art, h⟩ := @landedCorpus_exports [("blob", [137])] (by decide)
  obtain ⟨-, _, _, restored, -, -, hrestore, hlog, -, -⟩ := export_restores reference_parses reference_compact h
  exact ⟨art, restored, h, hrestore, hlog⟩

end Hugit

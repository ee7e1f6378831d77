import Hugit.ExportSchema

/-! The bounded-memory writer of an export, and the envelope written field by
field and element by element. -/

namespace Hugit

def chunkBytes : Nat := 64 * 1024

structure StreamingDumper where
  sink : Bytes
  buf : Bytes
  totalWritten : Nat
  peakBuffered : Nat
  deriving DecidableEq

namespace StreamingDumper

def new : StreamingDumper := ⟨[], [], 0, 0⟩

def flushFull (d : StreamingDumper) : StreamingDumper :=
  if chunkBytes ≤ d.buf.length then
    flushFull ⟨d.sink ++ d.buf.take chunkBytes, d.buf.drop chunkBytes, d.totalWritten + chunkBytes,
      d.peakBuffered⟩
  else d
termination_by d.buf.length
decreasing_by
  rw [List.length_drop]
  have hpos : 0 < chunkBytes := by decide
  omega

def writeChunk (d : StreamingDumper) (bytes : Bytes) : StreamingDumper :=
  let buf := d.buf ++ bytes
  flushFull ⟨d.sink, buf, d.totalWritten, max d.peakBuffered buf.length⟩

def finish (d : StreamingDumper) : Bytes :=
  if d.buf = [] then d.sink else d.sink ++ d.buf

def written (d : StreamingDumper) : Bytes :=
  d.sink ++ d.buf

theorem written_flushFull (d : StreamingDumper) : d.flushFull.written = d.written := by
  fun_induction flushFull d with
  | case1 d _ ih =>
    rw [ih, written, written, List.append_assoc, List.take_append_drop]
  | case2 d => rfl

@[simp] theorem written_writeChunk (d : StreamingDumper) (bytes : Bytes) :
    (d.writeChunk bytes).written = d.written ++ bytes := by
  rw [writeChunk, written_flushFull, written, written, List.append_assoc]

theorem finish_eq_written (d : StreamingDumper) : d.finish = d.written := by
  rw [finish, written]
  split_ifs with h
  · rw [h, List.append_nil]
  · rfl

end StreamingDumper

structure EnvelopeStream where
  dumper : StreamingDumper
  scratch : Nat

namespace EnvelopeStream

def writeText (text : String) (st : EnvelopeStream) : EnvelopeStream :=
  { st with dumper := st.dumper.writeChunk (utf8 text) }

def writeValue (c : Crates) (value : Value) (st : EnvelopeStream) : EnvelopeStream :=
  let bytes := utf8 (c.print value)
  ⟨st.dumper.writeChunk bytes, max st.scratch bytes.length⟩

def writeJsonField (c : Crates) (key : String) (value : Value) (st : EnvelopeStream) : EnvelopeStream :=
  (st.writeText ("\"" ++ key ++ "\":")).writeValue c value

def streamItem (c : Crates) (st : EnvelopeStream) (item : Value × Nat) : EnvelopeStream :=
  if 0 < item.2 then (st.writeText ",").writeValue c item.1 else st.writeValue c item.1

def streamJsonArrayField {α : Type} (c : Crates) (s : Serde α) (lead : String) (items : List α)
    (st : EnvelopeStream) : EnvelopeStream :=
  let st := (st.writeText lead).writeText "["
  ((items.map s.toValue).zipIdx.foldl (streamItem c) st).writeText "]"

def ofEnvelope (c : Crates) (e : ExportEnvelope) : EnvelopeStream :=
  EnvelopeStream.mk .new 0
    |> writeText "\x7b"
    |> writeJsonField c "schema" (ExportSchema.serde.toValue e.schema)
    |> streamJsonArrayField c RefEntry.serde ",\"refs\":" e.refs
    |> streamJsonArrayField c ExportSidecar.serde ",\"intents\":" e.intents
    |> streamJsonArrayField c EventRecord.serde ",\"events\":" e.events
    |> streamJsonArrayField c LedgerEntry.serde ",\"ledger\":" e.ledger
    |> streamJsonArrayField c VerdictObject.serde ",\"verdicts\":" e.verdicts
    |> streamJsonArrayField c JournalEntry.serde ",\"journals\":" e.journals
    |> streamJsonArrayField c PolicyObject.serde ",\"policy\":" e.policy
    |> streamJsonArrayField c ProvenanceLink.serde ",\"provenance_links\":" e.provenanceLinks
    |> streamJsonArrayField c AttestationChain.serde ",\"attestations\":" e.attestations
    |> writeText "\x7d"

end EnvelopeStream

def streamEnvelopeJson (c : Crates) (e : ExportEnvelope) : Bytes × Nat × Nat :=
  let st := EnvelopeStream.ofEnvelope c e
  (st.dumper.finish, st.dumper.peakBuffered, st.scratch)

def commaTail : List String → String
  | [] => ""
  | text :: texts => "," ++ text ++ commaTail texts

def commaSeparated : List String → String
  | [] => ""
  | text :: texts => text ++ commaTail texts

structure Crates.Compact (c : Crates) : Prop where
  plain : ∀ key : String, (∀ ch ∈ key.toList, ch.isAlpha = true ∨ ch = '_') →
    c.print (.string key) = "\"" ++ key ++ "\""
  array : ∀ items, c.print (.array items) = "[" ++ commaSeparated (items.map c.print) ++ "]"
  object : ∀ fields, c.print (.object fields) =
    "\x7b" ++ commaSeparated (fields.map fun f => c.print (.string f.1) ++ ":" ++ c.print f.2) ++ "\x7d"

namespace EnvelopeStream

def text (st : EnvelopeStream) : Bytes := st.dumper.written

@[simp] theorem text_writeText (t : String) (st : EnvelopeStream) : (st.writeText t).text = st.text ++ utf8 t :=
  st.dumper.written_writeChunk _

@[simp] theorem text_writeValue (c : Crates) (v : Value) (st : EnvelopeStream) :
    (st.writeValue c v).text = st.text ++ utf8 (c.print v) :=
  st.dumper.written_writeChunk _

@[simp] theorem text_writeJsonField (c : Crates) (key : String) (v : Value) (st : EnvelopeStream) :
    (st.writeJsonField c key v).text = st.text ++ utf8 ("\"" ++ key ++ "\":" ++ c.print v) := by
  rw [writeJsonField, text_writeValue, text_writeText, utf8_append _ (c.print v), List.append_assoc]

theorem text_foldl_streamItem (c : Crates) (vs : List Value) {k : Nat} (hk : 0 < k) (st : EnvelopeStream) :
    ((vs.zipIdx k).foldl (streamItem c) st).text = st.text ++ utf8 (commaTail (vs.map c.print)) := by
  induction vs generalizing k st with
  | nil => simp [commaTail, utf8]
  | cons v vs ih =>
    rw [List.zipIdx_cons, List.foldl_cons, ih (Nat.succ_pos k), streamItem, if_pos hk, text_writeValue,
      text_writeText, List.map_cons, commaTail, utf8_append, utf8_append]
    simp only [List.append_assoc]

theorem text_streamJsonArrayField {c : Crates} (hc : c.Compact) {α : Type} (s : Serde α) (lead : String)
    (items : List α) (st : EnvelopeStream) :
    (st.streamJsonArrayField c s lead items).text =
      st.text ++ utf8 (lead ++ c.print (s.vec.toValue items)) := by
  have hitems (vs : List Value) (st : EnvelopeStream) :
      (vs.zipIdx.foldl (streamItem c) st).text = st.text ++ utf8 (commaSeparated (vs.map c.print)) := by
    cases vs with
    | nil => simp [commaSeparated, utf8]
    | cons v vs =>
      rw [List.zipIdx_cons, List.foldl_cons, text_foldl_streamItem c vs (Nat.succ_pos 0), streamItem,
        if_neg (Nat.lt_irrefl 0), text_writeValue, List.map_cons, commaSeparated, utf8_append, List.append_assoc]
  have hprint : c.print (s.vec.toValue items) =
      "[" ++ commaSeparated ((items.map s.toValue).map c.print) ++ "]" := hc.array _
  rw [streamJsonArrayField, text_writeText, hitems, text_writeText, text_writeText, hprint]
  simp only [utf8_append, List.append_assoc]

end EnvelopeStream

theorem Crates.Compact.print_key {c : Crates} (hc : c.Compact) {key : String}
    (hk : (key.toList.all fun ch => ch.isAlpha || ch == '_') = true) :
    c.print (.string key) = "\"" ++ key ++ "\"" :=
  hc.plain key (by simpa using hk)

theorem Crates.Compact.lead {c : Crates} (hc : c.Compact) {key lead : String}
    (hk : (key.toList.all fun ch => ch.isAlpha || ch == '_') = true) (hl : lead = ",\"" ++ key ++ "\":") :
    lead = "," ++ (c.print (.string key) ++ ":") := by
  have hopen : ",\"" = "," ++ "\"" := rfl
  have hclose : "\":" = "\"" ++ ":" := rfl
  rw [hl, hc.print_key hk, hopen, hclose]
  simp only [String.append_assoc]

theorem streamEnvelopeJson_eq {c : Crates} (hc : c.Compact) (e : ExportEnvelope) :
    (streamEnvelopeJson c e).1 = utf8 (c.print (ExportEnvelope.serde.toValue e)) := by
  have hschema : "\"" ++ "schema" ++ "\":" = c.print (.string "schema") ++ ":" := by
    rw [hc.print_key (by decide)]
    rfl
  have hprint : c.print (ExportEnvelope.serde.toValue e) = _ := hc.object _
  rw [streamEnvelopeJson, StreamingDumper.finish_eq_written, hprint]
  show (EnvelopeStream.ofEnvelope c e).text = _
  simp only [EnvelopeStream.ofEnvelope, EnvelopeStream.text_writeText, EnvelopeStream.text_streamJsonArrayField hc,
    EnvelopeStream.text_writeJsonField, hschema]
  rw [hc.lead (by decide) (show ",\"refs\":" = ",\"" ++ "refs" ++ "\":" from rfl),
    hc.lead (by decide) (show ",\"intents\":" = ",\"" ++ "intents" ++ "\":" from rfl),
    hc.lead (by decide) (show ",\"events\":" = ",\"" ++ "events" ++ "\":" from rfl),
    hc.lead (by decide) (show ",\"ledger\":" = ",\"" ++ "ledger" ++ "\":" from rfl),
    hc.lead (by decide) (show ",\"verdicts\":" = ",\"" ++ "verdicts" ++ "\":" from rfl),
    hc.lead (by decide) (show ",\"journals\":" = ",\"" ++ "journals" ++ "\":" from rfl),
    hc.lead (by decide) (show ",\"policy\":" = ",\"" ++ "policy" ++ "\":" from rfl),
    hc.lead (by decide) (show ",\"provenance_links\":" = ",\"" ++ "provenance_links" ++ "\":" from rfl),
    hc.lead (by decide) (show ",\"attestations\":" = ",\"" ++ "attestations" ++ "\":" from rfl)]
  simp only [List.zip_cons_cons, List.zip_nil_right, List.map_cons, List.map_nil, commaSeparated, commaTail,
    utf8_append, List.append_assoc]
  rfl

open JsonText

theorem escapeChar_of_plain {ch : Char} (h : ch.isAlpha = true ∨ ch = '_') : escapeChar ch = [ch] := by
  have hrange : 65 ≤ ch.toNat ∧ ch.toNat ≠ 92 := by
    rcases h with h | rfl
    · delta Char.isAlpha Char.isUpper Char.isLower at h
      simp only [Bool.or_eq_true, decide_eq_true_eq, ge_iff_le, UInt32.le_iff_toNat_le, Char.toNat,
        Bool.and_eq_true] at h ⊢
      simp at h
      show 65 ≤ ch.val.toNat ∧ ch.val.toNat ≠ 92
      change _ ≤ ch.val.toNat ∧ ch.val.toNat ≤ _ ∨ _ ≤ ch.val.toNat ∧ ch.val.toNat ≤ _ at h
      omega
    · decide
  have hne (c : Char) (hc : c.toNat < 65 ∨ c.toNat = 92) : ch ≠ c := by
    rintro rfl
    omega
  simp [escapeChar, hne '"' (by decide), hne '\\' (by decide), hne '\x08' (by decide), hne '\x0c' (by decide),
    hne '\n' (by decide), hne '\r' (by decide), hne '\t' (by decide), Nat.le_trans (by decide : 32 ≤ 65) hrange.1]

theorem printText_of_plain {key : String} (h : ∀ ch ∈ key.toList, ch.isAlpha = true ∨ ch = '_') :
    printText key = '"' :: key.toList ++ ['"'] := by
  have hflat : key.toList.flatMap escapeChar = key.toList := by
    have hmap : key.toList.flatMap escapeChar = key.toList.flatMap fun ch => [ch] :=
      List.flatMap_congr fun ch hch => escapeChar_of_plain (h ch hch)
    rw [hmap, List.flatMap_singleton']
  rw [printText, hflat]

theorem toList_commaTail_items (vs : List Value) :
    (commaTail (vs.map printJson)).toList = printItems vs := by
  induction vs with
  | nil => rfl
  | cons v vs ih =>
    rw [List.map_cons, commaTail, String.toList_append, ih, printItems]
    simp [printJson]

theorem toList_commaTail_members (fs : List (String × Value)) :
    (commaTail (fs.map fun f => printJson (.string f.1) ++ ":" ++ printJson f.2)).toList = printMembers fs := by
  induction fs with
  | nil => rfl
  | cons f fs ih =>
    obtain ⟨key, v⟩ := f
    rw [List.map_cons, commaTail, String.toList_append, ih, printMembers]
    simp [printJson, printMember, printValue]

theorem reference_compact : reference.Compact where
  plain key hk := by
    refine String.toList_inj.mp ?_
    show (printJson (.string key)).toList = _
    rw [printJson, String.toList_ofList, printValue, printText_of_plain hk]
    simp
  array items := by
    refine String.toList_inj.mp ?_
    show (printJson (.array items)).toList = ("[" ++ commaSeparated (items.map printJson) ++ "]").toList
    cases items with
    | nil => rfl
    | cons v vs =>
      rw [printJson, String.toList_ofList, printValue, ← toList_commaTail_items]
      simp [commaSeparated, printJson]
  object fields := by
    refine String.toList_inj.mp ?_
    show (printJson (.object fields)).toList = ("\x7b" ++ commaSeparated (fields.map fun f =>
      printJson (.string f.1) ++ ":" ++ printJson f.2) ++ "\x7d").toList
    cases fields with
    | nil => rfl
    | cons f fs =>
      obtain ⟨key, v⟩ := f
      rw [printJson, String.toList_ofList, printValue, ← toList_commaTail_members]
      simp [commaSeparated, printJson, printMember, printValue]

end Hugit

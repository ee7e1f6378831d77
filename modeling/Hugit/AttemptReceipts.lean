import Hugit.AttemptJournal
import Mathlib.Data.String.Basic

/-! What the journal reads back: every receipt that it writes is within the limit. -/

namespace Hugit.Attempts

open Durable

section Sizes

open JsonText

theorem utf8Len_escapeChar (c : Char) : String.utf8Len (escapeChar c) ≤ 6 * c.utf8Size := by
  have hpos := c.utf8Size_pos
  have hhex : ∀ n < 16, (hexDigit n).utf8Size = 1 := by decide
  unfold escapeChar
  split_ifs with h1 h2 h3 h4 h5 h6 h7 hcontrol
  · exact le_trans (b := 6) (by decide) (by omega)
  · exact le_trans (b := 6) (by decide) (by omega)
  · exact le_trans (b := 6) (by decide) (by omega)
  · exact le_trans (b := 6) (by decide) (by omega)
  · exact le_trans (b := 6) (by decide) (by omega)
  · exact le_trans (b := 6) (by decide) (by omega)
  · exact le_trans (b := 6) (by decide) (by omega)
  · have hhigh := hhex (c.toNat / 16) (by omega)
    have hlow := hhex (c.toNat % 16) (by omega)
    simp only [String.utf8Len_cons, hhigh, hlow, String.utf8Len_nil]
    exact le_trans (b := 6) (by decide) (by omega)
  · rw [String.utf8Len_cons, String.utf8Len_nil]
    omega

theorem utf8Len_printText (s : String) : String.utf8Len (printText s) ≤ 6 * s.utf8ByteSize + 2 := by
  have hflat : ∀ cs : List Char, String.utf8Len (cs.flatMap escapeChar) ≤ 6 * String.utf8Len cs := by
    intro cs
    induction cs with
    | nil => simp
    | cons c cs ih =>
      have hc := utf8Len_escapeChar c
      rw [List.flatMap_cons, String.utf8Len_append, String.utf8Len_cons]
      omega
  have hs : s.utf8ByteSize = String.utf8Len s.toList := by
    rw [← String.utf8ByteSize_ofList, String.ofList_toList]
  have := hflat s.toList
  rw [printText, String.utf8Len_append, String.utf8Len_cons, hs]
  have hquote : '"'.utf8Size = 1 := by decide
  simp only [String.utf8Len_cons, String.utf8Len_nil, hquote]
  omega

theorem utf8Len_of_ascii {cs : List Char} (h : ∀ c ∈ cs, c.toNat < 128) : String.utf8Len cs = cs.length := by
  induction cs with
  | nil => rfl
  | cons c cs ih =>
    have hc : c.utf8Size = 1 := Char.utf8Size_eq_one_iff.mpr (UInt32.le_iff_toNat_le.mpr (by
      have := h c List.mem_cons_self
      exact Nat.le_of_lt_succ this))
    rw [String.utf8Len_cons, hc, ih fun d hd => h d (List.mem_cons_of_mem c hd), List.length_cons]

theorem utf8ByteSize_of_validId {id : String} (h : validId id = true) : id.utf8ByteSize = 38 := by
  cases hstrip : stripPrefix "queue-".toList id.toList with
  | none =>
    rw [validId, hstrip] at h
    cases h
  | some suffix =>
    simp only [validId, hstrip, Option.any_some, Bool.and_eq_true, decide_eq_true_eq, List.all_eq_true,
      Bool.or_eq_true] at h
    obtain ⟨hlength, hhex⟩ := h
    rw [← String.ofList_toList (s := id), stripPrefix_eq_some.mp hstrip, String.utf8ByteSize_ofList,
      String.utf8Len_append]
    have hsuffix : String.utf8Len suffix = suffix.length := by
      refine utf8Len_of_ascii fun c hc => ?_
      have hbounds : ∀ d : Char, c ≤ d → c.toNat ≤ d.toNat := fun d hd => UInt32.le_iff_toNat_le.mp hd
      rcases hhex c hc with ⟨-, hle⟩ | ⟨-, hle⟩
      · exact lt_of_le_of_lt (hbounds _ hle) (by decide)
      · exact lt_of_le_of_lt (hbounds _ hle) (by decide)
    rw [hsuffix, hlength]
    decide

theorem utf8Len_object (fields : List (String × Value)) : String.utf8Len (printValue (.object fields)) ≤
    2 + (fields.map fun f => 6 * f.1.utf8ByteSize + 4 + String.utf8Len (printValue f.2)).sum := by
  have hmember : ∀ f : String × Value,
      String.utf8Len (printMember f) ≤ 6 * f.1.utf8ByteSize + 3 + String.utf8Len (printValue f.2) := by
    intro f
    have hkey := utf8Len_printText f.1
    have hcolon : ':'.utf8Size = 1 := by decide
    rw [printMember, String.utf8Len_append, String.utf8Len_cons, hcolon]
    omega
  have hmembers : ∀ fs : List (String × Value), String.utf8Len (printMembers fs) ≤
      (fs.map fun f => 6 * f.1.utf8ByteSize + 4 + String.utf8Len (printValue f.2)).sum := by
    intro fs
    induction fs with
    | nil => simp [printMembers]
    | cons f fs ih =>
      have hf := hmember f
      have hcomma : ','.utf8Size = 1 := by decide
      rw [printMembers, String.utf8Len_append, String.utf8Len_cons, hcomma, List.map_cons, List.sum_cons]
      omega
  cases fields with
  | nil => decide
  | cons f fs =>
    have hf := hmember f
    have hfs := hmembers fs
    have hopen : '{'.utf8Size = 1 := by decide
    have hclose : '}'.utf8Size = 1 := by decide
    rw [printValue, String.utf8Len_append, String.utf8Len_append, String.utf8Len_cons, String.utf8Len_cons, hopen,
      hclose, String.utf8Len_nil, List.map_cons, List.sum_cons]
    omega

/-- The record is within the limit for receipts. -/
def Fits {α : Type} (serde : Serde α) (record : α) : Prop :=
  (printJson (serde.toValue record)).utf8ByteSize ≤ maxRecordBytes

theorem fits_of_object {α : Type} {serde : Serde α} {record : α} {fields : List (String × Value)}
    (h : serde.toValue record = .object fields)
    (hsum : (fields.map fun f => 6 * f.1.utf8ByteSize + 4 + String.utf8Len (printValue f.2)).sum ≤ 8190) :
    Fits serde record := by
  have hobject := utf8Len_object fields
  rw [Fits, h, printJson, String.utf8ByteSize_ofList, maxRecordBytes]
  omega

theorem utf8Len_string {s : String} {n : Nat} (h : s.utf8ByteSize ≤ n) :
    String.utf8Len (printValue (.string s)) ≤ 6 * n + 2 := by
  have := utf8Len_printText s
  rw [printValue]
  omega

theorem fits_of_texts {α : Type} {serde : Serde α} {record : α} (texts : List (String × String × Nat))
    (h : serde.toValue record = .object (texts.map fun f => (f.1, .string f.2.1)))
    (hbounds : ∀ f ∈ texts, f.2.1.utf8ByteSize ≤ f.2.2)
    (hsum : (texts.map fun f => 6 * f.1.utf8ByteSize + 6 * f.2.2 + 6).sum ≤ 8190) : Fits serde record := by
  refine fits_of_object h (le_trans ?_ hsum)
  rw [List.map_map]
  refine List.sum_le_sum fun f hf => ?_
  have hvalue := utf8Len_string (hbounds f hf)
  simp only [Function.comp_apply]
  omega

theorem current_fits {id : String} (h : validId id = true) : Fits currentSerde ⟨schema, id⟩ := by
  refine fits_of_texts [("schema", schema, 21), ("operation_id", id, 38)] rfl ?_ (by simp only [List.map]; decide)
  simp only [List.forall_mem_cons, utf8ByteSize_of_validId h]
  decide

theorem finished_fits {id : String} (h : validId id = true) (outcome : Outcome) :
    Fits finishedSerde ⟨schema, id, outcome⟩ := by
  refine fits_of_texts [("schema", schema, 21), ("operation_id", id, 38), ("outcome", outcome.asStr, 7)] rfl ?_
    (by simp only [List.map]; decide)
  simp only [List.forall_mem_cons, utf8ByteSize_of_validId h]
  cases outcome <;> decide

theorem invalidated_fits {id : String} (h : validId id = true) : Fits invalidatedSerde (invalidation id) := by
  refine fits_of_texts [("schema", schema, 21), ("operation_id", id, 38),
    ("reason", "interrupted_attempt_never_replayed", 34),
    ("prior_effects", "unknown_preserve_current_corpus", 31)] rfl ?_ (by simp only [List.map]; decide)
  simp only [List.forall_mem_cons, utf8ByteSize_of_validId h]
  decide

structure Started.Regular (s : Started) (id : String) : Prop where
  named : validId id = true
  matching : s.Matches id
  linked : ∀ p ∈ s.previous, validId p.operationId = true ∧ p.disposition.utf8ByteSize ≤ 11

theorem started_fits {s : Started} {id : String} (h : s.Regular id) : Fits startedSerde s := by
  obtain ⟨hid, ⟨hschema, rfl, hscope, hbase, hconfig⟩, hprevious⟩ := h
  have hkeys : "schema".utf8ByteSize = 6 ∧ "operation_id".utf8ByteSize = 12 ∧ "base_id".utf8ByteSize = 7 ∧
      "config_id".utf8ByteSize = 9 ∧ "scope".utf8ByteSize = 5 ∧ "previous".utf8ByteSize = 8 ∧
      "disposition".utf8ByteSize = 11 := by decide
  have hidentity : ∀ value, validIdentity value = true → value.utf8ByteSize ≤ 512 := by
    intro value hv
    simp only [validIdentity, Bool.and_eq_true, decide_eq_true_eq] at hv
    exact hv.1.2
  have h1 := utf8Len_string (show s.schema.utf8ByteSize ≤ 21 by rw [hschema]; decide)
  have h2 := utf8Len_string (utf8ByteSize_of_validId hid).le
  have h3 := utf8Len_string (hidentity _ hbase)
  have h4 := utf8Len_string (hidentity _ hconfig)
  have h5 := utf8Len_string (show s.scope.utf8ByteSize ≤ 15 by rw [hscope]; decide)
  have h6 : String.utf8Len (printValue (previousSerde.option.toValue s.previous)) ≤ 500 := by
    cases hp : s.previous with
    | none => decide
    | some p =>
      obtain ⟨hpid, hdisposition⟩ := hprevious p hp
      have hobject := utf8Len_object [("operation_id", .string p.operationId), ("disposition", .string p.disposition)]
      have hpid := utf8Len_string (utf8ByteSize_of_validId hpid).le
      have hdisposition := utf8Len_string hdisposition
      simp only [List.map_cons, List.map_nil, List.sum_cons, List.sum_nil, hkeys] at hobject
      refine le_trans hobject ?_
      omega
  refine @fits_of_object _ startedSerde s [("schema", .string s.schema), ("operation_id", .string s.operationId),
    ("base_id", .string s.baseId), ("config_id", .string s.configId), ("scope", .string s.scope),
    ("previous", previousSerde.option.toValue s.previous)] rfl ?_
  simp only [List.map_cons, List.map_nil, List.sum_cons, List.sum_nil, hkeys]
  omega

end Sizes

section Reading

theorem currentSerde_reads (record : Current) : currentSerde.Reads 127 record :=
  Serde.record_reads (by decide) rfl rfl (by simp [Value.Printable.string])

theorem finishedSerde_reads (record : Finished) : finishedSerde.Reads 127 record := by
  refine Serde.record_reads (by decide) rfl ?_ (by simp [Value.Printable.string, outcomeSerde])
  obtain ⟨schema, id, outcome⟩ := record
  cases outcome <;> rfl

theorem invalidatedSerde_reads (record : Invalidated) : invalidatedSerde.Reads 127 record :=
  Serde.record_reads (by decide) rfl rfl (by simp [Value.Printable.string])

theorem previousSerde_reads (record : Previous) : previousSerde.Reads 126 record :=
  Serde.record_reads (by decide) rfl rfl (by simp [Value.Printable.string])

theorem startedSerde_reads (record : Started) : startedSerde.Reads 127 record := by
  have hprevious : previousSerde.option.Reads 126 record.previous :=
    Serde.option_reads fun p _ => ⟨previousSerde_reads p, nofun⟩
  have hfields : startedFields.Reads 127 record := by
    refine Serde.record_reads (by decide) rfl ?_ (by simp [Value.Printable.string, hprevious.printable])
    simp [Value.asStr, hprevious.reads]
  exact ⟨hfields.reads, hfields.printable⟩

variable {α : Type} {serde : Serde α} {record : α} {s : Store} {file : JournalFile}

theorem readRecord_none (h : s.files file = none) : (readRecord serde file).run s = ⟨[], .ok none⟩ := by
  rw [readRecord, run_read_bind, h]
  rfl

theorem readRecord_some (h : s.files file = some (printJson (serde.toValue record))) (hfits : Fits serde record)
    (hreads : serde.Reads 127 record) : (readRecord serde file).run s = ⟨[], .ok (some record)⟩ := by
  rw [readRecord, run_read_bind, h]
  dsimp only
  rw [if_neg (not_lt.mpr hfits), readJson_printJson hreads.printable, Option.bind_some, hreads.reads]
  rfl

theorem encode_of_fits (hfits : Fits serde record) : encode serde record = .ok (printJson (serde.toValue record)) :=
  if_neg (not_lt.mpr hfits)

theorem createRecord_new (h : s.files file = none) (hfits : Fits serde record) :
    (createRecord serde file record).run s = ⟨[s.put file (printJson (serde.toValue record))], .ok ()⟩ := by
  rw [createRecord, encode_of_fits hfits, run_ok_bind, run_read_bind, h]
  rfl

theorem createRecord_twice {text : String} (h : s.files file = some text) (hfits : Fits serde record) :
    (createRecord serde file record).run s =
      ⟨[], .error (journalError "cannot create queue receipt: File exists (os error 17)")⟩ := by
  rw [createRecord, encode_of_fits hfits, run_ok_bind, run_read_bind, h]
  rfl

end Reading

section Typed

structure Receipts where
  dir : Bool
  current : Option String
  started : String → Option Started
  finished : String → Option Outcome
  invalidated : String → Bool

namespace Receipts

def file (j : Receipts) : JournalFile → Option String
  | .current => j.current.map fun id => printJson (currentSerde.toValue ⟨schema, id⟩)
  | .receipt id .started => (j.started id).map fun s => printJson (startedSerde.toValue s)
  | .receipt id .finished => (j.finished id).map fun outcome => printJson (finishedSerde.toValue ⟨schema, id, outcome⟩)
  | .receipt id .invalidated =>
    if j.invalidated id then some (printJson (invalidatedSerde.toValue (invalidation id))) else none

def store (j : Receipts) : Store :=
  ⟨j.dir, j.file⟩

def mkdir (j : Receipts) : Receipts :=
  { j with dir := true }

def publish (j : Receipts) (id : String) : Receipts :=
  { j with current := some id }

def start (j : Receipts) (id : String) (s : Started) : Receipts :=
  { j with started := Function.update j.started id (some s) }

def close (j : Receipts) (id : String) (outcome : Outcome) : Receipts :=
  { j with finished := Function.update j.finished id (some outcome) }

def invalidate (j : Receipts) (id : String) : Receipts :=
  { j with invalidated := Function.update j.invalidated id true }

variable {j : Receipts} {id : String}

theorem put_eq_store {j' : Receipts} {file : JournalFile} {text : String} (hdir : j'.dir = j.dir)
    (hfile : j'.file file = some text) (hothers : ∀ other ≠ file, j'.file other = j.file other) :
    j.store.put file text = j'.store := by
  rw [Store.put, store, store, hdir, Store.mk.injEq, and_iff_right rfl]
  funext other
  by_cases h : other = file
  · rw [h, Function.update_self, hfile]
  · rw [Function.update_of_ne h, hothers other h]

theorem put_publish : j.store.put .current (printJson (currentSerde.toValue ⟨schema, id⟩)) = (j.publish id).store := by
  refine put_eq_store rfl rfl fun other h => ?_
  match other with
  | .current => exact absurd rfl h
  | .receipt _ .started | .receipt _ .finished | .receipt _ .invalidated => rfl

theorem put_start {s : Started} :
    j.store.put (.receipt id .started) (printJson (startedSerde.toValue s)) = (j.start id s).store := by
  refine put_eq_store rfl (by simp [file, start]) fun other h => ?_
  match other with
  | .current | .receipt _ .finished | .receipt _ .invalidated => rfl
  | .receipt other .started =>
    have hne : other ≠ id := fun he => h (by rw [he])
    simp [file, start, hne]

theorem put_close {outcome : Outcome} : j.store.put (.receipt id .finished)
    (printJson (finishedSerde.toValue ⟨schema, id, outcome⟩)) = (j.close id outcome).store := by
  refine put_eq_store rfl (by simp [file, close]) fun other h => ?_
  match other with
  | .current | .receipt _ .started | .receipt _ .invalidated => rfl
  | .receipt other .finished =>
    have hne : other ≠ id := fun he => h (by rw [he])
    simp [file, close, hne]

theorem put_invalidate : j.store.put (.receipt id .invalidated)
    (printJson (invalidatedSerde.toValue (invalidation id))) = (j.invalidate id).store := by
  refine put_eq_store rfl (by simp [file, invalidate]) fun other h => ?_
  match other with
  | .current | .receipt _ .started | .receipt _ .finished => rfl
  | .receipt other .invalidated =>
    have hne : other ≠ id := fun he => h (by rw [he])
    simp [file, invalidate, hne]

end Receipts

end Typed

section Calls

variable {j : Receipts} {id : String}

theorem recordPath_of_validId (h : validId id = true) (kind : ReceiptKind) :
    recordPath id kind = .ok (.receipt id kind) :=
  if_pos h

theorem readRecord_finished (h : validId id = true) : (readRecord finishedSerde (.receipt id .finished)).run j.store =
    ⟨[], .ok ((j.finished id).map fun outcome => ⟨schema, id, outcome⟩)⟩ := by
  cases hf : j.finished id with
  | none => exact readRecord_none (by simp [Receipts.store, Receipts.file, hf])
  | some outcome =>
    exact readRecord_some (by simp [Receipts.store, Receipts.file, hf]) (finished_fits h outcome)
      (finishedSerde_reads _)

theorem readRecord_invalidated (h : validId id = true) :
    (readRecord invalidatedSerde (.receipt id .invalidated)).run j.store =
      ⟨[], .ok (if j.invalidated id then some (invalidation id) else none)⟩ := by
  cases hi : j.invalidated id with
  | false => exact readRecord_none (by simp [Receipts.store, Receipts.file, hi])
  | true =>
    exact readRecord_some (by simp [Receipts.store, Receipts.file, hi]) (invalidated_fits h)
      (invalidatedSerde_reads _)

def Receipts.disposition (j : Receipts) (id : String) : Option String :=
  match j.finished id, j.invalidated id with
  | some outcome, false => some outcome.asStr
  | none, true => some "invalidated"
  | _, _ => none

theorem disposition_of_ended (h : validId id = true) {d : String} (hd : j.disposition id = some d) :
    (disposition id).run j.store = ⟨[], .ok d⟩ := by
  rw [disposition, recordPath_of_validId h, run_ok_bind, run_bind_of_quiet (readRecord_finished h),
    recordPath_of_validId h, run_ok_bind, run_bind_of_quiet (readRecord_invalidated h)]
  unfold Receipts.disposition at hd
  cases hf : j.finished id with
  | some outcome =>
    cases hi : j.invalidated id with
    | true => simp [hf, hi] at hd
    | false =>
      simp only [hf, hi, Option.some.injEq] at hd
      simp [run_pure, hd]
  | none =>
    cases hi : j.invalidated id with
    | false => simp [hf, hi] at hd
    | true =>
      simp only [hf, hi, Option.some.injEq] at hd
      simp [encode_of_fits (invalidated_fits h), run_ok_bind, run_pure, hd]

theorem disposition_of_open (h : validId id = true) (hf : j.finished id = none) (hi : j.invalidated id = false) :
    (disposition id).run j.store = ⟨[(j.invalidate id).store], .ok "invalidated"⟩ := by
  have hnew : j.store.files (.receipt id .invalidated) = none := by simp [Receipts.store, Receipts.file, hi]
  rw [disposition, recordPath_of_validId h, run_ok_bind, run_bind_of_quiet (readRecord_finished h),
    recordPath_of_validId h, run_ok_bind, run_bind_of_quiet (readRecord_invalidated h), hf, hi]
  simp only [Option.map_none, Bool.false_eq_true, if_false]
  rw [run_bind_of_wrote (createRecord_new hnew (invalidated_fits h)), Receipts.put_invalidate]
  rfl

variable {context : EvaluationContext}

theorem live_iff : Live context = true ↔ validId context.operationId = true ∧ context.scope = simulationScope ∧
    validIdentity context.baseId = true ∧ validIdentity context.configId = true := by
  simp [Live, and_assoc]

theorem startOf_regular (h : Live context = true) {previous : Option Previous}
    (hp : ∀ p ∈ previous, validId p.operationId = true ∧ p.disposition.utf8ByteSize ≤ 11) :
    (startOf context previous).Regular context.operationId := by
  obtain ⟨hid, hscope, hbase, hconfig⟩ := live_iff.mp h
  exact ⟨hid, ⟨rfl, rfl, hscope, hbase, hconfig⟩, hp⟩

theorem previousAttempt_of_current (h : j.current = some id) {s : Started} (hs : j.started id = some s)
    (hregular : s.Regular id) (hother : id ≠ context.operationId) (created : Bool) :
    (previousAttempt context created).run j.store =
      (disposition id >>= fun d => (return some ⟨id, d⟩ : Journaled (Option Previous))).run j.store := by
  have hcurrent : (readRecord currentSerde .current).run j.store = ⟨[], .ok (some ⟨schema, id⟩)⟩ :=
    readRecord_some (by simp [Receipts.store, Receipts.file, h]) (current_fits hregular.named) (currentSerde_reads _)
  have hstarted : (readRecord startedSerde (.receipt id .started)).run j.store = ⟨[], .ok (some s)⟩ :=
    readRecord_some (by simp [Receipts.store, Receipts.file, hs]) (started_fits hregular) (startedSerde_reads _)
  rw [previousAttempt, run_bind_of_quiet hcurrent]
  simp only [ne_eq, not_true_eq_false, hother, or_self, if_false]
  rw [recordPath_of_validId hregular.named, run_ok_bind, run_bind_of_quiet hstarted]
  simp only [hregular.matching, if_true]

theorem run_start (hlive : Live context = true) (hnew : j.started context.operationId = none)
    {previous : Option Previous}
    (hp : ∀ p ∈ previous, validId p.operationId = true ∧ p.disposition.utf8ByteSize ≤ 11) :
    (do
      createRecord startedSerde (← ofExcept (recordPath context.operationId .started)) (startOf context previous)
      let pointer ← ofExcept (encode currentSerde ⟨schema, context.operationId⟩)
      write (·.put .current pointer)
      return context.operationId : Journaled String).run j.store =
    ⟨[(j.start context.operationId (startOf context previous)).store,
      ((j.start context.operationId (startOf context previous)).publish context.operationId).store],
      .ok context.operationId⟩ := by
  have hid := (live_iff.mp hlive).1
  have hnone : j.store.files (.receipt context.operationId .started) = none := by
    simp [Receipts.store, Receipts.file, hnew]
  rw [recordPath_of_validId hid, run_ok_bind,
    run_bind_of_wrote (createRecord_new hnone (started_fits (startOf_regular hlive hp))), Receipts.put_start,
    encode_of_fits (current_fits hid), run_ok_bind, run_write_bind, Receipts.put_publish]
  rfl

theorem begin_first (hlive : Live context = true) (hdir : j.dir = false) (hcurrent : j.current = none)
    (hnew : j.started context.operationId = none) :
    (begin context).run j.store =
      ⟨[j.mkdir.store, (j.mkdir.start context.operationId (startOf context none)).store,
        ((j.mkdir.start context.operationId (startOf context none)).publish context.operationId).store],
        .ok context.operationId⟩ := by
  have hopen : openDir.run j.store = ⟨[j.mkdir.store], .ok true⟩ := by
    rw [openDir, run_read_bind, show j.store.dir = false from hdir]
    rfl
  have hprevious : (previousAttempt context true).run j.mkdir.store = ⟨[], .ok none⟩ := by
    rw [previousAttempt, run_bind_of_quiet (readRecord_none (by simp [Receipts.store, Receipts.mkdir, Receipts.file,
      hcurrent]))]
    rfl
  rw [begin, hlive]
  simp only [Bool.not_true, Bool.false_eq_true, if_false]
  rw [run_bind_of_wrote hopen, run_bind_of_quiet hprevious, run_start hlive (j := j.mkdir) hnew (by simp)]

theorem openDir_existing (hdir : j.dir = true) : openDir.run j.store = ⟨[], .ok false⟩ := by
  rw [openDir, run_read_bind, show j.store.dir = true from hdir]
  rfl

theorem begin_stuck (hlive : Live context = true) (hdir : j.dir = true) (hcurrent : j.current = none) :
    (begin context).run j.store =
      ⟨[], .error (journalError "existing queue journal is missing its current pointer")⟩ := by
  have hprevious : (previousAttempt context false).run j.store =
      ⟨[], .error (journalError "existing queue journal is missing its current pointer")⟩ := by
    rw [previousAttempt, run_bind_of_quiet (readRecord_none (by simp [Receipts.store, Receipts.file, hcurrent]))]
    rfl
  rw [begin, hlive]
  simp only [Bool.not_true, Bool.false_eq_true, if_false]
  rw [run_bind_of_quiet (openDir_existing hdir), run_bind_of_failed hprevious]

theorem begin_refused (h : Live context = false) (s : Store) :
    (begin context).run s = ⟨[], .error (journalError "invalid live queue attempt context")⟩ := by
  rw [begin, h]
  rfl

theorem disposition_size {d : String} (h : j.disposition id = some d) : d.utf8ByteSize ≤ 11 := by
  unfold Receipts.disposition at h
  split at h
  · next outcome _ _ =>
    obtain rfl := Option.some.inj h
    cases outcome <;> decide
  · obtain rfl := Option.some.inj h
    decide
  · cases h

theorem begin_next (hlive : Live context = true) (hdir : j.dir = true) (h : j.current = some id) {s : Started}
    (hs : j.started id = some s) (hregular : s.Regular id) (hother : id ≠ context.operationId)
    (hnew : j.started context.operationId = none) :
    (∀ d, j.disposition id = some d → (begin context).run j.store =
      ⟨[(j.start context.operationId (startOf context (some ⟨id, d⟩))).store,
        ((j.start context.operationId (startOf context (some ⟨id, d⟩))).publish context.operationId).store],
        .ok context.operationId⟩) ∧
    (j.finished id = none → j.invalidated id = false → (begin context).run j.store =
      ⟨[(j.invalidate id).store,
        ((j.invalidate id).start context.operationId (startOf context (some ⟨id, "invalidated"⟩))).store,
        (((j.invalidate id).start context.operationId (startOf context (some ⟨id, "invalidated"⟩))).publish
          context.operationId).store], .ok context.operationId⟩) := by
  have hopen := openDir_existing hdir
  have hprevious := previousAttempt_of_current h hs hregular hother false
  constructor
  · intro d hd
    rw [run_bind_of_quiet (disposition_of_ended hregular.named hd)] at hprevious
    rw [begin, hlive]
    simp only [Bool.not_true, Bool.false_eq_true, if_false]
    rw [run_bind_of_quiet hopen, run_bind_of_quiet hprevious, run_start hlive hnew]
    rintro _ ⟨⟩
    exact ⟨hregular.named, disposition_size hd⟩
  · intro hf hi
    rw [run_bind_of_wrote (disposition_of_open hregular.named hf hi)] at hprevious
    rw [begin, hlive]
    simp only [Bool.not_true, Bool.false_eq_true, if_false]
    rw [run_bind_of_quiet hopen, run_bind_of_wrote hprevious, run_start hlive (j := j.invalidate id) hnew]
    rintro _ ⟨⟩
    exact ⟨hregular.named, show "invalidated".utf8ByteSize ≤ 11 by decide⟩

theorem finish_open (h : validId id = true) (hf : j.finished id = none) (outcome : Outcome) :
    (finish id outcome).run j.store = ⟨[(j.close id outcome).store], .ok ()⟩ := by
  have hnone : j.store.files (.receipt id .finished) = none := by simp [Receipts.store, Receipts.file, hf]
  rw [finish, recordPath_of_validId h, run_ok_bind, createRecord_new hnone (finished_fits h outcome),
    Receipts.put_close]

theorem finish_twice (h : validId id = true) (hf : j.finished id ≠ none) (outcome : Outcome) :
    (finish id outcome).run j.store =
      ⟨[], .error (journalError "cannot create queue receipt: File exists (os error 17)")⟩ := by
  obtain ⟨earlier, hearlier⟩ := Option.ne_none_iff_exists'.mp hf
  have hsome : j.store.files (.receipt id .finished) =
      some (printJson (finishedSerde.toValue ⟨schema, id, earlier⟩)) := by
    simp [Receipts.store, Receipts.file, hearlier]
  rw [finish, recordPath_of_validId h, run_ok_bind, createRecord_twice hsome (finished_fits h outcome)]

end Calls

end Hugit.Attempts

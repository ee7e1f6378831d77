import Hugit.Replay

/-! A raw push on the event log: a ref and its target, written as JSON text by
hand. Whatever the two texts are, the payload is read back as written. -/

namespace Hugit

def jsonEscape (c : Char) : List Char :=
  if c = '"' then ['\\', '"']
  else if c = '\\' then ['\\', '\\']
  else if c = '\n' then ['\\', 'n']
  else if c = '\r' then ['\\', 'r']
  else if c = '\t' then ['\\', 't']
  else if c.toNat < 0x20 then
    ['\\', 'u', '0', '0', hexDigit (c.toNat / 16), hexDigit (c.toNat % 16)]
  else [c]

def jsonStr (s : String) : String :=
  String.ofList ('"' :: s.toList.flatMap jsonEscape ++ ['"'])

def rawPushPayload (refName targetOid : String) : String :=
  "\x7b\"ref\":" ++ jsonStr refName ++ ",\"target\":" ++ jsonStr targetOid ++ "\x7d"

def recordRefUpdate (c : Crates) (log : EventLog) (principalChain : List String)
    (refName targetOid : String) (recordedAt : Nat) : EventRecord × EventLog :=
  log.appendExternalChange c .refUpdate principalChain (rawPushPayload refName targetOid) recordedAt

theorem recordRefUpdate_records (c : Crates) (log : EventLog) (principalChain : List String)
    (refName targetOid : String) (recordedAt : Nat) :
    (recordRefUpdate c log principalChain refName targetOid recordedAt).2.records =
      log.records ++ [(recordRefUpdate c log principalChain refName targetOid recordedAt).1] := rfl

inductive RawPush where
  | update (refName target : String)
  | delete (refName : String)
  deriving DecidableEq

namespace RawPush

def refName : RawPush → String
  | update refName _ | delete refName => refName

def externalKind : RawPush → ExternalChangeKind
  | update _ _ => .refUpdate
  | delete _ => .refDelete

def payload : RawPush → String
  | update refName target =>
    "\x7b\"ref\":" ++ jsonStr refName ++ ",\"target\":" ++ jsonStr target ++ "\x7d"
  | delete refName => "\x7b\"ref\":" ++ jsonStr refName ++ "\x7d"

end RawPush

structure Attribution where
  principalChain : List String
  recordedAt : Nat
  refName : String
  kind : String
  deriving DecidableEq

inductive ExternalChangeError where
  | missingAttribution
  deriving DecidableEq

def recordExternalChange (c : Crates) (log : EventLog) (push : RawPush) (principalChain : List String)
    (recordedAt : Nat) : Except ExternalChangeError (EventRecord × Attribution) × EventLog :=
  if principalChain = [] then (.error .missingAttribution, log)
  else
    let appended := log.appendExternalChange c push.externalKind principalChain push.payload recordedAt
    let record := appended.1
    (.ok (record, ⟨record.principalChain, record.recordedAt, push.refName, record.kind⟩), appended.2)

open JsonText in
theorem escapes_jsonEscape : Escapes jsonEscape := by
  intro fuel c rest
  unfold jsonEscape
  split_ifs with h1 h2 h3 h4 h5 h6
  · exact readText_escaped (by simp [readEscape, h1])
  · exact readText_escaped (by simp [readEscape, h2])
  · exact readText_escaped (by simp [readEscape, h3])
  · exact readText_escaped (by simp [readEscape, h4])
  · exact readText_escaped (by simp [readEscape, h5])
  · exact readText_escaped (readEscape_control h6 rest)
  · cases h : readText fuel rest <;> simp [readText, h1, h2, h6, h]

def rawPushValue (refName target : String) : Value :=
  .object [("ref", .string refName), ("target", .string target)]

theorem rawPushPayload_toList (refName target : String) :
    (rawPushPayload refName target).toList =
      '{' :: '"' :: 'r' :: 'e' :: 'f' :: '"' :: ':' :: '"' :: (refName.toList.flatMap jsonEscape ++
        '"' :: ',' :: '"' :: 't' :: 'a' :: 'r' :: 'g' :: 'e' :: 't' :: '"' :: ':' :: '"' ::
          (target.toList.flatMap jsonEscape ++ ['"', '}'])) := by
  simp [rawPushPayload, jsonStr]

open JsonText in
theorem readMembers_rawPush {refName target : List Char} {fuel : Nat} (hr : refName.length < fuel)
    (ht : target.length < fuel) (depth : Nat) (rest : List Char) :
    readMembers (fuel + 10) depth [] ('"' :: 'r' :: 'e' :: 'f' :: '"' :: ':' :: '"' ::
        (refName.flatMap jsonEscape ++ '"' :: ',' :: '"' :: 't' :: 'a' :: 'r' :: 'g' :: 'e' :: 't' ::
          '"' :: ':' :: '"' :: (target.flatMap jsonEscape ++ '"' :: '}' :: rest))) =
      some ([("ref", .string (String.ofList refName)), ("target", .string (String.ofList target))], rest) := by
  have href (tail : List Char) : readText (fuel + 8) (refName.flatMap jsonEscape ++ '"' :: tail) =
      some (refName, tail) := escapes_jsonEscape.readText refName (by omega) tail
  have htarget (tail : List Char) : readText (fuel + 7) (target.flatMap jsonEscape ++ '"' :: tail) =
      some (target, tail) := escapes_jsonEscape.readText target (by omega) tail
  simp [readMembers, readText, readValue, skipBlank, insertKey, href, htarget]

open JsonText in
theorem readJson_rawPushPayload (refName target : String) :
    readJson (rawPushPayload refName target) = some (rawPushValue refName target) := by
  have hr := escapes_jsonEscape.length_le refName.toList
  have ht := escapes_jsonEscape.length_le target.toList
  rw [readJson, rawPushPayload_toList]
  generalize hn : List.length _ = n
  simp only [List.length_cons, List.length_append, List.length_nil] at hn
  obtain ⟨fuel, hfuel⟩ : ∃ fuel, 3 * n + 2 = fuel + 10 := ⟨3 * n - 8, by omega⟩
  have hread := @readMembers_rawPush refName.toList target.toList fuel (by omega) (by omega) 126 []
  rw [String.ofList_toList, String.ofList_toList] at hread
  simp [hfuel, readValue, skipBlank, hread, rawPushValue]

theorem rawPushPayload_injective {refName refName' target target' : String}
    (h : rawPushPayload refName target = rawPushPayload refName' target') :
    refName = refName' ∧ target = target' := by
  have hv := congrArg readJson h
  simpa [readJson_rawPushPayload, rawPushValue] using hv

def Crates.ReadsJson (c : Crates) : Prop :=
  ∀ text v, v.Flat → readJson text = some v → c.fromStr text = some v

theorem refWrite_rawPush {c : Crates} (hc : c.ReadsJson) {r : EventRecord} {refName target : String}
    (hk : r.kind = "ref.update") (hp : r.payload = rawPushPayload refName target) :
    refWrite c r = .ok (some (refName, some target)) := by
  have hflat : (rawPushValue refName target).Flat := by
    simp [rawPushValue, Value.Flat, Value.IsLeaf]
  have hparse : parsePayload c r = .ok (rawPushValue refName target) := by
    rw [parsePayload, hp, hc _ _ hflat (readJson_rawPushPayload refName target)]
    rfl
  simp [refWrite, hk, hparse, rawPushValue, inertCapture, Value.fieldStr, bind, Except.bind, pure, Except.pure]

/-- A log whose refs can be read, in which no marker waits for a later record. -/
structure Replayable (c : Crates) (log : EventLog) (state : RefState) : Prop where
  replays : replay c log = .ok state
  earlier : ∀ r ∈ log.records, ∀ w, marker c r = some w → w.1 < log.len

theorem replayable_empty (c : Crates) : Replayable c .empty .new :=
  ⟨rfl, by simp [EventLog.empty]⟩

variable {c : Crates} {log : EventLog} {state : RefState}

theorem Replayable.gapFree (h : Replayable c log state) : GapFree log.records :=
  (verifyChain_ok_iff.mp (replay_eq_ok.mp h.replays).1).1.gapFree

theorem Replayable.append (h : Replayable c log state) {kind payload : String} {principalChain : List String}
    {recordedAt : Nat} (hk : kind ≠ provenanceRedactionKind) {w : Option (String × Option String)}
    (hw : refWrite c (EventLog.nextRecord c log.records kind principalChain payload recordedAt) = .ok w) :
    Replayable c (log.append c kind principalChain payload recordedAt).2 (state.apply w) := by
  have hnext : NextUnnamed c log := fun r hr m hm => (h.earlier r hr m hm).ne
  refine ⟨(replay_append h.replays hk hw).2 hnext, fun r hr m hm => ?_⟩
  rw [EventLog.len, EventLog.append_snd_records, List.length_append, List.length_singleton]
  rw [EventLog.append_snd_records, List.mem_append, List.mem_singleton] at hr
  rcases hr with hr | rfl
  · exact Nat.lt_succ_of_lt (h.earlier r hr m hm)
  · simp [marker, EventLog.nextRecord, hk] at hm

theorem Replayable.recordRefUpdate (hc : c.ReadsJson) (h : Replayable c log state) (principalChain : List String)
    (refName target : String) (recordedAt : Nat) :
    Replayable c (recordRefUpdate c log principalChain refName target recordedAt).2
      (state.apply (some (refName, some target))) := by
  have hw := @refWrite_rawPush c hc (EventLog.nextRecord c log.records "ref.update" principalChain
    (rawPushPayload refName target) recordedAt) refName target rfl rfl
  exact h.append (by decide) hw

end Hugit

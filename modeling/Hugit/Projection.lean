import Hugit.Replay
import Hugit.Text

/-! The two altitudes of one log: landed intents, and the machine history with a
generated commit for each of them. -/

namespace Hugit

structure GitCommit where
  seq : Nat
  intentId : String
  refName : String
  target : String
  message : String
  deriving DecidableEq

def intentIdTrailer : String := "Intent-Id: "

namespace GitCommit

def generateMessage (intent : Intent) : String :=
  intent.charter ++ "\n\n" ++ intentIdTrailer ++ intent.intentId

def fromIntent (intent : Intent) : GitCommit where
  seq := intent.seq
  intentId := intent.intentId
  refName := intent.refName
  target := intent.target
  message := generateMessage intent

def intentIdFromMessage (message : String) : Option String :=
  ((lines message.toList).findSome? (stripPrefix intentIdTrailer.toList)).map fun rest =>
    String.ofList (trim rest)

end GitCommit

inductive ProjectionRow where
  | intent (commit : GitCommit)
  | externalChange (seq : Nat) (kind : String) (refName target : Option String)
  deriving DecidableEq

structure MachineHistory where
  rows : List ProjectionRow
  deriving DecidableEq

def MachineHistory.commits (machine : MachineHistory) : List GitCommit :=
  machine.rows.filterMap fun
    | .intent commit => some commit
    | .externalChange .. => none

def consistentFrom : List GitCommit → List Intent → Bool
  | commits, [] => commits.isEmpty
  | [], _ :: _ => false
  | commit :: commits, intent :: intents =>
    if commit.seq ≠ intent.seq ∨ commit.intentId ≠ intent.intentId ∨
        commit.refName ≠ intent.refName ∨ commit.target ≠ intent.target then false
    else if GitCommit.intentIdFromMessage commit.message ≠ some intent.intentId then false
    else consistentFrom commits intents

def MachineHistory.isConsistentWith (machine : MachineHistory) (intentAltitude : IntentLog) : Bool :=
  consistentFrom machine.commits intentAltitude.intents

inductive ProjectionError where
  | model (e : IntentModelError)
  deriving DecidableEq

def project (c : Crates) (log : EventLog) : Except ProjectionError IntentLog :=
  (intentsFromRecords c log.records).mapError .model

def externalChangeRow (c : Crates) (record : EventRecord) : ProjectionRow :=
  let parsed := c.fromStr record.payload
  .externalChange record.seq record.kind (parsed.bind (·.fieldStr "ref")) (parsed.bind (·.fieldStr "target"))

def machineRow (c : Crates) (record : EventRecord) : Except IntentModelError (Option ProjectionRow) :=
  if record.kind = intentLandedKind then do
    let intent ← parseIntent c record
    return some (.intent (.fromIntent intent))
  else if isRawPush record.kind then return some (externalChangeRow c record)
  else return none

def machineRows (c : Crates) : List EventRecord → Except IntentModelError (List ProjectionRow)
  | [] => .ok []
  | record :: records => do
    let row ← machineRow c record
    return row.toList ++ (← machineRows c records)

def projectMachine (c : Crates) (log : EventLog) : Except ProjectionError MachineHistory :=
  ((machineRows c log.records).map MachineHistory.mk).mapError .model

theorem commits_machineRows (c : Crates) (records : List EventRecord) :
    (machineRows c records).map (fun rows => (MachineHistory.mk rows).commits) =
      (parseIntents c records).map (List.map GitCommit.fromIntent) := by
  induction records with
  | nil => rfl
  | cons record records ih =>
    rw [machineRows, machineRow, parseIntents]
    cases hm : machineRows c records with
    | error e =>
      cases hp : parseIntents c records with
      | error e' =>
        rw [hm, hp] at ih
        obtain rfl := Except.error.inj ih
        split_ifs
        · cases parseIntent c record <;> rfl
        · rfl
        · rfl
      | ok intents => rw [hm, hp] at ih; exact absurd ih (by simp [Except.map])
    | ok rows =>
      cases hp : parseIntents c records with
      | error e => rw [hm, hp] at ih; exact absurd ih (by simp [Except.map])
      | ok intents =>
        rw [hm, hp] at ih
        have hcommits : (MachineHistory.mk rows).commits = intents.map GitCommit.fromIntent := Except.ok.inj ih
        split_ifs
        · cases parseIntent c record with
          | error e => rfl
          | ok intent => exact congrArg (fun commits => Except.ok (_ :: commits)) hcommits
        · exact congrArg Except.ok hcommits
        · exact congrArg Except.ok hcommits

theorem machineRows_of_parseIntents {c : Crates} {records : List EventRecord} {intents : List Intent}
    (h : parseIntents c records = .ok intents) :
    ∃ rows, machineRows c records = .ok rows ∧
      (MachineHistory.mk rows).commits = intents.map GitCommit.fromIntent := by
  have hcommits := commits_machineRows c records
  cases hm : machineRows c records with
  | error e => rw [hm, h] at hcommits; exact absurd hcommits (by simp [Except.map])
  | ok rows =>
    rw [hm, h] at hcommits
    exact ⟨rows, rfl, Except.ok.inj hcommits⟩

theorem consistentFrom_fromIntent (intents : List Intent) :
    consistentFrom (intents.map GitCommit.fromIntent) intents = true ↔
      ∀ intent ∈ intents, GitCommit.intentIdFromMessage (GitCommit.generateMessage intent) =
        some intent.intentId := by
  induction intents with
  | nil => simp [consistentFrom]
  | cons intent intents ih => simp [consistentFrom, GitCommit.fromIntent, ← ih]

namespace Intent

def charterLines (intent : Intent) : List (List Char) :=
  lines (intent.charter.toList ++ ['\n'])

/-- Either the charter's own first trailer line names the intent, or the charter
has no such line and the id is one line without outer white space. -/
def Traceable (intent : Intent) : Prop :=
  (∃ before rest after, intent.charterLines = before ++ (intentIdTrailer.toList ++ rest) :: after ∧
      (∀ line ∈ before, ¬ intentIdTrailer.toList <+: line) ∧ trim rest = intent.intentId.toList) ∨
    ((∀ line ∈ intent.charterLines, ¬ intentIdTrailer.toList <+: line) ∧
      '\n' ∉ intent.intentId.toList ∧ trim intent.intentId.toList = intent.intentId.toList)

end Intent

theorem findSome?_message (intent : Intent) :
    (lines (GitCommit.generateMessage intent).toList).findSome? (stripPrefix intentIdTrailer.toList) =
      (intent.charterLines.findSome? (stripPrefix intentIdTrailer.toList)).or
        (some ((lines intent.intentId.toList).headD [])) := by
  have hmsg : (GitCommit.generateMessage intent).toList =
      intent.charter.toList ++ '\n' :: '\n' :: (intentIdTrailer.toList ++ intent.intentId.toList) := by
    simp [GitCommit.generateMessage]
  have hne : intentIdTrailer.toList ≠ [] := by decide
  have hbreak : ∀ c ∈ intentIdTrailer.toList, c ≠ '\n' ∧ c ≠ '\r' := by simp [intentIdTrailer]
  have hempty : stripPrefix intentIdTrailer.toList [] = none := by decide
  rw [hmsg, lines_append_lineFeed, List.findSome?_append, Intent.charterLines, lines,
    lines_append_of_forall hne hbreak, List.findSome?_cons, hempty, List.findSome?_cons,
    stripPrefix_append]

theorem intentIdFromMessage_eq_iff (intent : Intent) :
    GitCommit.intentIdFromMessage (GitCommit.generateMessage intent) = some intent.intentId ↔
      intent.Traceable := by
  have hread (text : List Char) : String.ofList text = intent.intentId ↔ text = intent.intentId.toList := by
    rw [← String.toList_inj, String.toList_ofList]
  rw [GitCommit.intentIdFromMessage, findSome?_message, Intent.Traceable]
  cases hf : intent.charterLines.findSome? (stripPrefix intentIdTrailer.toList) with
  | some rest =>
    rw [Option.some_or, Option.map_some, Option.some_inj, hread]
    constructor
    · intro ht
      obtain ⟨before, line, after, hsplit, hline, hbefore⟩ := List.findSome?_eq_some_iff.mp hf
      obtain rfl := stripPrefix_eq_some.mp hline
      exact .inl ⟨before, rest, after, hsplit, fun l hl => stripPrefix_eq_none.mp (hbefore l hl), ht⟩
    · rintro (⟨before, rest', after, hsplit, hbefore, ht⟩ | ⟨hnone, _⟩)
      · have hf' : intent.charterLines.findSome? (stripPrefix intentIdTrailer.toList) = some rest' :=
          List.findSome?_eq_some_iff.mpr ⟨before, _, after, hsplit, stripPrefix_append _ _,
            fun l hl => stripPrefix_eq_none.mpr (hbefore l hl)⟩
        obtain rfl : rest = rest' := Option.some.inj (hf.symm.trans hf')
        exact ht
      · have hno := List.findSome?_eq_none_iff.mpr fun l hl => stripPrefix_eq_none.mpr (hnone l hl)
        exact absurd (hf.symm.trans hno) (by simp)
  | none =>
    have hno (l : List Char) (hl : l ∈ intent.charterLines) : ¬ intentIdTrailer.toList <+: l :=
      stripPrefix_eq_none.mp (List.findSome?_eq_none_iff.mp hf l hl)
    rw [Option.none_or, Option.map_some, Option.some_inj, hread, trim_head_lines]
    constructor
    · exact fun h => .inr ⟨hno, h⟩
    · rintro (⟨before, rest, after, hsplit, _⟩ | ⟨_, h⟩)
      · exact absurd (List.prefix_append _ rest) (hno _ (by simp [hsplit]))
      · exact h

/-- Both altitudes are read from one log, and they agree exactly when the trailer
of every landed intent can be read back. -/
theorem altitudes_consistent_iff {c : Crates} {log : EventLog} {intentLog : IntentLog}
    (h : project c log = .ok intentLog) :
    (∃ machine, projectMachine c log = .ok machine ∧
      (machine.isConsistentWith intentLog = true ↔ ∀ intent ∈ intentLog.intents, intent.Traceable)) ∧
    ∀ intent ∈ intentLog.intents,
      (GitCommit.intentIdFromMessage (GitCommit.generateMessage intent) = some intent.intentId ↔
        intent.Traceable) := by
  refine ⟨?_, fun intent _ => intentIdFromMessage_eq_iff intent⟩
  rw [project, intentsFromRecords] at h
  cases hp : parseIntents c log.records with
  | error e => simp [hp, Except.map, Except.mapError] at h
  | ok intents =>
    obtain rfl : ⟨intents⟩ = intentLog := by simpa [hp, Except.map, Except.mapError] using h
    obtain ⟨rows, hrows, hcommits⟩ := machineRows_of_parseIntents hp
    refine ⟨⟨rows⟩, by simp [projectMachine, hrows, Except.map, Except.mapError], ?_⟩
    rw [MachineHistory.isConsistentWith, hcommits, consistentFrom_fromIntent]
    exact forall₂_congr fun intent _ => intentIdFromMessage_eq_iff intent

def landedIntent (intentId charter : String) : Intent where
  seq := 0
  intentId := intentId
  refName := "main"
  target := "a"
  charter := charter
  principalChain := ["user:a"]
  recordedAt := 0

def landedPayload (c : Crates) (intentId charter : String) : String :=
  c.print (.object [("intent_id", .string intentId), ("ref", .string "main"), ("target", .string "a"),
    ("charter", .string charter)])

def landedRecord (c : Crates) (intentId charter : String) : EventRecord :=
  EventLog.nextRecord c [] intentLandedKind ["user:a"] (landedPayload c intentId charter) 0

def landedLog (c : Crates) (intentId charter : String) : EventLog :=
  (EventLog.empty.append c intentLandedKind ["user:a"] (landedPayload c intentId charter) 0).2

theorem landed_parse {c : Crates} (hc : c.Sound) (intentId charter : String) :
    c.fromStr (landedPayload c intentId charter) = some (.object [("intent_id", .string intentId),
      ("ref", .string "main"), ("target", .string "a"), ("charter", .string charter)]) :=
  hc.round_trip _ (by simp [Value.Flat, Value.IsLeaf])

theorem landed_parseIntent {c : Crates} (hc : c.Sound) (intentId charter : String) :
    parseIntent c (landedRecord c intentId charter) = .ok (landedIntent intentId charter) := by
  simp [parseIntent, landedRecord, EventLog.nextRecord, landed_parse hc, Value.fieldStr, bind, Except.bind,
    pure, Except.pure, landedIntent]

theorem landedLog_parseIntents {c : Crates} (hc : c.Sound) (intentId charter : String) :
    parseIntents c (landedLog c intentId charter).records = .ok [landedIntent intentId charter] := by
  have hrecords : (landedLog c intentId charter).records = [landedRecord c intentId charter] := rfl
  rw [hrecords, parseIntents, if_pos (by rfl), landed_parseIntent hc]
  rfl

theorem landedLog_project {c : Crates} (hc : c.Sound) (intentId charter : String) :
    project c (landedLog c intentId charter) = .ok ⟨[landedIntent intentId charter]⟩ := by
  rw [project, intentsFromRecords, landedLog_parseIntents hc]
  rfl

theorem fixBuild_consistent : ∃ machine,
    projectMachine reference (landedLog reference "i-1" "fix the build") = .ok machine ∧
      machine.isConsistentWith ⟨[landedIntent "i-1" "fix the build"]⟩ = true := by
  obtain ⟨⟨machine, hm, hiff⟩, hid⟩ :=
    altitudes_consistent_iff (landedLog_project reference_sound "i-1" "fix the build")
  refine ⟨machine, hm, hiff.mpr fun intent hi => (hid intent hi).mp ?_⟩
  obtain rfl := List.mem_singleton.mp hi
  decide +kernel

/-- A charter that quotes another intent's trailer takes its place. -/
theorem quotedTrailer_inconsistent :
    project reference (landedLog reference "i-2" "Intent-Id: i-1") =
        .ok ⟨[landedIntent "i-2" "Intent-Id: i-1"]⟩ ∧
      (∃ machine, projectMachine reference (landedLog reference "i-2" "Intent-Id: i-1") = .ok machine ∧
        machine.isConsistentWith ⟨[landedIntent "i-2" "Intent-Id: i-1"]⟩ = false) ∧
      GitCommit.intentIdFromMessage (GitCommit.generateMessage (landedIntent "i-2" "Intent-Id: i-1")) =
        some "i-1" := by
  have hid : GitCommit.intentIdFromMessage
      (GitCommit.generateMessage (landedIntent "i-2" "Intent-Id: i-1")) = some "i-1" := by decide +kernel
  refine ⟨landedLog_project reference_sound _ _, ?_, hid⟩
  obtain ⟨rows, hrows, hcommits⟩ :=
    machineRows_of_parseIntents (landedLog_parseIntents reference_sound "i-2" "Intent-Id: i-1")
  refine ⟨⟨rows⟩, by simp [projectMachine, hrows, Except.map, Except.mapError], ?_⟩
  rw [MachineHistory.isConsistentWith, hcommits, Bool.eq_false_iff, ne_eq, consistentFrom_fromIntent]
  simp only [List.mem_singleton, forall_eq, hid]
  decide

end Hugit

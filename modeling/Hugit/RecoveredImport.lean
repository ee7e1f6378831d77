import Hugit.ImportRuns

/-! The import boundary of a recovery from the mirror. A list of refused kinds has to cover
the kind that the projections lift into an intent. -/

namespace Hugit

def changeEventKind : String := "mirror.recovered.change_event"

def forbiddenFabricatedKinds : List String := ["intent", "proposed_intent", "synthesized_intent"]

inductive ImportBoundaryError where
  | fabricatedIntent (kind : String)
  deriving DecidableEq

def projectRecoveredCommit (seq : Nat) (prevHash objectHash : String) (principalChain : List String)
    (payload : String) (recordedAt : Nat) : EventRecord where
  seq := seq
  prevHash := prevHash
  thisHash := objectHash
  kind := changeEventKind
  principalChain := principalChain
  payload := payload
  recordedAt := recordedAt

def importAsChangeEvent (record : EventRecord) : Except ImportBoundaryError Unit :=
  if forbiddenFabricatedKinds.any (record.kind == ·) then .error (.fabricatedIntent record.kind) else .ok ()

theorem importAsChangeEvent_eq_ok {record : EventRecord} :
    importAsChangeEvent record = .ok () ↔ record.kind ∉ forbiddenFabricatedKinds := by
  rw [importAsChangeEvent]
  split_ifs with hk
  · simpa using hk
  · simpa using hk

variable (c : Crates) (log : EventLog) (record : EventRecord)

def appendImported : EventLog :=
  (log.append c record.kind record.principalChain record.payload record.recordedAt).2

/-- Appending the record changes nothing at the intent altitude and no intent row at the machine altitude. -/
structure Inert : Prop where
  intents : project c (appendImported c log record) = project c log
  rows : (projectMachine c (appendImported c log record)).map MachineHistory.commits =
    (projectMachine c log).map MachineHistory.commits

theorem commits_projectMachine :
    (projectMachine c log).map MachineHistory.commits =
      (project c log).map fun intentLog => intentLog.intents.map GitCommit.fromIntent := by
  have h := commits_machineRows c log.records
  rw [projectMachine, project, intentsFromRecords]
  cases hm : machineRows c log.records with
  | error e =>
    cases hp : parseIntents c log.records with
    | error e' =>
      rw [hm, hp] at h
      obtain rfl := Except.error.inj h
      rfl
    | ok intents => rw [hm, hp] at h; exact absurd h (by simp [Except.map])
  | ok rows =>
    cases hp : parseIntents c log.records with
    | error e => rw [hm, hp] at h; exact absurd h (by simp [Except.map])
    | ok intents =>
      rw [hm, hp] at h
      exact congrArg Except.ok (Except.ok.inj h)

theorem inert_iff : Inert c log record ↔ project c (appendImported c log record) = project c log := by
  constructor
  · exact fun h => h.intents
  · intro h
    refine ⟨h, ?_⟩
    rw [commits_projectMachine, commits_projectMachine, h]

theorem project_appendImported_of_other (hk : record.kind ≠ intentLandedKind) :
    project c (appendImported c log record) = project c log := by
  rw [project, project, intentsFromRecords, intentsFromRecords, appendImported, EventLog.append_snd_records,
    parseIntents_append, parseIntents, if_neg (by exact hk), parseIntents]
  cases parseIntents c log.records with
  | error e => rfl
  | ok intents => exact congrArg (fun is => Except.ok (IntentLog.mk is)) (List.append_nil intents)

theorem project_appendImported_of_error {e : ProjectionError} (he : project c log = .error e) :
    project c (appendImported c log record) = .error e := by
  rw [project, intentsFromRecords] at he ⊢
  rw [appendImported, EventLog.append_snd_records, parseIntents_append]
  cases hp : parseIntents c log.records with
  | error e' => rw [hp] at he; exact he
  | ok intents => rw [hp] at he; exact absurd he (by simp [Except.map, Except.mapError])

theorem project_appendImported_ne (hk : record.kind = intentLandedKind) {intentLog : IntentLog}
    (hp : project c log = .ok intentLog) : project c (appendImported c log record) ≠ .ok intentLog := by
  intro h
  rw [project, intentsFromRecords] at hp h
  rw [appendImported, EventLog.append_snd_records, parseIntents_append, parseIntents, if_pos (by exact hk)] at h
  cases hlog : parseIntents c log.records with
  | error e => rw [hlog] at hp; exact absurd hp (by simp [Except.map, Except.mapError])
  | ok intents =>
    rw [hlog] at hp h
    obtain rfl : IntentLog.mk intents = intentLog := Except.ok.inj hp
    generalize EventLog.nextRecord c log.records record.kind record.principalChain record.payload
      record.recordedAt = r at h
    cases hi : parseIntent c r with
    | error e => rw [hi] at h; exact absurd h (by simp [bind, Except.bind, Except.map, Except.mapError])
    | ok intent =>
      rw [hi] at h
      have hlen := congrArg (fun l => l.intents.length) (Except.ok.inj h)
      rw [List.length_append] at hlen
      exact absurd hlen (by simp)

theorem recovered_inert_iff :
    (importAsChangeEvent record = .ok () → Inert c log record) ↔
      record.kind ≠ intentLandedKind ∨ ∃ e, project c log = .error e := by
  rw [inert_iff]
  constructor
  · intro h
    by_cases hk : record.kind = intentLandedKind
    · have haccepted : importAsChangeEvent record = .ok () :=
        importAsChangeEvent_eq_ok.mpr (by rw [hk]; decide)
      cases hp : project c log with
      | error e => exact .inr ⟨e, rfl⟩
      | ok intentLog =>
        exact absurd ((h haccepted).trans hp) (project_appendImported_ne c log record hk hp)
    · exact .inl hk
  · rintro (hk | ⟨e, he⟩) -
    · exact project_appendImported_of_other c log record hk
    · rw [project_appendImported_of_error c log record he, he]

/-- What the recovery itself projects from a commit passes the boundary and is inert. -/
theorem projectRecoveredCommit_inert (seq : Nat) (prevHash objectHash : String) (principalChain : List String)
    (payload : String) (recordedAt : Nat) :
    importAsChangeEvent
        (projectRecoveredCommit seq prevHash objectHash principalChain payload recordedAt) = .ok () ∧
      Inert c log (projectRecoveredCommit seq prevHash objectHash principalChain payload recordedAt) := by
  have hforbidden : changeEventKind ∉ forbiddenFabricatedKinds := by decide
  have hlanded : changeEventKind ≠ intentLandedKind := by decide
  refine ⟨importAsChangeEvent_eq_ok.mpr hforbidden, ?_⟩
  rw [inert_iff]
  exact project_appendImported_of_other _ _ _ hlanded

theorem landed_imported :
    importAsChangeEvent (landedRecord reference "i-1" "fix the build") = .ok () ∧
      project reference .empty = .ok ⟨[]⟩ ∧
      project reference (appendImported reference .empty (landedRecord reference "i-1" "fix the build")) =
        .ok ⟨[landedIntent "i-1" "fix the build"]⟩ :=
  ⟨importAsChangeEvent_eq_ok.mpr (by rw [landedRecord, EventLog.nextRecord]; decide), rfl,
    landedLog_project reference_sound _ _⟩

end Hugit

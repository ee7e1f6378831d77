import Hugit.Doors
import Hugit.Fallible
import Hugit.Projection

/-! Runs of imports among undos and external changes. Only an import lands an intent,
and it looks for its id on the whole log first. -/

namespace Hugit

section Intents

variable {c : Crates} {records : List EventRecord} {intents : List Intent} {r : EventRecord}

theorem parseIntents_append (c : Crates) (records more : List EventRecord) :
    parseIntents c (records ++ more) = (do
      let intents ← parseIntents c records
      let later ← parseIntents c more
      return intents ++ later) := by
  induction records with
  | nil =>
    rw [List.nil_append, parseIntents]
    cases parseIntents c more <;> rfl
  | cons r records ih =>
    rw [List.cons_append, parseIntents, parseIntents, ih]
    split_ifs
    · cases parseIntent c r with
      | error e => rfl
      | ok intent => cases parseIntents c records <;> cases parseIntents c more <;> rfl
    · rfl

theorem parseIntents_concat_other (h : parseIntents c records = .ok intents) (hk : r.kind ≠ intentLandedKind) :
    parseIntents c (records ++ [r]) = .ok intents := by
  rw [parseIntents_append, h, parseIntents, if_neg hk]
  exact congrArg Except.ok (List.append_nil intents)

theorem parseIntents_concat_landed (h : parseIntents c records = .ok intents) (hk : r.kind = intentLandedKind)
    {intent : Intent} (hi : parseIntent c r = .ok intent) :
    parseIntents c (records ++ [r]) = .ok (intents ++ [intent]) := by
  rw [parseIntents_append, h, parseIntents, if_pos hk, hi]
  rfl

theorem parseIntent_intentId {intent : Intent} (h : parseIntent c r = .ok intent) (intentId : String) :
    ((c.fromStr r.payload).bind fun v => (v.fieldStr "intent_id").map (· == intentId)).getD false =
      (intent.intentId == intentId) := by
  simp only [parseIntent] at h
  obtain ⟨v, hv, h⟩ := bind_eq_ok.mp h
  obtain ⟨id, hid, h⟩ := bind_eq_ok.mp h
  obtain ⟨refName, -, h⟩ := bind_eq_ok.mp h
  obtain ⟨target, -, h⟩ := bind_eq_ok.mp h
  obtain ⟨charter, -, h⟩ := bind_eq_ok.mp h
  obtain rfl := pure_eq_ok.mp h
  rw [okOr_eq_ok.mp hv, Option.bind_some, okOr_eq_ok.mp hid]
  rfl

theorem alreadyLanded_iff {log : EventLog} (h : parseIntents c log.records = .ok intents) (intentId : String) :
    alreadyLanded c log intentId = true ↔ intentId ∈ intents.map Intent.intentId := by
  rw [alreadyLanded]
  generalize log.records = rs at h
  induction rs generalizing intents with
  | nil =>
    obtain rfl : [] = intents := Except.ok.inj h
    simp
  | cons x rs ih =>
    rw [parseIntents] at h
    rw [List.any_cons, Bool.or_eq_true, Bool.and_eq_true, beq_iff_eq]
    split_ifs at h with hk
    · obtain ⟨intent, hi, h⟩ := bind_eq_ok.mp h
      obtain ⟨rest, hrest, h⟩ := bind_eq_ok.mp h
      obtain rfl := pure_eq_ok.mp h
      rw [ih hrest, parseIntent_intentId hi, beq_iff_eq, List.map_cons, List.mem_cons]
      simp only [hk, true_and]
      exact or_congr_left eq_comm
    · rw [ih h]
      simp [hk]

end Intents

section Import

variable {c : Crates}

theorem authorizeClass_push (principal : PrincipalClass) : authorizeClass principal .push = .allow := by
  cases principal <;> rfl

def importedRecord (c : Crates) (log : EventLog) (sidecar : IntentSidecar) (refName target : String)
    (principalChain : List String) (recordedAt : Nat) : EventRecord :=
  EventLog.nextRecord c log.records intentLandedKind principalChain (importPayload c sidecar refName target)
    recordedAt

structure Importable (c : Crates) (log : EventLog) (sidecar : IntentSidecar) (refName : String) : Prop where
  namespaced : isIntentNamespace refName = true
  named : sidecar.intentId ≠ ""
  fresh : alreadyLanded c log sidecar.intentId = false

theorem importSidecar_cases (c : Crates) (log : EventLog) (sidecar : IntentSidecar) (refName target : String)
    (principalChain : List String) (recordedAt : Nat) :
    (∃ e, importSidecar c log sidecar refName target principalChain recordedAt = (.error e, log)) ∨
      (Importable c log sidecar refName ∧
        importSidecar c log sidecar refName target principalChain recordedAt =
          (.ok (importedRecord c log sidecar refName target principalChain recordedAt),
            ⟨log.records ++ [importedRecord c log sidecar refName target principalChain recordedAt]⟩)) := by
  unfold importSidecar
  split_ifs with hns hid hdup
  · exact .inl ⟨_, rfl⟩
  · exact .inl ⟨_, rfl⟩
  · refine .inr ⟨⟨by simpa using hns, hid, by simpa using hdup⟩, ?_⟩
    simp only [EventLog.appendAuthorized, authorizeClass_push]
    rfl
  · exact .inl ⟨_, rfl⟩

theorem importPayload_reads (hc : c.Sound) (sidecar : IntentSidecar) (refName target : String) :
    c.fromStr (importPayload c sidecar refName target) =
      some (.object [("intent_id", .string sidecar.intentId), ("ref", .string refName),
        ("target", .string target), ("charter", .string sidecar.charter)]) :=
  hc.round_trip _ (by simp [Value.Flat, Value.IsLeaf])

theorem importedRecord_intent (hc : c.Sound) (log : EventLog) (sidecar : IntentSidecar)
    (refName target : String) (principalChain : List String) (recordedAt : Nat) : ∃ intent,
    parseIntent c (importedRecord c log sidecar refName target principalChain recordedAt) = .ok intent ∧
      intent.intentId = sidecar.intentId ∧ intent.refName = refName ∧ intent.target = target := by
  refine ⟨⟨log.records.length, sidecar.intentId, refName, target, sidecar.charter, principalChain,
    recordedAt⟩, ?_, rfl, rfl, rfl⟩
  simp [parseIntent, importedRecord, EventLog.nextRecord, importPayload_reads hc, Value.fieldStr, bind,
    Except.bind, pure, Except.pure]

theorem importedRecord_refWrite (hc : c.Sound) (log : EventLog) (sidecar : IntentSidecar)
    (refName target : String) (principalChain : List String) (recordedAt : Nat) :
    refWrite c (importedRecord c log sidecar refName target principalChain recordedAt) =
      .ok (some (refName, some target)) := by
  simp [refWrite, parsePayload, importedRecord, EventLog.nextRecord, importPayload_reads hc, Value.fieldStr,
    inertCapture, bind, Except.bind, pure, Except.pure]

end Import

inductive Door.ForIntents : Door → Prop
  | appendExternalChange (kind : ExternalChangeKind) (principalChain : List String) (payload : String)
      (recordedAt : Nat) : ForIntents (.appendExternalChange kind principalChain payload recordedAt)
  | undo (target : Nat) (principalChain : List String) (recordedAt : Nat) :
      ForIntents (.undo target principalChain recordedAt)
  | importSidecar (sidecar : IntentSidecar) (refName target : String) (principalChain : List String)
      (recordedAt : Nat) : ForIntents (.importSidecar sidecar refName target principalChain recordedAt)

def Door.landedId (c : Crates) (log : EventLog) : Door → Option String
  | importSidecar sidecar refName target principalChain recordedAt =>
    match (Hugit.importSidecar c log sidecar refName target principalChain recordedAt).1 with
    | .ok _ => some sidecar.intentId
    | .error _ => none
  | _ => none

def landedIds (c : Crates) : EventLog → List Door → List String
  | _, [] => []
  | log, door :: doors => (door.landedId c log).toList ++ landedIds c (door.run c log) doors

structure Imported (c : Crates) (log : EventLog) (intents : List Intent) : Prop where
  parsed : parseIntents c log.records = .ok intents
  named : ∀ intent ∈ intents, intent.intentId ≠ ""
  namespaced : ∀ intent ∈ intents, isIntentNamespace intent.refName = true
  distinct : (intents.map Intent.intentId).Nodup

theorem Imported.other {c : Crates} {log : EventLog} {intents : List Intent} (h : Imported c log intents)
    {kind : String} (hk : kind ≠ intentLandedKind) (principalChain : List String) (payload : String)
    (recordedAt : Nat) : Imported c (log.append c kind principalChain payload recordedAt).2 intents :=
  ⟨parseIntents_concat_other h.parsed hk, h.named, h.namespaced, h.distinct⟩

theorem restoring_kind_ne_landed (c : Crates) (name : String) (prior : Option String) :
    (restoring c name prior).kind ≠ intentLandedKind := by
  cases prior <;> simp [restoring, intentLandedKind]

variable {c : Crates} {log : EventLog} {intents : List Intent}

theorem Imported.undo (h : Imported c log intents) (target : Nat) (principalChain : List String)
    (recordedAt : Nat) :
    Imported c (Hugit.undo c log target principalChain recordedAt).2 intents := by
  cases hcomp : computeCompensation c log target with
  | error e =>
    have hlog : (Hugit.undo c log target principalChain recordedAt).2 = log := by simp [Hugit.undo, hcomp]
    rwa [hlog]
  | ok comp =>
    obtain ⟨_, _, prior, _, _, _, _, hcomp'⟩ := computeCompensation_eq_ok hcomp
    cases ha : authorize principalChain .undo with
    | allow =>
      rw [undo_allowed recordedAt hcomp ha]
      refine h.other ?_ _ _ _
      rw [hcomp']
      exact restoring_kind_ne_landed c _ _
    | deny reason =>
      rw [undo_denied recordedAt hcomp ha]
      exact h.other (by decide) _ _ _

theorem Imported.run (hc : c.Sound) (h : Imported c log intents) {door : Door} (hd : door.ForIntents) :
    ∃ landed : List Intent, Imported c (door.run c log) (intents ++ landed) ∧
      landed.map Intent.intentId = (door.landedId c log).toList := by
  cases hd with
  | appendExternalChange kind principalChain payload recordedAt =>
    refine ⟨[], ?_, rfl⟩
    rw [List.append_nil]
    exact h.other (by cases kind <;> simp [ExternalChangeKind.asKind, intentLandedKind]) _ _ _
  | undo target principalChain recordedAt =>
    refine ⟨[], ?_, rfl⟩
    rw [List.append_nil]
    exact h.undo target principalChain recordedAt
  | importSidecar sidecar refName target principalChain recordedAt =>
    rcases importSidecar_cases c log sidecar refName target principalChain recordedAt with
      ⟨e, he⟩ | ⟨hready, hok⟩
    · refine ⟨[], ?_, by simp [Door.landedId, he]⟩
      rw [List.append_nil, Door.run, he]
      exact h
    · obtain ⟨intent, hi, hid, href, -⟩ :=
        importedRecord_intent hc log sidecar refName target principalChain recordedAt
      have hnew : intent.intentId ∉ intents.map Intent.intentId := by
        rw [hid, ← alreadyLanded_iff h.parsed, hready.fresh]
        exact Bool.false_ne_true
      refine ⟨[intent], ?_, by simp [Door.landedId, hok, hid]⟩
      rw [Door.run, hok]
      refine ⟨parseIntents_concat_landed h.parsed rfl hi, ?_, ?_, ?_⟩
      · intro x hx
        rcases List.mem_append.mp hx with hx | hx
        · exact h.named x hx
        · rw [List.mem_singleton.mp hx, hid]
          exact hready.named
      · intro x hx
        rcases List.mem_append.mp hx with hx | hx
        · exact h.namespaced x hx
        · rw [List.mem_singleton.mp hx, href]
          exact hready.namespaced
      · rw [List.map_append, List.map_singleton, List.nodup_append]
        refine ⟨h.distinct, List.nodup_singleton _, fun a ha b hb he => hnew ?_⟩
        rw [← List.mem_singleton.mp hb, ← he]
        exact ha

theorem Imported.runDoors (hc : c.Sound) (h : Imported c log intents) {doors : List Door}
    (hd : ∀ door ∈ doors, door.ForIntents) :
    ∃ landed : List Intent, Imported c (Hugit.runDoors c log doors) (intents ++ landed) ∧
      landed.map Intent.intentId = landedIds c log doors := by
  induction doors generalizing log intents with
  | nil => exact ⟨[], by simpa [Hugit.runDoors] using h, rfl⟩
  | cons door doors ih =>
    obtain ⟨hdoor, hdoors⟩ := List.forall_mem_cons.mp hd
    obtain ⟨first, hfirst, hids⟩ := h.run hc hdoor
    obtain ⟨rest, hrest, hrestIds⟩ := ih hfirst hdoors
    refine ⟨first ++ rest, ?_, ?_⟩
    · rw [← List.append_assoc]
      exact hrest
    · rw [List.map_append, hids, hrestIds]
      rfl

theorem imported_empty (c : Crates) : Imported c .empty [] :=
  ⟨rfl, by simp, by simp, List.nodup_nil⟩

theorem isIntentNamespace_iff {refName : String} :
    isIntentNamespace refName = true ↔ "refs/hugit/".toList <+: refName.toList := by
  rw [isIntentNamespace, Option.isSome_iff_ne_none, ne_eq, stripPrefix_eq_none, not_not]

/-- What one import does to a log: nothing, or one record that sets a ref of the intent
namespace and no other. -/
structure ImportStep (c : Crates) (log log' : EventLog) (result : Except ImportError EventRecord)
    (refName target : String) : Prop where
  failed : ∀ e, result = .error e → log' = log
  landed : ∀ record, result = .ok record → log'.records = log.records ++ [record] ∧
    "refs/hugit/".toList <+: refName.toList ∧ refWrite c record = .ok (some (refName, some target))
  others : ∀ state, replayUnchecked c log.records = .ok state → ∃ after,
    replayUnchecked c log'.records = .ok after ∧ ∀ name, name ≠ refName → after.get name = state.get name

theorem importSidecar_step {c : Crates} (hc : c.Sound) (log : EventLog) (sidecar : IntentSidecar)
    (refName target : String) (principalChain : List String) (recordedAt : Nat) :
    ImportStep c log (importSidecar c log sidecar refName target principalChain recordedAt).2
      (importSidecar c log sidecar refName target principalChain recordedAt).1 refName target := by
  rcases importSidecar_cases c log sidecar refName target principalChain recordedAt with
    ⟨e, he⟩ | ⟨hready, hok⟩
  · rw [he]
    exact ⟨fun _ _ => rfl, nofun, fun state hs => ⟨state, hs, fun _ _ => rfl⟩⟩
  · rw [hok]
    have hw := importedRecord_refWrite hc log sidecar refName target principalChain recordedAt
    refine ⟨nofun, ?_, fun state hs => ⟨_, replayUnchecked_concat hs hw, fun name hne => ?_⟩⟩
    · rintro record ⟨⟩
      exact ⟨rfl, isIntentNamespace_iff.mp hready.namespaced, hw⟩
    · rw [RefState.get_apply_some, if_neg (Ne.symm hne)]

/-- After every run of imports, undos and external changes both altitudes are read, the ids its
imports landed are named and distinct, and they are the intents of the log; one more import moves
at most one ref, of the intent namespace, and leaves no trace if it fails. -/
theorem imports_unique_and_namespaced {c : Crates} (hc : c.Sound) {doors : List Door}
    (hd : ∀ door ∈ doors, door.ForIntents) :
    (∃ intentLog machine, project c (runDoors c .empty doors) = .ok intentLog ∧
      projectMachine c (runDoors c .empty doors) = .ok machine ∧
      intentLog.intents.map Intent.intentId = landedIds c .empty doors ∧
      ∀ intent ∈ intentLog.intents, "refs/hugit/".toList <+: intent.refName.toList) ∧
    (landedIds c .empty doors).Nodup ∧ (∀ id ∈ landedIds c .empty doors, id ≠ "") ∧
    ∀ sidecar refName target principalChain recordedAt,
      ImportStep c (runDoors c .empty doors)
        (importSidecar c (runDoors c .empty doors) sidecar refName target principalChain recordedAt).2
        (importSidecar c (runDoors c .empty doors) sidecar refName target principalChain recordedAt).1
        refName target := by
  obtain ⟨intents, himported, hids⟩ := (imported_empty c).runDoors hc hd
  rw [List.nil_append] at himported
  obtain ⟨rows, hrows, -⟩ := machineRows_of_parseIntents himported.parsed
  refine ⟨⟨⟨intents⟩, ⟨rows⟩, ?_, ?_, hids, fun intent hi => ?_⟩, ?_, ?_, importSidecar_step hc _⟩
  · rw [project, intentsFromRecords, himported.parsed]
    rfl
  · rw [projectMachine, hrows]
    rfl
  · exact isIntentNamespace_iff.mp (himported.namespaced intent hi)
  · rw [← hids]
    exact himported.distinct
  · rw [← hids]
    exact List.forall_mem_map.mpr himported.named

/-- The same sidecar imported before and after a push that is no JSON, and the first import
undone. -/
def importTwice : List Door :=
  [.importSidecar ⟨"i-1", "fix the build"⟩ "refs/hugit/i-1" "a" ["agent:x"] 1,
    .appendExternalChange .refUpdate ["user:a"] "not json" 2,
    .importSidecar ⟨"i-1", "again"⟩ "refs/hugit/i-1" "b" ["agent:x"] 3,
    .undo 0 ["user:a"] 4]

theorem importTwice_forIntents : ∀ door ∈ importTwice, door.ForIntents := by
  simp only [importTwice, List.forall_mem_cons, List.not_mem_nil, IsEmpty.forall_iff, implies_true, and_true]
  exact ⟨.importSidecar _ _ _ _ _, .appendExternalChange _ _ _ _, .importSidecar _ _ _ _ _, .undo _ _ _⟩

theorem importTwice_landed {c : Crates} (h : (landedIds c .empty importTwice).Nodup) :
    landedIds c .empty importTwice = ["i-1"] := by
  have hids : ∃ second : Option String, (second = none ∨ second = some "i-1") ∧
      landedIds c .empty importTwice = "i-1" :: second.toList := by
    refine ⟨Door.landedId c (runDoors c .empty (importTwice.take 2))
      (.importSidecar ⟨"i-1", "again"⟩ "refs/hugit/i-1" "b" ["agent:x"] 3), ?_, ?_⟩
    · rw [Door.landedId]
      split
      · exact .inr rfl
      · exact .inl rfl
    · have hfirst : Door.landedId c .empty
          (.importSidecar ⟨"i-1", "fix the build"⟩ "refs/hugit/i-1" "a" ["agent:x"] 1) = some "i-1" := rfl
      have hpush (log : EventLog) : Door.landedId c log
          (.appendExternalChange .refUpdate ["user:a"] "not json" 2) = none := rfl
      have hundo (log : EventLog) : Door.landedId c log (.undo 0 ["user:a"] 4) = none := rfl
      simp only [importTwice, landedIds, hfirst, hpush, hundo, Option.toList_some, Option.toList_none,
        List.nil_append, List.append_nil, List.cons_append]
      rfl
  obtain ⟨second, rfl | rfl, hids⟩ := hids
  · exact hids
  · rw [hids] at h
    exact absurd h (by simp)

theorem importTwice_unique : landedIds reference .empty importTwice = ["i-1"] ∧ ∃ intentLog machine,
    project reference (runDoors reference .empty importTwice) = .ok intentLog ∧
    projectMachine reference (runDoors reference .empty importTwice) = .ok machine := by
  obtain ⟨⟨intentLog, machine, hp, hm, -⟩, hnodup, -⟩ :=
    imports_unique_and_namespaced reference_sound importTwice_forIntents
  exact ⟨importTwice_landed hnodup, intentLog, machine, hp, hm⟩

end Hugit

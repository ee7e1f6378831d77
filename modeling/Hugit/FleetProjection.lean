import Hugit.LastWrite
import Hugit.TextRedaction
import Hugit.EventRecord
import Mathlib.Data.String.Basic

/-! The fleet view of the log. The maps are keyed by raw ids and emitted in the
order of the redacted ones, so entries redacted alike keep the order in which
their map was iterated. -/

namespace Hugit

section StableSort

variable {α β κ : Type} [LinearOrder κ] (key : β → κ)

def sortByKey (entries : List β) : List β :=
  entries.mergeSort fun a b => decide (key a ≤ key b)

theorem keyLe_trans (a b c : β) (hab : decide (key a ≤ key b) = true) (hbc : decide (key b ≤ key c) = true) :
    decide (key a ≤ key c) = true :=
  decide_eq_true ((of_decide_eq_true hab).trans (of_decide_eq_true hbc))

theorem keyLe_total (a b : β) : (decide (key a ≤ key b) || decide (key b ≤ key a)) = true := by
  simpa using le_total (key a) (key b)

theorem sortByKey_pairwise (entries : List β) : (sortByKey key entries).Pairwise fun a b => key a ≤ key b :=
  (List.pairwise_mergeSort (keyLe_trans key) (keyLe_total key) entries).imp of_decide_eq_true

theorem filter_sortByKey (k : κ) (entries : List β) :
    (sortByKey key entries).filter (key · = k) = entries.filter (key · = k) := by
  have hperm : (sortByKey key entries).Perm entries := List.mergeSort_perm _ _
  have hsub : (entries.filter (key · = k)).Sublist (sortByKey key entries) := by
    refine List.sublist_mergeSort (keyLe_trans key) (keyLe_total key) ?_ List.filter_sublist
    refine List.pairwise_of_forall_mem_list fun a ha b hb => ?_
    rw [of_decide_eq_true (List.mem_filter.mp ha).2, of_decide_eq_true (List.mem_filter.mp hb).2]
    simp
  have hfilter := hsub.filter (key · = k)
  rw [List.filter_filter] at hfilter
  simp only [Bool.and_self] at hfilter
  exact (hfilter.eq_of_length (hperm.filter _).length_eq.symm).symm

/-- The sorted list is one for all orders of its items exactly when items with the
same key are the same. -/
theorem sortByKey_unique_iff (f : α → β) (items : List α) :
    (∀ xs ys : List α, xs.Perm items → ys.Perm items → sortByKey key (xs.map f) = sortByKey key (ys.map f)) ↔
      ∀ a ∈ items, ∀ b ∈ items, key (f a) = key (f b) → f a = f b := by
  constructor
  · intro h a ha b hb hkey
    by_contra hne
    obtain ⟨before, after, rfl⟩ := List.append_of_mem ha
    have hb : b ∈ before ++ after := by
      rcases List.mem_cons.mp (List.perm_middle.mem_iff.mp hb) with rfl | hb
      · exact absurd rfl hne
      · exact hb
    obtain ⟨left, right, hsplit⟩ := List.append_of_mem hb
    have hperm : (a :: b :: (left ++ right)).Perm (before ++ a :: after) := by
      refine (List.perm_middle.trans ?_).symm
      rw [hsplit]
      exact List.perm_middle.cons a
    have hsame := congrArg (List.filter (key · = key (f a)))
      (h (a :: b :: (left ++ right)) (b :: a :: (left ++ right)) hperm ((List.Perm.swap a b _).trans hperm))
    rw [filter_sortByKey, filter_sortByKey] at hsame
    simp only [List.map_cons, List.filter_cons, hkey, decide_true, if_true, List.cons.injEq] at hsame
    exact hne hsame.1
  · intro h xs ys hxs hys
    have hx := List.mergeSort_perm (xs.map f) fun a b => decide (key a ≤ key b)
    have hy := List.mergeSort_perm (ys.map f) fun a b => decide (key a ≤ key b)
    refine List.Perm.eq_of_pairwise (fun x y hxm hym hxy hyx => ?_) (sortByKey_pairwise key _)
      (sortByKey_pairwise key _) (hx.trans (((hxs.trans hys.symm).map f).trans hy.symm))
    obtain ⟨a, ha, rfl⟩ := List.mem_map.mp (hx.mem_iff.mp hxm)
    obtain ⟨b, hb, rfl⟩ := List.mem_map.mp (hy.mem_iff.mp hym)
    exact h a (hxs.mem_iff.mp ha) b (hys.mem_iff.mp hb) (le_antisymm hxy hyx)

end StableSort

open Std

inductive WorkspaceState where
  | idle
  | active
  | closed

inductive AgentState where
  | assigned
  | completed
  | failed

structure WorkspaceEntry where
  workspaceId : String
  state : WorkspaceState

structure AgentEntry where
  agentId : String
  workspaceId : String
  state : AgentState

structure GitActivityEntry where
  branch : String
  refName : String
  target : String
  seq : Nat
  qualifier : Option String
  recordedAt : Nat

structure FleetState where
  schemaVersion : String
  workspaces : List WorkspaceEntry
  agents : List AgentEntry
  gitActivity : List GitActivityEntry
  gitActivityCount : Nat
  lastSeq : Nat
  eventCount : Nat
  malformed : Nat

def gitActivityEntry (m : Measures) (r : EventRecord) (payload : Value) : GitActivityEntry :=
  let qualifier :=
    if (payload.get "checkout").isSome then some "checkout"
    else if (payload.get "attempt").bind Value.asBool = some true then some "attempt"
    else if (payload.get "merged_from").isSome then some "merge"
    else none
  let payloadRef := (payload.fieldStr "ref").getD ""
  let payloadBranch := (payload.fieldStr "branch").getD ""
  let branch := if payloadBranch ≠ "" then payloadBranch
    else ((stripPrefix "refs/heads/".toList payloadRef.toList).map String.ofList).getD ""
  let refName := if payloadRef ≠ "" then payloadRef
    else if branch ≠ "" then "refs/heads/" ++ branch else ""
  let target := (((payload.get "target").or (payload.get "to")).bind Value.asStr).getD ""
  ⟨redactText m branch, redactText m refName, redactText m target, r.seq, qualifier, r.recordedAt⟩

inductive FleetEvent where
  | workspace (id : String) (state : WorkspaceState)
  | assigned (agent workspace : String)
  | settled (agent : String) (state : AgentState)
  | git (entry : GitActivityEntry)
  | inert

variable (c : Crates) (m : Measures)

def fleetEvent (r : EventRecord) : Option FleetEvent :=
  (c.fromStr r.payload).map fun payload =>
    let rawId (key : String) := (payload.fieldStr key).getD "unknown"
    if "ws.state.".toList <+: r.kind.toList then
      .workspace (rawId "workspace_id")
        (if r.kind = "ws.state.active" then .active else if r.kind = "ws.state.closed" then .closed else .idle)
    else if r.kind = "agent.assigned" then .assigned (rawId "agent_id") (rawId "workspace_id")
    else if r.kind = "agent.completed" then .settled (rawId "agent_id") .completed
    else if r.kind = "agent.failed" then .settled (rawId "agent_id") .failed
    else if r.kind = "ref.update" ∨ r.kind = "ref.delete" then .git (gitActivityEntry m r payload)
    else .inert

structure FleetFold where
  workspaces : ExtTreeMap String WorkspaceState
  agents : ExtTreeMap String (String × AgentState)
  gitActivity : List GitActivityEntry
  lastSeq : Nat
  malformed : Nat

def FleetFold.step (f : FleetFold) (r : EventRecord) : FleetFold :=
  let f := { f with lastSeq := r.seq }
  match fleetEvent c m r with
  | none => { f with malformed := f.malformed + 1 }
  | some (.workspace id state) => { f with workspaces := f.workspaces.insert id state }
  | some (.assigned agent workspace) => { f with agents := f.agents.insert agent (workspace, .assigned) }
  | some (.settled agent state) => { f with agents := f.agents.modify agent fun entry => (entry.1, state) }
  | some (.git entry) => { f with gitActivity := f.gitActivity ++ [entry] }
  | some .inert => f

def fleetFold (records : List EventRecord) : FleetFold :=
  records.foldl (FleetFold.step c m) ⟨∅, ∅, [], 0, 0⟩

def emitWorkspace (entry : String × WorkspaceState) : WorkspaceEntry :=
  ⟨redactText m entry.1, entry.2⟩

def emitAgent (entry : String × String × AgentState) : AgentEntry :=
  ⟨redactText m entry.1, redactText m entry.2.1, entry.2.2⟩

def FleetFold.emit (f : FleetFold) (eventCount : Nat) (workspaces : List (String × WorkspaceState))
    (agents : List (String × String × AgentState)) : FleetState where
  schemaVersion := "1"
  workspaces := sortByKey WorkspaceEntry.workspaceId (workspaces.map (emitWorkspace m))
  agents := sortByKey AgentEntry.agentId (agents.map (emitAgent m))
  gitActivity := f.gitActivity
  gitActivityCount := f.gitActivity.length
  lastSeq := f.lastSeq
  eventCount := eventCount
  malformed := f.malformed

/-- A state that `from_records` may yield: each hash map is iterated in some order. -/
def FleetState.FromRecords (records : List EventRecord) (state : FleetState) : Prop :=
  ∃ workspaces agents, workspaces.Perm (fleetFold c m records).workspaces.toList ∧
    agents.Perm (fleetFold c m records).agents.toList ∧
    state = (fleetFold c m records).emit m records.length workspaces agents

def FleetEvent.workspaceWrite : FleetEvent → Option (String × WorkspaceState)
  | workspace id state => some (id, state)
  | _ => none

def FleetEvent.assignment : FleetEvent → Option (String × String)
  | assigned agent place => some (agent, place)
  | _ => none

def FleetEvent.agentWrite : FleetEvent → Option (String × AgentState)
  | assigned agent _ => some (agent, .assigned)
  | settled agent state => some (agent, state)
  | _ => none

def lastAbout {ω : Type} (write : FleetEvent → Option (String × ω)) (records : List EventRecord) (id : String) :
    Option ω :=
  lastWrite id (records.filterMap fun r => (fleetEvent c m r).bind write)

theorem fleetFold_concat (records : List EventRecord) (r : EventRecord) :
    fleetFold c m (records ++ [r]) = (fleetFold c m records).step c m r := by
  rw [fleetFold, List.foldl_append]
  rfl

theorem lastAbout_concat {ω : Type} (write : FleetEvent → Option (String × ω)) (records : List EventRecord)
    (r : EventRecord) (id : String) :
    lastAbout c m write (records ++ [r]) id =
      (lastWrite id ((fleetEvent c m r).bind write).toList).or (lastAbout c m write records id) := by
  rw [lastAbout, List.filterMap_append, lastWrite_append]
  cases h : (fleetEvent c m r).bind write <;> simp [h, lastAbout]

theorem fleetFold_workspaces (records : List EventRecord) (id : String) :
    (fleetFold c m records).workspaces[id]? = lastAbout c m FleetEvent.workspaceWrite records id := by
  induction records using List.reverseRecOn with
  | nil => simp [fleetFold, lastAbout]
  | append_singleton records r ih =>
    rw [lastAbout_concat, ← ih, fleetFold_concat, FleetFold.step]
    cases fleetEvent c m r with
    | none => simp
    | some event =>
      cases event with
      | workspace id' state =>
        simp only [ExtTreeMap.getElem?_insert, LawfulEqCmp.compare_eq_iff_eq]
        by_cases hid : id' = id <;> simp [FleetEvent.workspaceWrite, lastWrite, hid]
      | assigned | settled | git | inert => simp [FleetEvent.workspaceWrite]

variable {c m} in
theorem lastAgentState_isSome {records : List EventRecord} {id place : String}
    (h : lastAbout c m FleetEvent.assignment records id = some place) :
    (lastAbout c m FleetEvent.agentWrite records id).isSome := by
  obtain ⟨r, hr, hevent⟩ := List.mem_filterMap.mp (mem_of_lastWrite h)
  obtain ⟨event, he, hassigned⟩ := Option.bind_eq_some_iff.mp hevent
  by_contra hnone
  refine lastWrite_eq_none.mp (Option.not_isSome_iff_eq_none.mp hnone) (id, .assigned)
    (List.mem_filterMap.mpr ⟨r, hr, ?_⟩) rfl
  cases event with
  | assigned agent place' =>
    obtain ⟨rfl, -⟩ : agent = id ∧ place' = place := by simpa [FleetEvent.assignment] using hassigned
    rw [he]
    rfl
  | workspace | settled | git | inert => cases hassigned

theorem fleetFold_agents (records : List EventRecord) (id : String) :
    (fleetFold c m records).agents[id]? = (lastAbout c m FleetEvent.assignment records id).bind fun place =>
      (lastAbout c m FleetEvent.agentWrite records id).map fun state => (place, state) := by
  induction records using List.reverseRecOn with
  | nil => simp [fleetFold, lastAbout]
  | append_singleton records r ih =>
    have hsome := @lastAgentState_isSome c m records id
    rw [lastAbout_concat, lastAbout_concat, fleetFold_concat, FleetFold.step]
    cases fleetEvent c m r with
    | none => simp [ih]
    | some event =>
      cases event with
      | assigned agent place =>
        simp only [ExtTreeMap.getElem?_insert, LawfulEqCmp.compare_eq_iff_eq, ih]
        by_cases hid : agent = id <;> simp [FleetEvent.assignment, FleetEvent.agentWrite, lastWrite, hid]
      | settled agent state =>
        simp only [ExtTreeMap.getElem?_modify, LawfulEqCmp.compare_eq_iff_eq]
        by_cases hid : agent = id
        · subst hid
          cases ha : lastAbout c m FleetEvent.assignment records agent with
          | none => simp [FleetEvent.assignment, ih, ha]
          | some place =>
            obtain ⟨old, hold⟩ := Option.isSome_iff_exists.mp (hsome ha)
            simp [FleetEvent.assignment, FleetEvent.agentWrite, lastWrite, ih, ha, hold]
        · simp [FleetEvent.assignment, FleetEvent.agentWrite, lastWrite, hid, ih]
      | workspace | git | inert => simp [FleetEvent.assignment, FleetEvent.agentWrite, ih]

/-- One entry for each raw id, with what the last readable record about it set. -/
structure FleetState.Exact (records : List EventRecord) (state : FleetState) : Prop where
  workspaces : ∃ entries : List (String × WorkspaceState), (entries.map Prod.fst).Nodup ∧
    (∀ e, e ∈ entries ↔ lastAbout c m FleetEvent.workspaceWrite records e.1 = some e.2) ∧
    state.workspaces.Perm (entries.map (emitWorkspace m))
  agents : ∃ entries : List (String × String × AgentState), (entries.map Prod.fst).Nodup ∧
    (∀ e, e ∈ entries ↔ lastAbout c m FleetEvent.assignment records e.1 = some e.2.1 ∧
      lastAbout c m FleetEvent.agentWrite records e.1 = some e.2.2) ∧
    state.agents.Perm (entries.map (emitAgent m))

/-- Ids that are redacted alike have equal entries. -/
structure UnambiguousIds (records : List EventRecord) : Prop where
  workspaces : ∀ i j s t, lastAbout c m FleetEvent.workspaceWrite records i = some s →
    lastAbout c m FleetEvent.workspaceWrite records j = some t → redactText m i = redactText m j → s = t
  agents : ∀ i j v w s t, lastAbout c m FleetEvent.assignment records i = some v →
    lastAbout c m FleetEvent.agentWrite records i = some s →
    lastAbout c m FleetEvent.assignment records j = some w →
    lastAbout c m FleetEvent.agentWrite records j = some t →
    redactText m i = redactText m j → redactText m v = redactText m w ∧ s = t

theorem mem_fleetFold_workspaces {records : List EventRecord} {e : String × WorkspaceState} :
    e ∈ (fleetFold c m records).workspaces.toList ↔
      lastAbout c m FleetEvent.workspaceWrite records e.1 = some e.2 := by
  rw [← fleetFold_workspaces]
  exact ExtTreeMap.mem_toList_iff_getElem?_eq_some

theorem mem_fleetFold_agents {records : List EventRecord} {e : String × String × AgentState} :
    e ∈ (fleetFold c m records).agents.toList ↔ lastAbout c m FleetEvent.assignment records e.1 = some e.2.1 ∧
      lastAbout c m FleetEvent.agentWrite records e.1 = some e.2.2 := by
  have hmem : e ∈ (fleetFold c m records).agents.toList ↔ (fleetFold c m records).agents[e.1]? = some e.2 :=
    ExtTreeMap.mem_toList_iff_getElem?_eq_some
  rw [hmem, fleetFold_agents]
  obtain ⟨id, place, state⟩ := e
  simp [Option.bind_eq_some_iff]

theorem nodup_keys_toList {ν : Type} (entries : ExtTreeMap String ν) : (entries.toList.map Prod.fst).Nodup := by
  rw [ExtTreeMap.map_fst_toList_eq_keys]
  exact ExtTreeMap.nodup_keys

theorem FleetState.FromRecords.exact {records : List EventRecord} {state : FleetState}
    (h : state.FromRecords c m records) : state.Exact c m records := by
  obtain ⟨workspaces, agents, hw, ha, rfl⟩ := h
  refine ⟨⟨_, nodup_keys_toList _, fun e => mem_fleetFold_workspaces c m, ?_⟩,
    ⟨_, nodup_keys_toList _, fun e => mem_fleetFold_agents c m, ?_⟩⟩
  · exact (List.mergeSort_perm _ _).trans (hw.map _)
  · exact (List.mergeSort_perm _ _).trans (ha.map _)

theorem fromRecords_unique_iff (records : List EventRecord) :
    (∀ s t : FleetState, s.FromRecords c m records → t.FromRecords c m records → s = t) ↔
      UnambiguousIds c m records := by
  have hw := sortByKey_unique_iff WorkspaceEntry.workspaceId (emitWorkspace m)
    (fleetFold c m records).workspaces.toList
  have ha := sortByKey_unique_iff AgentEntry.agentId (emitAgent m) (fleetFold c m records).agents.toList
  constructor
  · intro h
    refine ⟨fun i j s t hi hj hij => ?_, fun i j v w s t hv hs hw' ht hij => ?_⟩
    · have hsame := hw.mp (fun xs ys hxs hys => congrArg FleetState.workspaces
        (h _ _ ⟨xs, _, hxs, .refl _, rfl⟩ ⟨ys, _, hys, .refl _, rfl⟩)) (i, s)
        ((mem_fleetFold_workspaces c m).mpr hi) (j, t) ((mem_fleetFold_workspaces c m).mpr hj) hij
      exact congrArg WorkspaceEntry.state hsame
    · have hsame := ha.mp (fun xs ys hxs hys => congrArg FleetState.agents
        (h _ _ ⟨_, xs, .refl _, hxs, rfl⟩ ⟨_, ys, .refl _, hys, rfl⟩)) (i, v, s)
        ((mem_fleetFold_agents c m).mpr ⟨hv, hs⟩) (j, w, t) ((mem_fleetFold_agents c m).mpr ⟨hw', ht⟩) hij
      exact ⟨congrArg AgentEntry.workspaceId hsame, congrArg AgentEntry.state hsame⟩
  · rintro h s t ⟨ws, as, hws, has, rfl⟩ ⟨ws', as', hws', has', rfl⟩
    have hworkspaces := hw.mpr (fun a hma b hmb hkey => by
      have hstate := h.workspaces a.1 b.1 a.2 b.2 ((mem_fleetFold_workspaces c m).mp hma)
        ((mem_fleetFold_workspaces c m).mp hmb) hkey
      exact congrArg₂ WorkspaceEntry.mk hkey hstate) ws ws' hws hws'
    have hagents := ha.mpr (fun a hma b hmb hkey => by
      obtain ⟨hv, hs⟩ := (mem_fleetFold_agents c m).mp hma
      obtain ⟨hw', ht⟩ := (mem_fleetFold_agents c m).mp hmb
      obtain ⟨hplace, hstate⟩ := h.agents a.1 b.1 a.2.1 b.2.1 a.2.2 b.2.2 hv hs hw' ht hkey
      simp only [emitAgent, AgentEntry.mk.injEq]
      exact ⟨hkey, hplace, hstate⟩) as as' has has'
    rw [FleetFold.emit, FleetFold.emit, hworkspaces, hagents]

/-- Whatever the iteration order, each raw id has its one entry; the state is the
same for all orders exactly when ids that are redacted alike have equal entries. -/
theorem fleet_state_function_iff (records : List EventRecord) :
    (∀ state : FleetState, state.FromRecords c m records → state.Exact c m records) ∧
    ((∀ s t : FleetState, s.FromRecords c m records → t.FromRecords c m records → s = t) ↔
      UnambiguousIds c m records) :=
  ⟨fun _ h => h.exact, fromRecords_unique_iff c m records⟩

def workspaceRecord (kind id : String) : EventRecord :=
  ⟨0, "", "", kind, [], c.print (.object [("workspace_id", .string id)]), 0⟩

theorem fleetEvent_workspaceRecord (hc : c.Sound) {kind : String} (hk : "ws.state.".toList <+: kind.toList)
    (id : String) : fleetEvent c m (workspaceRecord c kind id) = some (.workspace id
      (if kind = "ws.state.active" then .active else if kind = "ws.state.closed" then .closed else .idle)) := by
  have hread : c.fromStr (workspaceRecord c kind id).payload = some (.object [("workspace_id", .string id)]) :=
    hc.round_trip _ (by simp [Value.Flat, Value.IsLeaf])
  have hid : (Value.object [("workspace_id", .string id)]).fieldStr "workspace_id" = some id := by
    simp [Value.fieldStr]
  rw [fleetEvent, hread]
  simp only [Option.map_some, hid, Option.getD_some, workspaceRecord, if_pos hk]
  rfl

theorem redactText_marked (id : String) (h : isStructuralSecret id.toList = true) :
    redactText m id = redactedMarker := by
  rw [redactText, isSecret, h, Bool.true_or, if_pos rfl]

/-- Two workspaces redacted alike, one active and one closed, come out in either order. -/
theorem redacted_workspaces_unordered : ¬ ∀ s t : FleetState,
    s.FromRecords reference ⟨fun _ => 0⟩ [workspaceRecord reference "ws.state.active" "SECRET:a",
      workspaceRecord reference "ws.state.closed" "SECRET:b"] →
    t.FromRecords reference ⟨fun _ => 0⟩ [workspaceRecord reference "ws.state.active" "SECRET:a",
      workspaceRecord reference "ws.state.closed" "SECRET:b"] → s = t := by
  intro h
  have ha := fleetEvent_workspaceRecord reference ⟨fun _ => 0⟩ reference_sound
    (by decide : "ws.state.".toList <+: "ws.state.active".toList) "SECRET:a"
  have hb := fleetEvent_workspaceRecord reference ⟨fun _ => 0⟩ reference_sound
    (by decide : "ws.state.".toList <+: "ws.state.closed".toList) "SECRET:b"
  have hstate := ((fromRecords_unique_iff _ _ _).mp h).workspaces "SECRET:a" "SECRET:b" .active .closed
    (by simp [lastAbout, ha, hb, FleetEvent.workspaceWrite, lastWrite])
    (by simp [lastAbout, ha, hb, FleetEvent.workspaceWrite, lastWrite])
    ((redactText_marked _ _ (by decide)).trans (redactText_marked _ _ (by decide)).symm)
  cases hstate

end Hugit

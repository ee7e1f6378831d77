import Hugit.DockClose
import Hugit.Durable
import Hugit.SealGuard

/-! The landing of a dock: `dock.landed` is written first and the dock is closed after
it, each in a write of its own. A landing found done does not close again. -/

namespace Hugit

/-- The worktrees as git sees them, and the exit of the acceptance run. -/
structure DockHost where
  dirExists : String → Bool
  revParse : String → String → Option String
  acceptanceExit : String → String → Nat

inductive ByteIdentityOutcome where
  | verified
  | noRecordedTip
  | diverged (expected observed : String)
  deriving DecidableEq

inductive AcceptanceOutcome where
  | green
  | red
  | skipped
  deriving DecidableEq

structure DockLandResult where
  dockId : String
  branch : String
  byteIdentity : ByteIdentityOutcome
  acceptance : AcceptanceOutcome
  landed : Bool
  costUsdMicros : Nat

def dockLandedKind : String := "dock.landed"

def observeWorktreeTip (host : DockHost) (gitdir branch : String) : Option String :=
  if host.dirExists gitdir then host.revParse gitdir (if branch = "" then "HEAD" else branch) else none

def dockLandedPayload (dockId branch : String) : Value :=
  .object [("dock_id", .string dockId), ("branch", .string branch), ("mode", .string "dock-land")]

inductive LandFailure where
  | refused (e : PorcelainError)
  | closeFailed (e : String)

variable (c : Crates)

def findDockPayload (log : EventLog) (dockId : String) : Option Value :=
  (dockPayloads c "dock.record" log dockId).head?

def recordedTip (log : EventLog) (branch : String) : Option String :=
  (((log.records.reverse.filter fun r => r.kind = "ref.update").filterMap fun r => c.fromStr r.payload).find?
    fun p => p.fieldStr "branch" = some branch && (p.get "target").isSome && (p.get "checkout").isNone &&
      (p.get "attempt").isNone && (p.get "merged_from").isNone).bind fun p => p.fieldStr "target"

def byteIdentity (host : DockHost) (log : EventLog) (gitdir branch : String) : ByteIdentityOutcome :=
  match recordedTip c log branch, observeWorktreeTip host gitdir branch with
  | some expected, some observed => if expected = observed then .verified else .diverged expected observed
  | _, _ => .noRecordedTip

def runDockAcceptance (host : DockHost) (dockId branch : String) (noAccept : Bool) : AcceptanceOutcome :=
  if noAccept then .skipped
  else if host.acceptanceExit dockId branch = 0 then .green else .red

def appendLanded (log : EventLog) (dockId branch : String) (recordedAt : Nat) :
    Except PorcelainError Bool × EventLog :=
  if dockPayloads c dockLandedKind log dockId ≠ [] then (.ok false, log)
  else
    let payload := (canonicalJson c (c.print (dockLandedPayload dockId branch))).getD
      (c.print (.object [("dock_id", .string dockId)]))
    match log.appendAuthorized c .orchestrator .push dockLandedKind [] payload recordedAt with
    | (.error denied, log) => (.error ⟨"authz_denied",
        "landing dock '" ++ dockId ++ "' denied: " ++ denied.reason.code,
        "a dock.landed is authored by the dock's Orchestrator/Push cell", []⟩, log)
    | (.ok _, log) => (.ok true, log)

def landDock (host : DockHost) (log : EventLog) (dockId : String) (recordedAt : Nat) (noAccept : Bool) :
    Except PorcelainError DockLandResult × EventLog :=
  match findDockPayload c log dockId with
  | none => (.error ⟨"dock_not_found", "dock_not_found:" ++ dockId,
      "the dock id is unknown to the canonical log; `hugit dock ls` lists the known docks", []⟩, log)
  | some payload =>
    match payload.fieldStr "gitdir" with
    | none => (.error ⟨"dock_ghost",
        "dock '" ++ dockId ++ "' has no live gitdir — the worktree is gone; nothing to land",
        "recreate the worktree (or close the ghost via `hugit dock reconcile`) and re-land", []⟩, log)
    | some gitdir =>
      let branch := payload.textAt "branch"
      let identity := byteIdentity c host log gitdir branch
      let acceptance := runDockAcceptance host dockId branch noAccept
      let cost := ((dockPayloads c "cost.sample" log dockId).map fun p => p.u64At "cost_usd_micros").foldl
        wrappingAdd 0
      let result (landed : Bool) : DockLandResult := ⟨dockId, branch, identity, acceptance, landed, cost⟩
      if identity = .verified ∧ acceptance = .green then
        match appendLanded c log dockId branch recordedAt with
        | (.error e, log) => (.error e, log)
        | (.ok landed, log) => (.ok (result landed), log)
      else (.ok (result false), log)

/-- `close_dock` as one process runs it; it writes only when it appends. -/
def closeDock (dirExists : String → Bool) (dockId : String) (now : Nat) : Durable EventLog LandFailure CloseResult := do
  let log ← Durable.read id
  match existingClose c log dockId with
  | some p => pure (p.intoCloseResult true)
  | none =>
    match findLane c dirExists log dockId with
    | none => .fail (.closeFailed ("dock_not_found:" ++ dockId))
    | some lane =>
      match settleClose c log dockId (closeVerdict lane now) with
      | (.error e, _) => .fail (.closeFailed e)
      | (.ok result, closed) =>
        if result.alreadyClosed then pure result
        else do
          Durable.write fun _ => closed
          pure result

def landRun (host : DockHost) (dockId : String) (recordedAt : Nat) (noAccept : Bool) (now : Nat) :
    Durable EventLog LandFailure DockLandResult := do
  let log ← Durable.read id
  match landDock c host log dockId recordedAt noAccept with
  | (.error e, _) => .fail (.refused e)
  | (.ok result, landed) =>
    Durable.write fun _ => landed
    if result.landed then
      let _ ← closeDock c host.dirExists dockId now
      pure result
    else pure result

inductive DockCommand where
  | land (host : DockHost) (recordedAt : Nat) (noAccept : Bool) (now : Nat)
  | close (dirExists : String → Bool) (now : Nat)

/-- The logs a run writes when it is killed after so many writes, or not at all. -/
def DockCommand.written (dockId : String) (log : EventLog) (writes : Option Nat) : DockCommand → List EventLog
  | land host recordedAt noAccept now => ((landRun c host dockId recordedAt noAccept now).run log).cut writes
  | close dirExists now => ((closeDock c dirExists dockId now).run log).cut writes

def dockHistory (dockId : String) (start : EventLog) (calls : List (DockCommand × Option Nat)) : EventLog :=
  calls.foldl (fun log call => (call.1.written c dockId log call.2).getLastD log) start

variable {c}

theorem dockPayloads_concat (kind dockId : String) (records : List EventRecord) (r : EventRecord) :
    dockPayloads c kind ⟨records ++ [r]⟩ dockId = dockPayloads c kind ⟨records⟩ dockId ++
      dockPayloads c kind ⟨[r]⟩ dockId := by
  simp only [dockPayloads, List.filter_append, List.filterMap_append]

variable {kind dockId : String}

theorem dockPayloads_single_ne {r : EventRecord} (h : r.kind ≠ kind) : dockPayloads c kind ⟨[r]⟩ dockId = [] := by
  simp [dockPayloads, h]

theorem dockPayloads_single {kind dockId : String} {r : EventRecord} {p : Value} (hk : r.kind = kind)
    (hp : c.fromStr r.payload = some p) (hd : p.fieldStr "dock_id" = some dockId) :
    dockPayloads c kind ⟨[r]⟩ dockId = [p] := by
  simp [dockPayloads, hk, hp, hd]

/-- The steps of the accounting: a record of a kind of which the dock has none. -/
inductive AccountsOnce (c : Crates) (dockId : String) (log : EventLog) : EventLog → Prop
  | same : AccountsOnce c dockId log log
  | first {kind : String} (h : dockPayloads c kind log dockId = []) {r : EventRecord} (hk : r.kind = kind) :
      AccountsOnce c dockId log ⟨log.records ++ [r]⟩

theorem AccountsOnce.atMostOne {log log' : EventLog} (h : AccountsOnce c dockId log log')
    (hone : (dockPayloads c kind log dockId).length ≤ 1) : (dockPayloads c kind log' dockId).length ≤ 1 := by
  cases h with
  | same => exact hone
  | @first k hnone r hk =>
    rw [dockPayloads_concat, List.length_append]
    by_cases hkind : r.kind = kind
    · obtain rfl : k = kind := hk.symm.trans hkind
      have hsingle : (dockPayloads c k ⟨[r]⟩ dockId).length ≤ 1 := by
        simp only [dockPayloads]
        exact (List.length_filter_le _ _).trans ((List.length_filterMap_le _ _).trans (List.length_filter_le _ _))
      have hzero : (dockPayloads c k ⟨log.records⟩ dockId).length = 0 := congrArg List.length hnone
      omega
    · rw [dockPayloads_single_ne hkind]
      exact hone

theorem closeDock_run (hc : c.Json) (dirExists : String → Bool) (dockId : String) (now : Nat) (log : EventLog) :
    (∃ p, existingClose c log dockId = some p ∧
      (closeDock c dirExists dockId now).run log = ⟨[], .ok (p.intoCloseResult true)⟩) ∨
    (∃ e, (closeDock c dirExists dockId now).run log = ⟨[], .error e⟩) ∨
    (existingClose c log dockId = none ∧ ∃ r p result, Closes c dockId r p ∧
      (closeDock c dirExists dockId now).run log = ⟨[⟨log.records ++ [r]⟩], .ok result⟩) := by
  rw [closeDock, Durable.run_read_bind]
  simp only [id]
  cases hold : existingClose c log dockId with
  | some p => exact .inl ⟨p, rfl, rfl⟩
  | none =>
    right
    cases hlane : findLane c dirExists log dockId with
    | none => exact .inl ⟨_, rfl⟩
    | some lane =>
      obtain ⟨r, hkind, hparsed, hsettle⟩ := settleClose_of_open hc hold lane now
      have hnames := fieldStr_closePayload lane now
      rw [dockId_of_findLane hlane] at hnames
      dsimp only
      rw [hsettle]
      exact .inr ⟨rfl, r, _, _, ⟨hkind, hparsed, hnames⟩, rfl⟩

theorem dockLandedPayload_printable (dockId branch : String) : (dockLandedPayload dockId branch).Printable 127 := by
  refine .object (by simp) fun f hf => ?_
  simp only [List.mem_cons, List.not_mem_nil, or_false] at hf
  rcases hf with rfl | rfl | rfl <;> exact .string _

theorem appendLanded_of_none (hc : c.Json) {log : EventLog} (h : dockPayloads c dockLandedKind log dockId = [])
    (branch : String) (recordedAt : Nat) :
    ∃ r : EventRecord, r.kind = dockLandedKind ∧ dockPayloads c dockLandedKind ⟨[r]⟩ dockId ≠ [] ∧
      appendLanded c log dockId branch recordedAt = (.ok true, ⟨log.records ++ [r]⟩) := by
  have hp := dockLandedPayload_printable dockId branch
  have hnames : (canonicalizeValue (dockLandedPayload dockId branch)).fieldStr "dock_id" = some dockId := by
    rw [fieldStr_canonicalizeValue hp]
    simp [dockLandedPayload, Value.fieldStr]
  have hparsed : c.fromStr ((canonicalJson c (c.print (dockLandedPayload dockId branch))).getD
      (c.print (.object [("dock_id", .string dockId)]))) =
        some (canonicalizeValue (dockLandedPayload dockId branch)) := by
    rw [canonicalJson_print hc hp, Option.getD_some]
    exact hc.reads_back _ hp.canonicalize
  refine ⟨_, rfl, ?_, by rw [appendLanded, h]; rfl⟩
  rw [@dockPayloads_single c dockLandedKind dockId _ _ rfl hparsed hnames]
  exact List.cons_ne_nil _ _

/-- What `land_dock` can do: refuse, leave a landing it found done or did not verify,
or land the dock for the first time. -/
theorem landDock_cases (hc : c.Json) (host : DockHost) (log : EventLog) (dockId : String) (recordedAt : Nat)
    (noAccept : Bool) :
    (∃ e, landDock c host log dockId recordedAt noAccept = (.error e, log)) ∨
    (∃ result, landDock c host log dockId recordedAt noAccept = (.ok result, log) ∧ result.landed = false ∧
      (result.byteIdentity = .verified → result.acceptance = .green →
        dockPayloads c dockLandedKind log dockId ≠ [])) ∨
    (dockPayloads c dockLandedKind log dockId = [] ∧ ∃ result r, r.kind = dockLandedKind ∧
      dockPayloads c dockLandedKind ⟨[r]⟩ dockId ≠ [] ∧ result.landed = true ∧
      landDock c host log dockId recordedAt noAccept = (.ok result, ⟨log.records ++ [r]⟩)) := by
  unfold landDock
  cases findDockPayload c log dockId with
  | none => exact .inl ⟨_, rfl⟩
  | some payload =>
    dsimp only
    cases payload.fieldStr "gitdir" with
    | none => exact .inl ⟨_, rfl⟩
    | some gitdir =>
      right
      dsimp only
      by_cases hgreen : byteIdentity c host log gitdir (payload.textAt "branch") = .verified ∧
          runDockAcceptance host dockId (payload.textAt "branch") noAccept = .green
      · by_cases hnone : dockPayloads c dockLandedKind log dockId = []
        · obtain ⟨r, hkind, hcounts, happend⟩ :=
            appendLanded_of_none hc hnone (payload.textAt "branch") recordedAt
          rw [if_pos hgreen, happend]
          exact .inr ⟨hnone, _, r, hkind, hcounts, rfl, rfl⟩
        · rw [if_pos hgreen, appendLanded, if_pos hnone]
          exact .inl ⟨_, rfl, rfl, fun _ _ => hnone⟩
      · rw [if_neg hgreen]
        exact .inl ⟨_, rfl, rfl, fun hverified haccepted => absurd ⟨hverified, haccepted⟩ hgreen⟩

theorem landRun_cases (hc : c.Json) (host : DockHost) (log : EventLog) (dockId : String) (recordedAt : Nat)
    (noAccept : Bool) (now : Nat) :
    (∃ e, (landRun c host dockId recordedAt noAccept now).run log = ⟨[], .error e⟩) ∨
    (∃ result, (landRun c host dockId recordedAt noAccept now).run log = ⟨[log], .ok result⟩ ∧
      (result.byteIdentity = .verified → result.acceptance = .green →
        dockPayloads c dockLandedKind log dockId ≠ [])) ∨
    (dockPayloads c dockLandedKind log dockId = [] ∧ ∃ result r, r.kind = dockLandedKind ∧
      dockPayloads c dockLandedKind ⟨[r]⟩ dockId ≠ [] ∧
      (landRun c host dockId recordedAt noAccept now).run log =
        ⟨⟨log.records ++ [r]⟩ :: ((closeDock c host.dirExists dockId now).run ⟨log.records ++ [r]⟩).states,
          ((closeDock c host.dirExists dockId now).run ⟨log.records ++ [r]⟩).result.map fun _ => result⟩) := by
  rw [landRun, Durable.run_read_bind]
  simp only [id]
  rcases landDock_cases hc host log dockId recordedAt noAccept with
    ⟨e, h⟩ | ⟨result, h, hlanded, hgreen⟩ | ⟨hnone, result, r, hkind, hcounts, hlanded, h⟩
  · rw [h]
    exact .inl ⟨_, rfl⟩
  · rw [h]
    dsimp only
    rw [hlanded]
    exact .inr (.inl ⟨result, rfl, hgreen⟩)
  · rw [h]
    dsimp only
    rw [hlanded]
    refine .inr (.inr ⟨hnone, result, r, hkind, hcounts, ?_⟩)
    rw [Durable.run_write_bind]
    simp only [if_true]
    rcases closeDock_run hc host.dirExists dockId now ⟨log.records ++ [r]⟩ with
      ⟨p, -, hclose⟩ | ⟨e, hclose⟩ | ⟨-, s, p, closed, -, hclose⟩
    · rw [Durable.run_bind_of_quiet hclose, hclose]
      rfl
    · rw [Durable.run_bind_of_failed hclose, hclose]
      rfl
    · rw [Durable.run_bind_of_wrote hclose, hclose]
      rfl

theorem closeDock_accountsOnce (hc : c.Json) (dirExists : String → Bool) (dockId : String) (now : Nat)
    (log : EventLog) :
    ∀ log' ∈ ((closeDock c dirExists dockId now).run log).states, AccountsOnce c dockId log log' := by
  intro log' hmem
  rcases closeDock_run hc dirExists dockId now log with ⟨p, -, h⟩ | ⟨e, h⟩ | ⟨hopen, r, p, result, hcloses, h⟩
  · rw [h] at hmem
    cases hmem
  · rw [h] at hmem
    cases hmem
  · rw [h] at hmem
    obtain rfl := List.mem_singleton.mp hmem
    exact .first (List.head?_eq_none_iff.mp hopen) hcloses.kind

theorem landRun_accountsOnce (hc : c.Json) (host : DockHost) (log : EventLog) (dockId : String) (recordedAt : Nat)
    (noAccept : Bool) (now : Nat) : ∀ log' ∈ ((landRun c host dockId recordedAt noAccept now).run log).states,
      Relation.ReflTransGen (AccountsOnce c dockId) log log' := by
  intro log' hmem
  rcases landRun_cases hc host log dockId recordedAt noAccept now with
    ⟨e, h⟩ | ⟨result, h, -⟩ | ⟨hnone, result, r, hkind, -, h⟩
  · rw [h] at hmem
    cases hmem
  · rw [h] at hmem
    obtain rfl := List.mem_singleton.mp hmem
    exact .refl
  · rw [h] at hmem
    have hland : AccountsOnce c dockId log ⟨log.records ++ [r]⟩ := .first hnone hkind
    rcases List.mem_cons.mp hmem with rfl | hmem
    · exact .single hland
    · exact (Relation.ReflTransGen.single hland).tail (closeDock_accountsOnce hc _ dockId now _ log' hmem)

theorem written_accountsOnce (hc : c.Json) (dockId : String) (log : EventLog) (writes : Option Nat)
    (command : DockCommand) :
    Relation.ReflTransGen (AccountsOnce c dockId) log ((command.written c dockId log writes).getLastD log) := by
  cases command with
  | land host recordedAt noAccept now =>
    rcases List.mem_cons.mp (getLastD_cut_mem ((landRun c host dockId recordedAt noAccept now).run log) writes log)
      with hlast | hlast
    · simp only [DockCommand.written, hlast]
      exact .refl
    · exact landRun_accountsOnce hc host log dockId recordedAt noAccept now _ hlast
  | close dirExists now =>
    rcases List.mem_cons.mp (getLastD_cut_mem ((closeDock c dirExists dockId now).run log) writes log)
      with hlast | hlast
    · simp only [DockCommand.written, hlast]
      exact .refl
    · exact .single (closeDock_accountsOnce hc dirExists dockId now log _ hlast)

theorem dockHistory_accountsOnce (hc : c.Json) (dockId : String) (calls : List (DockCommand × Option Nat)) :
    ∀ start, Relation.ReflTransGen (AccountsOnce c dockId) start (dockHistory c dockId start calls) := by
  induction calls with
  | nil => exact fun start => .refl
  | cons call calls ih => exact fun start => (written_accountsOnce hc dockId start call.2 call.1).trans (ih _)

theorem atMostOne_of_accountsOnce {start log : EventLog}
    (h : Relation.ReflTransGen (AccountsOnce c dockId) start log)
    (hone : (dockPayloads c kind start dockId).length ≤ 1) : (dockPayloads c kind log dockId).length ≤ 1 := by
  induction h with
  | refl => exact hone
  | tail _ hstep ih => exact hstep.atMostOne ih

theorem landRun_accounts (hc : c.Json) {host : DockHost} {log : EventLog} {recordedAt : Nat} {noAccept : Bool}
    {now : Nat} {states : List EventLog} {result : DockLandResult}
    (h : (landRun c host dockId recordedAt noAccept now).run log = ⟨states, .ok result⟩)
    (hverified : result.byteIdentity = .verified) (hgreen : result.acceptance = .green) :
    dockPayloads c dockLandedKind (states.getLastD log) dockId ≠ [] ∧
        dockPayloads c dockCloseKind (states.getLastD log) dockId ≠ [] ↔
      dockPayloads c dockLandedKind log dockId = [] ∨ dockPayloads c dockCloseKind log dockId ≠ [] := by
  rcases landRun_cases hc host log dockId recordedAt noAccept now with
    ⟨e, hrun⟩ | ⟨res, hrun, hfound⟩ | ⟨hnone, res, r, hkind, hcounts, hrun⟩
  · rw [hrun] at h
    cases h
  · rw [hrun] at h
    cases h
    have hlanded := hfound hverified hgreen
    exact ⟨fun hboth => .inr hboth.2, fun hor => ⟨hlanded, hor.resolve_left hlanded⟩⟩
  · have hlanded : dockPayloads c dockLandedKind ⟨log.records ++ [r]⟩ dockId ≠ [] := by
      rw [dockPayloads_concat]
      exact List.append_ne_nil_of_right_ne_nil _ hcounts
    refine iff_of_true ?_ (.inl hnone)
    rw [hrun] at h
    rcases closeDock_run hc host.dirExists dockId now ⟨log.records ++ [r]⟩ with
      ⟨p, hclosed, hclose⟩ | ⟨e, hclose⟩ | ⟨hopen, s, p, closed, hcloses, hclose⟩
    · rw [hclose] at h
      cases h
      exact ⟨hlanded, List.ne_nil_of_mem (List.mem_of_mem_head? hclosed)⟩
    · rw [hclose] at h
      cases h
    · rw [hclose] at h
      cases h
      have hsingle := dockPayloads_single hcloses.kind hcloses.parsed hcloses.names
      constructor
      · refine fun hnil => hlanded ?_
        exact (List.append_eq_nil_iff.mp ((dockPayloads_concat _ _ _ _).symm.trans hnil)).1
      · refine fun hnil => ?_
        have hnone := (List.append_eq_nil_iff.mp ((dockPayloads_concat _ _ _ _).symm.trans hnil)).2
        rw [hsingle] at hnone
        cases hnone

/-- After any runs of `dock land` and `dock close`, each cut anywhere, a completed
green landing leaves one landed and one close record of the dock exactly when it
did not find the dock landed and open. -/
theorem landing_accounts_iff (hc : c.Json) {dockId : String} {start : EventLog}
    (hlanded : (dockPayloads c dockLandedKind start dockId).length ≤ 1)
    (hclosed : (dockPayloads c dockCloseKind start dockId).length ≤ 1) (calls : List (DockCommand × Option Nat))
    {host : DockHost} {recordedAt : Nat} {noAccept : Bool} {now : Nat} {states : List EventLog}
    {result : DockLandResult} (h : (landRun c host dockId recordedAt noAccept now).run
      (dockHistory c dockId start calls) = ⟨states, .ok result⟩)
    (hverified : result.byteIdentity = .verified) (hgreen : result.acceptance = .green) :
    (dockPayloads c dockLandedKind (states.getLastD (dockHistory c dockId start calls)) dockId).length = 1 ∧
        (dockPayloads c dockCloseKind (states.getLastD (dockHistory c dockId start calls)) dockId).length = 1 ↔
      dockPayloads c dockLandedKind (dockHistory c dockId start calls) dockId = [] ∨
        dockPayloads c dockCloseKind (dockHistory c dockId start calls) dockId ≠ [] := by
  have hlast := written_accountsOnce hc dockId (dockHistory c dockId start calls) none
    (.land host recordedAt noAccept now)
  simp only [DockCommand.written, h, Trace.cut] at hlast
  have hall := (dockHistory_accountsOnce hc dockId calls start).trans hlast
  have hone : ∀ l : List Value, l.length ≤ 1 → (l.length = 1 ↔ l ≠ []) := fun l hl => by
    rw [← List.length_pos_iff]
    omega
  rw [hone _ (atMostOne_of_accountsOnce hall hlanded), hone _ (atMostOne_of_accountsOnce hall hclosed)]
  exact landRun_accounts hc h hverified hgreen

def landableLog : EventLog :=
  ⟨[⟨0, "", "", "dock.record", [], "\x7b\"dock_id\":\"d\",\"branch\":\"b\",\"gitdir\":\"g\"\x7d", 0⟩,
    ⟨1, "", "", "ref.update", [], "\x7b\"branch\":\"b\",\"target\":\"t\"\x7d", 0⟩]⟩

def greenDockHost : DockHost :=
  ⟨fun _ => true, fun _ _ => some "t", fun _ _ => 0⟩

theorem completed_green {t : Trace EventLog LandFailure DockLandResult}
    (h : (t.result.toOption.map fun r => (r.byteIdentity, r.acceptance)) = some (.verified, .green)) :
    ∃ result, t = ⟨t.states, .ok result⟩ ∧ result.byteIdentity = .verified ∧ result.acceptance = .green := by
  obtain ⟨states, result⟩ := t
  cases result with
  | error e => cases h
  | ok result =>
    obtain ⟨hverified, hgreen⟩ := Prod.ext_iff.mp (Option.some.inj h)
    exact ⟨result, rfl, hverified, hgreen⟩

def killedClose : EventLog :=
  dockHistory reference "d" landableLog [(.close (fun _ => true) 0, some 0)]

theorem landing_after_killed_close : ∃ states result,
    (landRun reference greenDockHost "d" 0 false 1).run killedClose = ⟨states, .ok result⟩ ∧
      (dockPayloads reference dockLandedKind (states.getLastD killedClose) "d").length = 1 ∧
      (dockPayloads reference dockCloseKind (states.getLastD killedClose) "d").length = 1 := by
  have hlanded : (dockPayloads reference dockLandedKind landableLog "d").length ≤ 1 := by decide +kernel
  have hclosed : (dockPayloads reference dockCloseKind landableLog "d").length ≤ 1 := by decide +kernel
  have hnone : dockPayloads reference dockLandedKind killedClose "d" = [] := by decide +kernel
  obtain ⟨result, hrun, hverified, hgreen⟩ :=
    @completed_green ((landRun reference greenDockHost "d" 0 false 1).run killedClose) (by decide +kernel)
  rw [killedClose] at hrun hnone ⊢
  have haccounts := landing_accounts_iff reference_json hlanded hclosed _ hrun hverified hgreen
  exact ⟨_, result, hrun, haccounts.mpr (.inl hnone)⟩

def killedLanding : EventLog :=
  dockHistory reference "d" landableLog [(.land greenDockHost 0 false 1, some 1)]

/-- A landing that is killed before it closes the dock is found done by the next one,
which then does not close the dock either. -/
theorem killed_landing_never_closed : ∃ states result,
    (landRun reference greenDockHost "d" 2 false 3).run killedLanding = ⟨states, .ok result⟩ ∧
      result.byteIdentity = .verified ∧ result.acceptance = .green ∧
      dockPayloads reference dockCloseKind (states.getLastD killedLanding) "d" = [] := by
  obtain ⟨result, hrun, hverified, hgreen⟩ :=
    @completed_green ((landRun reference greenDockHost "d" 2 false 3).run killedLanding) (by decide +kernel)
  have hopen : dockPayloads reference dockCloseKind
      (((landRun reference greenDockHost "d" 2 false 3).run killedLanding).states.getLastD killedLanding) "d" = [] := by
    decide +kernel
  exact ⟨_, result, hrun, hverified, hgreen, hopen⟩

end Hugit

import Hugit.Authz
import Hugit.CanonicalJson
import Hugit.DockReconcile
import Hugit.Interleaving

/-! The closing of a dock. The verdict comes from one read of the log and is recorded
under the lock after another read, so what is appended in between makes it stale. -/

namespace Hugit

def Bucket.asStr : Bucket → String
  | .matched => "matched"
  | .investigated => "investigated"
  | .unlabeled => "unlabeled"
  | .reconciled => "reconciled"

def bucketFrom (name : String) : Bucket :=
  if name = "matched" then .matched
  else if name = "investigated" then .investigated
  else if name = "reconciled" then .reconciled
  else .unlabeled

@[simp] theorem bucketFrom_asStr (bucket : Bucket) : bucketFrom bucket.asStr = bucket := by
  cases bucket <;> decide

structure CloseResult where
  dockId : String
  branch : String
  closedAtMs : Nat
  bucket : Bucket
  bucketName : String
  costUsdMicros : Nat
  commitCount : Nat
  alreadyClosed : Bool

def CloseResult.intoReplay (result : CloseResult) : CloseResult :=
  { result with alreadyClosed := true }

def Value.intoCloseResult (p : Value) (alreadyClosed : Bool) : CloseResult where
  dockId := p.textAt "dock_id"
  branch := p.textAt "branch"
  closedAtMs := p.u64At "closed_at_ms"
  bucket := bucketFrom ((p.fieldStr "bucket").getD "unlabeled")
  bucketName := (p.fieldStr "bucket").getD "unlabeled"
  costUsdMicros := p.u64At "cost_usd_micros"
  commitCount := p.u64At "commit_count"
  alreadyClosed := alreadyClosed

def dockCloseKind : String := "dock.close"

variable (c : Crates)

/-- The payloads of one kind that name the dock. -/
def dockPayloads (kind : String) (log : EventLog) (dockId : String) : List Value :=
  ((log.records.filter fun r => r.kind = kind).filterMap fun r => c.fromStr r.payload).filter fun p =>
    p.fieldStr "dock_id" = some dockId

def existingClose (log : EventLog) (dockId : String) : Option Value :=
  (dockPayloads c dockCloseKind log dockId).head?

def findLane (dirExists : String → Bool) (log : EventLog) (dockId : String) : Option DockAttribution :=
  (attributeOn c dirExists (recordsFromEventLog c log)).docks.find? fun d => d.dockId = dockId

/-- The numbers are 64-bit words; what is added up beyond them wraps. -/
def closeVerdict (lane : DockAttribution) (closedAtMs : Nat) : CloseResult where
  dockId := lane.dockId
  branch := lane.branch
  closedAtMs := closedAtMs % 2 ^ 64
  bucket := lane.bucket
  bucketName := lane.bucket.asStr
  costUsdMicros := lane.costUsdMicros % 2 ^ 64
  commitCount := lane.commitCount % 2 ^ 64
  alreadyClosed := false

def closePayload (result : CloseResult) : Value :=
  .object [("dock_id", .string result.dockId), ("branch", .string result.branch),
    ("closed_at_ms", .number (.posInt result.closedAtMs)), ("bucket", .string result.bucketName),
    ("cost_usd_micros", .number (.posInt result.costUsdMicros)),
    ("commit_count", .number (.posInt result.commitCount))]

/-- The locked section of `close_dock`. -/
def settleClose (log : EventLog) (dockId : String) (result : CloseResult) : Except String CloseResult × EventLog :=
  if (existingClose c log dockId).isSome then (.ok result.intoReplay, log)
  else
    let text := c.print (closePayload result)
    match log.appendAuthorized c .orchestrator .push dockCloseKind ["orchestrator:hugit-hook"]
        ((canonicalJson c text).getD text) result.closedAtMs with
    | (.error denied, log) => (.error ("authz denied: " ++ denied.reason.code), log)
    | (.ok _, log) => (.ok result, log)

/-- A `close_dock` call between its steps. `seen` is the log of its first read. -/
inductive CloseThread where
  | called (dockId : String)
  | unclosed (dockId : String) (seen : EventLog)
  | judged (dockId : String) (seen : EventLog) (result : CloseResult)
  | returned (dockId : String) (result : Except String CloseResult)

namespace CloseThread

def dockId : CloseThread → String
  | called dockId | unclosed dockId _ | judged dockId _ _ | returned dockId _ => dockId

/-- The steps of a call. Which git directories exist may change from one read to the
next, and a read, the lock or the write may fail. -/
inductive Act : EventLog → CloseThread → EventLog → CloseThread → Prop
  | replay {log : EventLog} {dockId : String} {p : Value} (h : existingClose c log dockId = some p) :
      Act log (called dockId) log (returned dockId (.ok (p.intoCloseResult true)))
  | unclosed {log : EventLog} {dockId : String} (h : existingClose c log dockId = none) :
      Act log (called dockId) log (unclosed dockId log)
  | missing {log seen : EventLog} {dockId : String} (dirExists : String → Bool)
      (h : findLane c dirExists log dockId = none) :
      Act log (unclosed dockId seen) log (returned dockId (.error ("dock_not_found:" ++ dockId)))
  | judge {log seen : EventLog} {dockId : String} (dirExists : String → Bool) {lane : DockAttribution}
      (h : findLane c dirExists log dockId = some lane) (now : Nat) :
      Act log (unclosed dockId seen) log (judged dockId seen (closeVerdict lane now))
  | settle (log seen : EventLog) (dockId : String) (result : CloseResult) :
      Act log (judged dockId seen result) (settleClose c log dockId result).2
        (returned dockId (settleClose c log dockId result).1)
  | fail (log : EventLog) (t : CloseThread) (e : String) : Act log t log (returned t.dockId (.error e))

/-- Nothing was appended since the first read of the call. -/
def Quiet (log : EventLog) : CloseThread → Prop
  | unclosed _ seen | judged _ seen _ => log = seen
  | called _ | returned _ _ => True

def QuietAct (log : EventLog) (t : CloseThread) (log' : EventLog) (t' : CloseThread) : Prop :=
  t.Quiet log ∧ Act c log t log' t'

end CloseThread

/-- Whatever else any process appends to the log. -/
inductive OtherAppend : EventLog → EventLog → Prop
  | append (log : EventLog) {kind : String} (hk : kind ≠ dockCloseKind) (principalChain : List String)
      (payload : String) (recordedAt : Nat) :
      OtherAppend log (log.append c kind principalChain payload recordedAt).2

structure Closes (dockId : String) (r : EventRecord) (p : Value) : Prop where
  kind : r.kind = dockCloseKind
  parsed : c.fromStr r.payload = some p
  names : p.fieldStr "dock_id" = some dockId

structure CloseResult.Agrees (result other : CloseResult) : Prop where
  cost : result.costUsdMicros = other.costUsdMicros
  commits : result.commitCount = other.commitCount
  bucket : result.bucket = other.bucket
  time : result.closedAtMs = other.closedAtMs

/-- A dock has one close record at most, and it tells the attribution of the records
before it. -/
structure ClosedTruly (log : EventLog) : Prop where
  once : ∀ (i j : Nat) r s p q dockId, log.records[i]? = some r → log.records[j]? = some s → Closes c dockId r p →
    Closes c dockId s q → i = j
  exact : ∀ (i : Nat) r p dockId, log.records[i]? = some r → Closes c dockId r p → ∃ dirExists lane,
    findLane c dirExists ⟨log.records.take i⟩ dockId = some lane ∧
      (p.intoCloseResult true).Agrees (closeVerdict lane (p.u64At "closed_at_ms"))

/-- The call returned what a close record of its dock says. -/
def CloseThread.Told (log : EventLog) : CloseThread → Prop
  | returned dockId (.ok result) => ∃ r ∈ log.records, ∃ p, Closes c dockId r p ∧ result.Agrees (p.intoCloseResult true)
  | _ => True

variable {c}

variable {log : EventLog} {p : Value}

theorem mem_dockPayloads {kind dockId : String} :
    p ∈ dockPayloads c kind log dockId ↔
      ∃ r ∈ log.records, r.kind = kind ∧ c.fromStr r.payload = some p ∧ p.fieldStr "dock_id" = some dockId := by
  simp only [dockPayloads, List.mem_filter, List.mem_filterMap, decide_eq_true_eq]
  constructor
  · rintro ⟨⟨r, ⟨hr, hk⟩, hp⟩, hd⟩
    exact ⟨r, hr, hk, hp, hd⟩
  · rintro ⟨r, hr, hk, hp, hd⟩
    exact ⟨⟨r, ⟨hr, hk⟩, hp⟩, hd⟩

variable {dockId : String}

theorem exists_closes (h : existingClose c log dockId = some p) : ∃ r ∈ log.records, Closes c dockId r p := by
  obtain ⟨r, hr, hk, hp, hd⟩ := mem_dockPayloads.mp (List.mem_of_mem_head? h)
  exact ⟨r, hr, hk, hp, hd⟩

theorem not_closes (h : existingClose c log dockId = none) {r : EventRecord} (hr : r ∈ log.records) :
    ¬ Closes c dockId r p := by
  intro hclose
  have hmem := mem_dockPayloads.mpr ⟨r, hr, hclose.kind, hclose.parsed, hclose.names⟩
  rw [List.head?_eq_none_iff.mp h] at hmem
  cases hmem

theorem closePayload_printable (lane : DockAttribution) (now : Nat) :
    (closePayload (closeVerdict lane now)).Printable 127 := by
  have hword (n : Nat) : (Number.posInt (n % 2 ^ 64)).Printable := Nat.mod_lt n (by decide)
  refine .object (by simp) fun f hf => ?_
  simp only [List.mem_cons, List.not_mem_nil, or_false] at hf
  rcases hf with rfl | rfl | rfl | rfl | rfl | rfl
  · exact .string _
  · exact .string _
  · exact .number (hword _)
  · exact .string _
  · exact .number (hword _)
  · exact .number (hword _)

theorem u64At_canonicalizeValue {depth : Nat} {v : Value} (hv : v.Printable depth) {key : String} {n : Nat}
    (h : v.get key = some (.number (.posInt n))) : (canonicalizeValue v).u64At key = n := by
  rw [Value.u64At, get_canonicalizeValue hv, h]
  simp [canonicalizeValue]

theorem fieldStr_closePayload (lane : DockAttribution) (now : Nat) :
    (canonicalizeValue (closePayload (closeVerdict lane now))).fieldStr "dock_id" = some lane.dockId := by
  rw [fieldStr_canonicalizeValue (closePayload_printable lane now)]
  simp [closePayload, Value.fieldStr, closeVerdict]

theorem intoCloseResult_closePayload (lane : DockAttribution) (now : Nat) :
    ((canonicalizeValue (closePayload (closeVerdict lane now))).intoCloseResult true).Agrees
      (closeVerdict lane now) := by
  have hp := closePayload_printable lane now
  constructor
  · exact @u64At_canonicalizeValue _ _ hp "cost_usd_micros" _ (by simp [closePayload])
  · exact @u64At_canonicalizeValue _ _ hp "commit_count" _ (by simp [closePayload])
  · simp only [Value.intoCloseResult, fieldStr_canonicalizeValue hp]
    simp [closePayload, Value.fieldStr, closeVerdict]
  · exact @u64At_canonicalizeValue _ _ hp "closed_at_ms" _ (by simp [closePayload])

theorem settleClose_of_open (hc : c.Json) (h : existingClose c log dockId = none) (lane : DockAttribution)
    (now : Nat) : ∃ r : EventRecord, r.kind = dockCloseKind ∧
      c.fromStr r.payload = some (canonicalizeValue (closePayload (closeVerdict lane now))) ∧
      settleClose c log dockId (closeVerdict lane now) = (.ok (closeVerdict lane now), ⟨log.records ++ [r]⟩) := by
  have hp := closePayload_printable lane now
  refine ⟨_, rfl, ?_, by rw [settleClose, h]; rfl⟩
  simp only [EventLog.nextRecord, canonicalJson_print hc hp, Option.getD_some]
  exact hc.reads_back _ hp.canonicalize

theorem dockId_of_findLane {dirExists : String → Bool} {lane : DockAttribution}
    (h : findLane c dirExists log dockId = some lane) : lane.dockId = dockId := by
  have hfound := List.find?_some h
  exact of_decide_eq_true hfound

theorem ClosedTruly.concat (h : ClosedTruly c log) {r : EventRecord}
    (hopen : ∀ dockId p, Closes c dockId r p → existingClose c log dockId = none)
    (hexact : ∀ dockId p, Closes c dockId r p → ∃ dirExists lane, findLane c dirExists log dockId = some lane ∧
      (p.intoCloseResult true).Agrees (closeVerdict lane (p.u64At "closed_at_ms"))) :
    ClosedTruly c ⟨log.records ++ [r]⟩ := by
  constructor
  · intro i j a b p q dockId hi hj ha hb
    rcases getElem?_concat_cases hi with hi' | ⟨rfl, rfl⟩
    · rcases getElem?_concat_cases hj with hj' | ⟨rfl, rfl⟩
      · exact h.once i j a b p q dockId hi' hj' ha hb
      · exact absurd ha (not_closes (hopen dockId q hb) (List.mem_of_getElem? hi'))
    · rcases getElem?_concat_cases hj with hj' | ⟨rfl, rfl⟩
      · exact absurd hb (not_closes (hopen dockId p ha) (List.mem_of_getElem? hj'))
      · rfl
  · intro i a p dockId hi ha
    rcases getElem?_concat_cases hi with hi | ⟨rfl, rfl⟩
    · have hlt := (List.getElem?_eq_some_iff.mp hi).1
      rw [List.take_append_of_le_length hlt.le]
      exact h.exact i a p dockId hi ha
    · rw [List.take_left]
      exact hexact dockId p ha

/-- What a call has established, as long as it is quiet. -/
def CloseThread.Sound (c : Crates) (log : EventLog) : CloseThread → Prop
  | .called _ => True
  | .unclosed dockId seen => existingClose c seen dockId = none
  | .judged dockId seen result => existingClose c seen dockId = none ∧
      ∃ dirExists lane now, findLane c dirExists seen dockId = some lane ∧ result = closeVerdict lane now
  | .returned dockId result => (CloseThread.returned dockId result).Told c log

variable {log' : EventLog}

theorem CloseThread.Told.mono (hsub : log.records ⊆ log'.records) {t : CloseThread} (h : t.Told c log) :
    t.Told c log' := by
  cases t with
  | returned dockId result =>
    cases result with
    | error e => trivial
    | ok result =>
      obtain ⟨r, hr, hp⟩ := h
      exact ⟨r, hsub hr, hp⟩
  | called | unclosed | judged => trivial

theorem CloseThread.Sound.mono (hsub : log.records ⊆ log'.records) {t : CloseThread} (h : t.Sound c log) :
    t.Sound c log' := by
  cases t with
  | returned dockId result => exact CloseThread.Told.mono hsub h
  | called | unclosed | judged => exact h

theorem CloseThread.QuietAct.keeps (hc : c.Json) {t t' : CloseThread} (hlog : ClosedTruly c log)
    (ht : t.Sound c log) (h : t.QuietAct c log log' t') :
    ClosedTruly c log' ∧ t'.Sound c log' ∧ log.records ⊆ log'.records := by
  obtain ⟨hquiet, hact⟩ := h
  cases hact with
  | replay hp =>
    obtain ⟨r, hr, hclose⟩ := exists_closes hp
    exact ⟨hlog, ⟨r, hr, _, hclose, rfl, rfl, rfl, rfl⟩, fun _ => id⟩
  | unclosed hopen => exact ⟨hlog, hopen, fun _ => id⟩
  | missing | fail => exact ⟨hlog, trivial, fun _ => id⟩
  | judge dirExists hlane now =>
    obtain rfl : log = _ := hquiet
    exact ⟨hlog, ⟨ht, dirExists, _, now, hlane, rfl⟩, fun _ => id⟩
  | settle seen dockId result =>
    obtain rfl : log = seen := hquiet
    obtain ⟨hopen, dirExists, lane, now, hlane, rfl⟩ := ht
    obtain ⟨r, hkind, hparsed, hsettle⟩ := settleClose_of_open hc hopen lane now
    rw [hsettle]
    have hagrees := intoCloseResult_closePayload lane now
    have hself : Closes c dockId r (canonicalizeValue (closePayload (closeVerdict lane now))) :=
      ⟨hkind, hparsed, by rw [fieldStr_closePayload]; exact congrArg some (dockId_of_findLane hlane)⟩
    have hnames : ∀ d p, Closes c d r p →
        p = canonicalizeValue (closePayload (closeVerdict lane now)) ∧ d = dockId := by
      intro d p hd
      obtain rfl := Option.some.inj (hd.parsed.symm.trans hparsed)
      exact ⟨rfl, Option.some.inj (hd.names.symm.trans hself.names)⟩
    refine ⟨hlog.concat (fun d p hd => ?_) fun d p hd => ?_, ?_, List.subset_append_left _ _⟩
    · obtain ⟨-, rfl⟩ := hnames d p hd
      exact hopen
    · obtain ⟨rfl, rfl⟩ := hnames d p hd
      refine ⟨dirExists, lane, hlane, hagrees.cost, hagrees.commits, hagrees.bucket, ?_⟩
      exact hagrees.time.trans (Nat.mod_mod now _).symm |>.trans (congrArg (· % 2 ^ 64) hagrees.time.symm)
    · exact ⟨r, List.mem_append_right _ (List.mem_singleton_self r), _, hself, hagrees.cost.symm,
        hagrees.commits.symm, hagrees.bucket.symm, hagrees.time.symm⟩

theorem OtherAppend.keeps (hlog : ClosedTruly c log) (h : OtherAppend c log log') :
    ClosedTruly c log' ∧ log.records ⊆ log'.records := by
  cases h with
  | append hk principalChain payload recordedAt =>
    refine ⟨hlog.concat (fun d p hd => absurd hd.kind hk) fun d p hd => absurd hd.kind hk, ?_⟩
    exact List.subset_append_left _ _

/-- Any number of calls, for any docks and spawned at any time, and other appends. -/
abbrev CloseRun (c : Crates) (act : EventLog → CloseThread → EventLog → CloseThread → Prop) :
    System EventLog CloseThread → System EventLog CloseThread → Prop :=
  System.Reachable (fun t => ∃ dockId, t = CloseThread.called dockId) (OtherAppend c) fun _ => act

/-- In every interleaving in which nothing is appended between the first read of a
call and its locked section, close records are true and unique and the calls return
what they say. -/
theorem quiet_closes_tell_truth (hc : c.Json) {start : EventLog} (hstart : ClosedTruly c start)
    {s : System EventLog CloseThread} (h : CloseRun c (CloseThread.QuietAct c) ⟨start, []⟩ s) :
    ClosedTruly c s.shared ∧ ∀ t ∈ s.threads, t.Told c s.shared := by
  have hholds : s.Holds (fun _ log => ClosedTruly c log) fun _ log t => t.Sound c log := by
    refine System.Reachable.holds ?_ ?_ ?_ h ⟨hstart, fun i t hi => by simp at hi⟩
    · rintro n log t hlog ⟨dockId, rfl⟩
      exact ⟨hlog, trivial⟩
    · intro n log log' hlog henv
      obtain ⟨hlog', hsub⟩ := henv.keeps hlog
      exact ⟨hlog', fun i t ht => ht.mono hsub⟩
    · intro n i log t log' t' hlog _ ht hact
      obtain ⟨hlog', ht', hsub⟩ := hact.keeps hc hlog ht
      exact ⟨hlog', ht', fun j u _ hu => hu.mono hsub⟩
  refine ⟨hholds.1, fun t ht => ?_⟩
  obtain ⟨i, hi⟩ := List.mem_iff_getElem?.mp ht
  have hsound := hholds.2 i t hi
  cases t with
  | returned dockId result => exact hsound
  | called | unclosed | judged => trivial

def dockedLog : EventLog :=
  ⟨[⟨0, "", "", "dock.record", [], "\x7b\"dock_id\":\"d\",\"branch\":\"b\"\x7d", 0⟩]⟩

def openLane : DockAttribution :=
  ⟨"d", "b", "ghost", "", 0, 0, .unlabeled⟩

theorem closedTruly_dockedLog : ClosedTruly reference dockedLog := by
  have hkind : ∀ r ∈ dockedLog.records, r.kind ≠ dockCloseKind := by decide
  exact ⟨fun i j r s p q d hi hj hr hs => absurd hr.kind (hkind r (List.mem_of_getElem? hi)),
    fun i r p d hi hr => absurd hr.kind (hkind r (List.mem_of_getElem? hi))⟩

theorem judged_dockedLog : CloseRun reference (CloseThread.QuietAct reference) ⟨dockedLog, []⟩
    ⟨dockedLog, [.judged "d" dockedLog (closeVerdict openLane 7)]⟩ := by
  have hlane : findLane reference (fun _ => true) dockedLog "d" = some openLane := by decide +kernel
  have hopen : existingClose reference dockedLog "d" = none := rfl
  exact ((Relation.ReflTransGen.single (.spawn ⟨"d", rfl⟩)).tail
    (.act (i := 0) rfl ⟨trivial, .unclosed hopen⟩)).tail (.act (i := 0) rfl ⟨rfl, .judge _ hlane 7⟩)

theorem quiet_close_recorded : ∃ s, CloseRun reference (CloseThread.QuietAct reference) ⟨dockedLog, []⟩ s ∧
    s.shared.records.length = 2 ∧ ClosedTruly reference s.shared := by
  have hrun := judged_dockedLog.tail (.act (i := 0) rfl ⟨rfl, .settle dockedLog dockedLog "d" _⟩)
  exact ⟨_, hrun, rfl, (quiet_closes_tell_truth reference_json closedTruly_dockedLog hrun).1⟩

def committedLog : EventLog :=
  (dockedLog.append reference "ref.update" [] "\x7b\"branch\":\"b\",\"target\":\"t\"\x7d" 0).2

theorem commitCount_committedLog {dirExists : String → Bool} {lane : DockAttribution}
    (h : findLane reference dirExists committedLog "d" = some lane) : lane.commitCount = 1 := by
  have hgone : ∀ entry ∈ (DockInputs.readAll (recordsFromEventLog reference committedLog)).allViews.toList,
      entry.2.gitdir = "" := by decide +kernel
  have hlanes : dockLanes dirExists (DockInputs.readAll (recordsFromEventLog reference committedLog)).allViews =
      dockLanes (fun _ => true) (DockInputs.readAll (recordsFromEventLog reference committedLog)).allViews :=
    List.map_congr_left fun entry hmem => by simp [stateOf, hgone entry hmem]
  have hcount : (findLane reference (fun _ => true) committedLog "d").map DockAttribution.commitCount = some 1 := by
    decide +kernel
  have hsame : findLane reference (fun _ => true) committedLog "d" = some lane := by
    rw [← h]
    simp only [findLane, attributeOn, hlanes]
  rw [hsame] at hcount
  exact Option.some.inj hcount

theorem CloseRun.of_quiet {s s' : System EventLog CloseThread} (h : CloseRun c (CloseThread.QuietAct c) s s') :
    CloseRun c (CloseThread.Act c) s s' := by
  induction h with
  | refl => exact .refl
  | tail _ hstep ih =>
    refine ih.tail ?_
    cases hstep with
    | spawn ht => exact .spawn ht
    | env he => exact .env he
    | act hi hact => exact .act hi hact.2

/-- A commit that is captured between the verdict and the lock is missing from the record. -/
theorem stale_close_recorded : ∃ s, CloseRun reference (CloseThread.Act reference) ⟨dockedLog, []⟩ s ∧
    ¬ ClosedTruly reference s.shared := by
  have happend : OtherAppend reference dockedLog committedLog := .append dockedLog (by decide) _ _ _
  have hrun := (judged_dockedLog.of_quiet.tail (.env happend)).tail
    (.act (i := 0) rfl (.settle committedLog dockedLog "d" _))
  refine ⟨_, hrun, fun htruly => ?_⟩
  have hopen : existingClose reference committedLog "d" = none := by decide +kernel
  obtain ⟨r, hkind, hparsed, hsettle⟩ := settleClose_of_open reference_json hopen openLane 7
  have hcloses : Closes reference "d" r _ := ⟨hkind, hparsed, fieldStr_closePayload openLane 7⟩
  rw [hsettle] at htruly
  obtain ⟨dirExists, lane, hlane, hagrees⟩ := htruly.exact 2 r _ "d" rfl hcloses
  have hcommits : lane.commitCount % 2 ^ 64 = openLane.commitCount % 2 ^ 64 :=
    hagrees.commits.symm.trans (intoCloseResult_closePayload openLane 7).commits
  rw [commitCount_committedLog hlane] at hcommits
  exact absurd hcommits (by decide)

end Hugit

import Hugit.EventLog
import Std.Data.ExtTreeMap.Lemmas

/-! Attribution of measured cost and of captured commits to the docks of a log. -/

namespace Hugit

open Std

inductive Bucket where
  | matched
  | investigated
  | unlabeled
  | reconciled
  deriving DecidableEq

structure DockView where
  branch : String
  origin : String
  gitdir : String
  closed : Bool
  createdTs : Nat

structure DockAttribution where
  dockId : String
  branch : String
  state : String
  origin : String
  costUsdMicros : Nat
  commitCount : Nat
  bucket : Bucket
  deriving DecidableEq

structure AttributionSummary where
  docks : List DockAttribution
  reconciledCost : Nat
  reconciledLateCost : Nat
  tamperedCost : Nat
  unlabeledCost : Nat
  unlabeledCommitCount : Nat
  repoScopeLinkedBranches : List String

abbrev DockRecords := List (String × Value)

def recordsFromEventLog (c : Crates) (log : EventLog) : DockRecords :=
  log.records.map fun r => (r.kind, (c.fromStr r.payload).getD .null)

namespace Value

def textAt (v : Value) (key : String) : String := (v.fieldStr key).getD ""

def u64At (v : Value) (key : String) : Nat := ((v.get key).bind asU64).getD 0

end Value

/-- Unsigned 64-bit addition without overflow checks. -/
def wrappingAdd (m n : Nat) : Nat := (m + n) % 2 ^ 64

def costSampleV1 (p : Value) : Value :=
  .object [("dock_id", .string (p.textAt "dock_id")), ("model", .string (p.textAt "model")),
    ("input_tokens", .number (.posInt (p.u64At "input_tokens"))),
    ("output_tokens", .number (.posInt (p.u64At "output_tokens"))),
    ("cost_usd_micros", .number (.posInt (p.u64At "cost_usd_micros"))),
    ("ts_ms", .number (.posInt (p.u64At "ts_ms"))), ("run_id", .string (p.textAt "run_id"))]

def verifySampleHash (c : Crates) (p : Value) : Bool :=
  let recorded := p.textAt "content_hash"
  recorded ≠ "" && hexEncode (c.digest (utf8 (c.print (costSampleV1 p)))) = recorded

def isBranchCommit (p : Value) : Bool :=
  (p.get "checkout").isNone && (p.get "attempt").isNone && (p.get "merged_from").isNone &&
    (p.get "target").isSome && p.textAt "branch" ≠ ""

def stateOf (dirExists : String → Bool) (gitdir : String) (closed : Bool) : String :=
  if gitdir = "" || !dirExists gitdir then "ghost" else if closed then "closed" else "open"

structure DockInputs where
  views : ExtTreeMap String DockView
  closedIds : List String
  branchCommits : ExtTreeMap String Nat
  samples : List Value

namespace DockInputs

def empty : DockInputs := ⟨∅, [], ∅, []⟩

def view (p : Value) : DockView :=
  ⟨p.textAt "branch", p.textAt "origin", p.textAt "gitdir", false, p.u64At "created_ts"⟩

def read (inputs : DockInputs) (record : String × Value) : DockInputs :=
  let (kind, p) := record
  if kind = "dock.record" then
    if p.textAt "dock_id" = "" then inputs
    else { inputs with views := inputs.views.insert (p.textAt "dock_id") (view p) }
  else if kind = "dock.close" then
    if p.textAt "dock_id" = "" then inputs
    else { inputs with closedIds := inputs.closedIds ++ [p.textAt "dock_id"] }
  else if kind = "cost.sample" then { inputs with samples := inputs.samples ++ [p] }
  else if kind = "ref.update" ∧ isBranchCommit p then
    let b := p.textAt "branch"
    { inputs with branchCommits := inputs.branchCommits.insert b (inputs.branchCommits.getD b 0 + 1) }
  else inputs

def readAll (records : DockRecords) : DockInputs :=
  records.foldl read empty

def markClosed (views : ExtTreeMap String DockView) (id : String) : ExtTreeMap String DockView :=
  match views[id]? with
  | some v => views.insert id { v with closed := true }
  | none => views

def allViews (inputs : DockInputs) : ExtTreeMap String DockView :=
  inputs.closedIds.foldl markClosed inputs.views

end DockInputs

def dockLanes (dirExists : String → Bool) (views : ExtTreeMap String DockView) : List DockAttribution :=
  views.toList.map fun entry =>
    ⟨entry.1, entry.2.branch, stateOf dirExists entry.2.gitdir entry.2.closed, entry.2.origin, 0, 0, .unlabeled⟩

def updateFirst {α : Type} (p : α → Bool) (f : α → α) : List α → List α
  | [] => []
  | a :: as => if p a then f a :: as else a :: updateFirst p f as

def addCost (dockId : String) (cost : Nat) : List DockAttribution → List DockAttribution :=
  updateFirst (fun d => d.dockId = dockId) fun d => { d with costUsdMicros := wrappingAdd d.costUsdMicros cost }

structure CostLanes where
  docks : List DockAttribution
  reconciled : Nat
  reconciledLate : Nat
  tampered : Nat
  unlabeled : Nat

def racedAhead (view : DockView) (s : Value) : Bool :=
  0 < view.createdTs && 0 < s.u64At "ts_ms" && s.u64At "ts_ms" ≤ view.createdTs

def addSample (c : Crates) (views : ExtTreeMap String DockView) (lanes : CostLanes) (s : Value) : CostLanes :=
  let cost := s.u64At "cost_usd_micros"
  let dockId := s.textAt "dock_id"
  if cost = 0 then lanes
  else if !verifySampleHash c s then { lanes with tampered := wrappingAdd lanes.tampered cost }
  else if dockId = "" then { lanes with unlabeled := wrappingAdd lanes.unlabeled cost }
  else
    match views[dockId]? with
    | some view =>
      if racedAhead view s then { lanes with reconciledLate := wrappingAdd lanes.reconciledLate cost }
      else { lanes with docks := addCost dockId cost lanes.docks }
    | none => { lanes with reconciled := wrappingAdd lanes.reconciled cost }

structure CommitLanes where
  docks : List DockAttribution
  unlabeled : Nat
  linked : List String

def linkCommits (dockId : String) (count : Nat) : List DockAttribution → List DockAttribution :=
  updateFirst (fun d => d.dockId = dockId) fun d => { d with commitCount := d.commitCount + count }

def creditFirst (count : Nat) : List String → List DockAttribution → List DockAttribution
  | [], docks => docks
  | id :: ids, docks =>
    if docks.any fun d => d.dockId = id && d.commitCount = 0 then
      updateFirst (fun d => d.dockId = id && d.commitCount = 0) (fun d => { d with commitCount := count }) docks
    else creditFirst count ids docks

def addBranch (repoScope : Option String) (lanes : CommitLanes) (entry : String × Nat) : CommitLanes :=
  let (branch, count) := entry
  let idsOnBranch := (lanes.docks.filter fun d => d.branch = branch).map DockAttribution.dockId
  let sum := ((lanes.docks.filter fun d => d.branch = branch).map DockAttribution.costUsdMicros).foldl wrappingAdd 0
  if 0 < sum then { lanes with docks := creditFirst count idsOnBranch lanes.docks }
  else if idsOnBranch = [] then
    match repoScope with
    | some rs =>
      if lanes.docks.any fun d => d.dockId = rs then
        { lanes with docks := linkCommits rs count lanes.docks, linked := lanes.linked ++ [branch] }
      else lanes
    | none => { lanes with unlabeled := lanes.unlabeled + count }
  else { lanes with docks := creditFirst count idsOnBranch lanes.docks }

def finalizeBucket (landedBranches : List String) (d : DockAttribution) : DockAttribution :=
  if 0 < d.costUsdMicros then
    { d with bucket := if d.branch ∈ landedBranches then .matched else .investigated }
  else d

def attributeOn (c : Crates) (dirExists : String → Bool) (records : DockRecords) : AttributionSummary :=
  let inputs := DockInputs.readAll records
  let views := inputs.allViews
  let costs := inputs.samples.foldl (addSample c views) ⟨dockLanes dirExists views, 0, 0, 0, 0⟩
  let repoScope := (views.toList.find? fun entry => entry.2.origin = "repo").map Prod.fst
  let commits := inputs.branchCommits.toList.foldl (addBranch repoScope) ⟨costs.docks, 0, []⟩
  let landedBranches := (commits.docks.filter fun d => 0 < d.commitCount).map DockAttribution.branch
  ⟨commits.docks.map (finalizeBucket landedBranches), costs.reconciled, costs.reconciledLate, costs.tampered,
    costs.unlabeled, commits.unlabeled, commits.linked⟩

end Hugit

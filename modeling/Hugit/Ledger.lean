import Hugit.ExportSchema
import Hugit.LastWrite
import Hugit.TextRedaction

/-! The ledger of a log: one entry per landed intent, marked by the verdicts that
are linked to it over its raw id. -/

namespace Hugit

open Std

def verdictRecordedKind : String := "verdict.recorded"

namespace Verdict

def debug : Verdict → String
  | approve => "Approve"
  | fixFirst => "FixFirst"
  | reject => "Reject"

def rejects : Verdict → Bool
  | approve => false
  | fixFirst | reject => true

/-- The outcome a stored claim names; any unknown text rejects. -/
def ofClaim (result : String) : Verdict :=
  if result = "approve" then approve
  else if result = "fix_first" then fixFirst
  else reject

theorem rejects_eq_false {v : Verdict} : v.rejects = false ↔ v = approve := by
  cases v <;> simp [rejects]

end Verdict

abbrev LensMap := ExtTreeMap String Verdict compare

/-- Within one record a rejection of a lens is not cleared by a later approval. -/
def mergeLensOutcome (slot : LensMap) (lens : String) (incoming : Verdict) : LensMap :=
  match slot[lens]? with
  | none => slot.insert lens incoming
  | some existing => if existing.rejects = true ∧ incoming = .approve then slot else slot.insert lens incoming

theorem getElem?_mergeLensOutcome (slot : LensMap) (lens : String) (incoming : Verdict) (k : String) :
    (mergeLensOutcome slot lens incoming)[k]? =
      if lens = k ∧ ¬ (slot[lens]?.any Verdict.rejects = true ∧ incoming = .approve) then some incoming
      else slot[k]? := by
  unfold mergeLensOutcome
  cases hs : slot[lens]? with
  | none => simp [ExtTreeMap.getElem?_insert]
  | some existing =>
    by_cases hk : existing.rejects = true ∧ incoming = .approve
    · simp [hk]
    · simp [hk, ExtTreeMap.getElem?_insert]

theorem getElem?_merged_of_reject {ws : List (String × Verdict)} {lens : String} {v : Verdict}
    (h : lastWrite lens ws = some v) (hv : v ≠ .approve) :
    (ws.foldl (fun slot w => mergeLensOutcome slot w.1 w.2) ∅ : LensMap)[lens]? = some v := by
  induction ws using List.reverseRecOn with
  | nil => cases h
  | append_singleton ws w ih =>
    rw [List.foldl_concat, getElem?_mergeLensOutcome]
    rw [lastWrite_concat] at h
    by_cases hk : w.1 = lens
    · rw [if_pos hk] at h
      obtain rfl := Option.some.inj h
      rw [if_pos ⟨hk, fun hh => hv hh.2⟩]
    · rw [if_neg hk] at h
      rw [if_neg fun hh => hk hh.1, ih h]

theorem getElem?_merged_of_agree {ws : List (String × Verdict)} (h : ∀ p ∈ ws, ∀ q ∈ ws, p.1 = q.1 → p.2 = q.2)
    (lens : String) :
    (ws.foldl (fun slot w => mergeLensOutcome slot w.1 w.2) ∅ : LensMap)[lens]? = lastWrite lens ws := by
  induction ws using List.reverseRecOn with
  | nil => simp
  | append_singleton ws w ih =>
    have ih := ih fun p hp q hq => h p (List.mem_append_left _ hp) q (List.mem_append_left _ hq)
    rw [List.foldl_concat, getElem?_mergeLensOutcome, lastWrite_concat]
    by_cases hk : w.1 = lens
    · rw [hk, ih, if_pos rfl]
      refine if_pos ⟨rfl, fun hh => ?_⟩
      -- an earlier rejection of the lens is not followed by an approval
      obtain ⟨u, hu, hreject⟩ := (Option.any_eq_true _ _).mp hh.1
      have hsame := h _ (List.mem_append_left _ (mem_of_lastWrite hu)) w (by simp) hk.symm
      rw [show u = .approve from hsame.trans hh.2] at hreject
      cases hreject
    · rw [if_neg hk, if_neg fun hh => hk hh.1, ih]

structure VerdictView where
  intent : String
  lens : String
  outcome : String
  claimsChecked : List String
  deriving DecidableEq

def VerdictView.fromVerdictObject (m : Measures) (vo : VerdictObject) : VerdictView where
  intent := redactText m vo.intent
  lens := redactText m vo.lens
  outcome := vo.verdict.debug
  claimsChecked := vo.claimsChecked.map (redactText m)

structure Ledger.Entry where
  campaign : String
  intentId : String
  charter : String
  seq : Nat
  recordedAt : Nat
  deepLinkTarget : String
  proven : Bool
  rejected : Bool
  verdict : Option VerdictView
  deriving DecidableEq

structure Ledger where
  entries : List Ledger.Entry

def splitClaim (claim : String) : Option (String × String) :=
  (splitOnce ':' claim.toList).map fun p => (String.ofList p.1, String.ofList p.2)

namespace VerdictObject

def parsedClaims (vo : VerdictObject) : List (String × Verdict) :=
  (vo.claimsChecked.filterMap splitClaim).map fun p => (p.1, .ofClaim p.2)

/-- What one record says of each lens. A record without a readable claim speaks
for the lens `panel`. -/
def lensOutcomes (vo : VerdictObject) : LensMap :=
  if vo.parsedClaims = [] then mergeLensOutcome ∅ "panel" vo.verdict
  else vo.parsedClaims.foldl (fun slot w => mergeLensOutcome slot w.1 w.2) ∅

end VerdictObject

def EventRecord.verdictObject (c : Crates) (r : EventRecord) : Option VerdictObject :=
  if r.kind = verdictRecordedKind then (c.fromStr r.payload).bind VerdictObject.serde.ofValue else none

def EventRecord.landed (c : Crates) (r : EventRecord) : Option Value :=
  if r.kind = intentLandedKind then c.fromStr r.payload else none

namespace Ledger

def rawIntentId (v : Value) : String :=
  (v.fieldStr "intent_id").getD ""

def rawCampaign (v : Value) : String :=
  (v.fieldStr "campaign").getD "default"

def landedEntry (m : Measures) (r : EventRecord) (v : Value) : Entry where
  campaign := redactText m (rawCampaign v)
  intentId := redactText m (rawIntentId v)
  charter := redactText m ((v.fieldStr "charter").getD "")
  seq := r.seq
  recordedAt := r.recordedAt
  deepLinkTarget := redactText m ((v.fieldStr "deep_link_target").getD (rawIntentId v))
  proven := false
  rejected := false
  verdict := none

structure LandedPass where
  entries : List Entry
  rawIdToIdx : ExtTreeMap String Nat compare

def collectLanded (c : Crates) (m : Measures) (pass : LandedPass) (r : EventRecord) : LandedPass :=
  match r.landed c with
  | none => pass
  | some v => ⟨pass.entries ++ [landedEntry m r v], pass.rawIdToIdx.insert (rawIntentId v) pass.entries.length⟩

structure VerdictPass where
  entries : List Entry
  lensState : ExtTreeMap Nat LensMap compare

def commit (perLens thisRecord : LensMap) : LensMap :=
  thisRecord.toList.foldl (fun perLens w => perLens.insert w.1 w.2) perLens

def attachVerdict (c : Crates) (m : Measures) (rawIdToIdx : ExtTreeMap String Nat compare) (pass : VerdictPass)
    (r : EventRecord) : VerdictPass :=
  match r.verdictObject c with
  | none => pass
  | some vo =>
    match rawIdToIdx[vo.intent]? with
    | none => pass
    | some idx =>
      ⟨pass.entries.modify idx fun e => { e with verdict := some (.fromVerdictObject m vo) },
        pass.lensState.insert idx (commit (pass.lensState[idx]?.getD ∅) vo.lensOutcomes)⟩

def resolve (perLens : LensMap) (e : Entry) : Entry :=
  if perLens.toList.any (·.2.rejects) then { e with rejected := true, proven := false }
  else if perLens.toList.any (·.2 = .approve) then { e with proven := true, rejected := false }
  else e

def fromRecords (c : Crates) (m : Measures) (records : List EventRecord) : Ledger :=
  let landed := records.foldl (collectLanded c m) ⟨[], ∅⟩
  let judged := records.foldl (attachVerdict c m landed.rawIdToIdx) ⟨landed.entries, ∅⟩
  ⟨judged.lensState.toList.foldl (fun entries w => entries.modify w.1 (resolve w.2)) judged.entries⟩

def byCampaign (ledger : Ledger) (campaign : String) : List Entry :=
  ledger.entries.filter (·.campaign = campaign)

def asked (ledger : Ledger) (campaign : String) : Nat :=
  (ledger.byCampaign campaign).length

def done (ledger : Ledger) (campaign : String) : Nat :=
  ledger.asked campaign

def proven (ledger : Ledger) (campaign : String) : Nat :=
  ((ledger.byCampaign campaign).filter (·.proven)).length

def rejected (ledger : Ledger) (campaign : String) : Nat :=
  ((ledger.byCampaign campaign).filter (·.rejected)).length

section Landings

variable (c : Crates) (m : Measures)

def landings (records : List EventRecord) : List (EventRecord × Value) :=
  records.filterMap fun r => (r.landed c).map (r, ·)

def lastLanded (records : List EventRecord) (id : String) : Option Nat :=
  lastWrite id ((landings c records).zipIdx.map fun l => (rawIntentId l.1.2, l.2))

theorem landings_append (records later : List EventRecord) :
    landings c (records ++ later) = landings c records ++ landings c later :=
  List.filterMap_append

theorem landings_concat (records : List EventRecord) (r : EventRecord) :
    landings c (records ++ [r]) = landings c records ++ ((r.landed c).map (r, ·)).toList := by
  rw [landings_append]
  refine congrArg (landings c records ++ ·) ?_
  cases h : r.landed c <;> simp [landings, h]

theorem entries_collectLanded (records : List EventRecord) :
    (records.foldl (collectLanded c m) ⟨[], ∅⟩).entries =
      (landings c records).map fun l => landedEntry m l.1 l.2 := by
  induction records using List.reverseRecOn with
  | nil => rfl
  | append_singleton records r ih =>
    rw [List.foldl_concat, collectLanded, landings_concat]
    cases r.landed c <;> simp [ih]

theorem rawIdToIdx_collectLanded (records : List EventRecord) (id : String) :
    (records.foldl (collectLanded c m) ⟨[], ∅⟩).rawIdToIdx[id]? = lastLanded c records id := by
  induction records using List.reverseRecOn with
  | nil => simp [lastLanded, landings]
  | append_singleton records r ih =>
    have hlength := congrArg List.length (entries_collectLanded c m records)
    rw [List.length_map] at hlength
    rw [List.foldl_concat, collectLanded, lastLanded, landings_concat]
    cases r.landed c with
    | none => simpa [lastLanded] using ih
    | some v =>
      rw [ExtTreeMap.getElem?_insert, ih, hlength]
      simp [List.zipIdx_append, lastLanded]

variable {c} {records : List EventRecord} {id : String} {i : Nat}

theorem landing_of_lastLanded (h : lastLanded c records id = some i) :
    ∃ l, (landings c records)[i]? = some l ∧ rawIntentId l.2 = id := by
  obtain ⟨⟨l, j⟩, hl, he⟩ := List.mem_map.mp (mem_of_lastWrite h)
  obtain ⟨rfl, rfl⟩ := Prod.mk.inj he
  exact ⟨l, List.mem_zipIdx_iff_getElem?.mp hl, rfl⟩

theorem lastLanded_of_landing {l : EventRecord × Value} (h : (landings c records)[i]? = some l) :
    ∃ j, lastLanded c records (rawIntentId l.2) = some j := by
  refine Option.ne_none_iff_exists'.mp fun hnone => ?_
  have hmem : (l, i) ∈ (landings c records).zipIdx := List.mem_zipIdx_iff_getElem?.mpr h
  exact lastWrite_eq_none.mp hnone _ (List.mem_map_of_mem hmem) rfl

theorem lastLanded_of_nodup (hnd : ((landings c records).map fun l => rawIntentId l.2).Nodup)
    {l : EventRecord × Value} (h : (landings c records)[i]? = some l) :
    lastLanded c records (rawIntentId l.2) = some i := by
  obtain ⟨j, hj⟩ := lastLanded_of_landing h
  obtain ⟨l', hl', he⟩ := landing_of_lastLanded hj
  obtain ⟨hj', hget'⟩ := List.getElem?_eq_some_iff.mp hl'
  obtain ⟨hi, hget⟩ := List.getElem?_eq_some_iff.mp h
  have hplace : j = i := by
    have hj'' : j < ((landings c records).map fun l => rawIntentId l.2).length := by simpa using hj'
    have hi' : i < ((landings c records).map fun l => rawIntentId l.2).length := by simpa using hi
    refine (@List.Nodup.getElem_inj_iff _ _ hnd j hj'' i hi').mp ?_
    simp [hget, hget', he]
  rw [hj, hplace]

end Landings

section Verdicts

variable (c : Crates)

def verdicts (records : List EventRecord) : List VerdictObject :=
  records.filterMap (·.verdictObject c)

theorem verdicts_append (records later : List EventRecord) :
    verdicts c (records ++ later) = verdicts c records ++ verdicts c later :=
  List.filterMap_append

def lensOutcome (objects : List VerdictObject) (lens : String) : Option Verdict :=
  lastWrite lens (objects.flatMap (·.lensOutcomes.toList))

theorem lensOutcome_append (objects later : List VerdictObject) (lens : String) :
    lensOutcome (objects ++ later) lens = (lensOutcome later lens).or (lensOutcome objects lens) := by
  rw [lensOutcome, List.flatMap_append, lastWrite_append]
  rfl

theorem lensOutcome_singleton (vo : VerdictObject) (lens : String) :
    lensOutcome [vo] lens = vo.lensOutcomes[lens]? := by
  rw [lensOutcome, List.flatMap_singleton, lastWrite_toList]

theorem getElem?_commit (perLens thisRecord : LensMap) (lens : String) :
    (commit perLens thisRecord)[lens]? = thisRecord[lens]?.or perLens[lens]? := by
  rw [commit, getElem?_foldl_insert, lastWrite_toList]

variable (m : Measures) (ids : ExtTreeMap String Nat compare)

theorem attachVerdict_cases (pass : VerdictPass) (r : EventRecord) :
    (attachVerdict c m ids pass r = pass ∧ ∀ i, (verdicts c [r]).filter (fun vo => ids[vo.intent]? = some i) = []) ∨
      ∃ vo idx, verdicts c [r] = [vo] ∧ ids[vo.intent]? = some idx ∧ attachVerdict c m ids pass r =
        ⟨pass.entries.modify idx fun e => { e with verdict := some (.fromVerdictObject m vo) },
          pass.lensState.insert idx (commit (pass.lensState[idx]?.getD ∅) vo.lensOutcomes)⟩ := by
  unfold attachVerdict
  cases hv : r.verdictObject c with
  | none => exact .inl ⟨rfl, fun i => by simp [verdicts, hv]⟩
  | some vo =>
    cases hidx : ids[vo.intent]? with
    | none => exact .inl ⟨by simp [hidx], fun i => by simp [verdicts, hv, hidx]⟩
    | some idx => exact .inr ⟨vo, idx, by simp [verdicts, hv], hidx, by simp [hidx]⟩

theorem lensState_step (pass : VerdictPass) (r : EventRecord) (i : Nat) (lens : String) :
    ((attachVerdict c m ids pass r).lensState[i]?.bind (·[lens]?)) =
      (lensOutcome ((verdicts c [r]).filter fun vo => ids[vo.intent]? = some i) lens).or
        (pass.lensState[i]?.bind (·[lens]?)) := by
  rcases attachVerdict_cases c m ids pass r with ⟨he, hnil⟩ | ⟨vo, idx, hvo, hidx, he⟩
  · rw [he, hnil]
    rfl
  · rw [he, hvo, ExtTreeMap.getElem?_insert]
    by_cases hi : idx = i
    · subst hi
      have hlink : [vo].filter (fun vo => ids[vo.intent]? = some idx) = [vo] := by simp [hidx]
      rw [hlink, lensOutcome_singleton, if_pos (compare_self), Option.bind_some, getElem?_commit]
      cases pass.lensState[idx]? <;> simp
    · simp [hidx, hi, lensOutcome]

theorem entries_step (pass : VerdictPass) (r : EventRecord) {i : Nat} {e : Entry} (h : pass.entries[i]? = some e) :
    ∃ view, (attachVerdict c m ids pass r).entries[i]? = some { e with verdict := view } := by
  rcases attachVerdict_cases c m ids pass r with ⟨he, -⟩ | ⟨vo, idx, -, -, he⟩
  · exact ⟨e.verdict, by rw [he, h]⟩
  · rw [he, List.getElem?_modify, h]
    by_cases hi : idx = i
    · exact ⟨some (.fromVerdictObject m vo), by simp [hi]⟩
    · exact ⟨e.verdict, by simp [hi]⟩

theorem length_step (pass : VerdictPass) (r : EventRecord) :
    (attachVerdict c m ids pass r).entries.length = pass.entries.length := by
  rcases attachVerdict_cases c m ids pass r with ⟨he, -⟩ | ⟨vo, idx, -, -, he⟩ <;> simp [he]

variable (entries : List Entry)

theorem lensState_attachVerdict (records : List EventRecord) (i : Nat) (lens : String) :
    ((records.foldl (attachVerdict c m ids) ⟨entries, ∅⟩).lensState[i]?.bind (·[lens]?)) =
      lensOutcome ((verdicts c records).filter fun vo => ids[vo.intent]? = some i) lens := by
  induction records using List.reverseRecOn with
  | nil => simp [verdicts, lensOutcome]
  | append_singleton records r ih =>
    rw [List.foldl_concat, lensState_step, ih, verdicts_append, List.filter_append, lensOutcome_append]

theorem entries_attachVerdict (records : List EventRecord) {i : Nat} {e : Entry} (h : entries[i]? = some e) :
    ∃ view, (records.foldl (attachVerdict c m ids) ⟨entries, ∅⟩).entries[i]? = some { e with verdict := view } := by
  induction records using List.reverseRecOn with
  | nil => exact ⟨e.verdict, h⟩
  | append_singleton records r ih =>
    obtain ⟨view, hview⟩ := ih
    obtain ⟨view', hview'⟩ := entries_step c m ids _ r hview
    exact ⟨view', by rw [List.foldl_concat, hview']⟩

theorem length_attachVerdict (records : List EventRecord) :
    (records.foldl (attachVerdict c m ids) ⟨entries, ∅⟩).entries.length = entries.length := by
  induction records using List.reverseRecOn with
  | nil => rfl
  | append_singleton records r ih => rw [List.foldl_concat, length_step, ih]

end Verdicts

section Marks

def Entry.unmarked (e : Entry) : Entry :=
  { e with proven := false, rejected := false, verdict := none }

/-- The marks of an entry say what the last outcomes of the lenses are. -/
structure Marked (e : Entry) (outcome : String → Option Verdict) : Prop where
  rejected : e.rejected = true ↔ ∃ lens v, outcome lens = some v ∧ v ≠ .approve
  proven : e.proven = true ↔ (∃ lens v, outcome lens = some v) ∧ ∀ lens v, outcome lens = some v → v = .approve

theorem any_toList {perLens : LensMap} {p : Verdict → Bool} :
    perLens.toList.any (fun w => p w.2) = true ↔
      ∃ (lens : String) (v : Verdict), perLens[lens]? = some v ∧ p v = true := by
  simp only [List.any_eq_true, Prod.exists, ExtTreeMap.mem_toList_iff_getElem?_eq_some]

theorem resolve_unmarked (perLens : LensMap) (e : Entry) : (resolve perLens e).unmarked = e.unmarked := by
  rw [resolve]
  split_ifs <;> rfl

theorem resolve_marked (perLens : LensMap) {e : Entry} (hr : e.rejected = false) (hp : e.proven = false) :
    Marked (resolve perLens e) (perLens[·]?) := by
  have hreject : perLens.toList.any (·.2.rejects) = true ↔
      ∃ (lens : String) (v : Verdict), perLens[lens]? = some v ∧ v ≠ .approve := by
    rw [any_toList]
    refine exists_congr fun lens => exists_congr fun v => and_congr_right fun _ => ?_
    rw [Ne, ← Verdict.rejects_eq_false, Bool.not_eq_false]
  have happrove : perLens.toList.any (·.2 = .approve) = true ↔
      ∃ lens : String, perLens[lens]? = some .approve := by
    rw [@any_toList perLens fun v => v = .approve]
    simp
  rw [resolve]
  split_ifs with hany hall
  · obtain ⟨lens, v, hv, hne⟩ := hreject.mp hany
    exact ⟨iff_of_true rfl ⟨lens, v, hv, hne⟩, iff_of_false nofun fun h => hne (h.2 lens v hv)⟩
  · obtain ⟨lens, hv⟩ := happrove.mp hall
    have hclear : ∀ (lens : String) v, perLens[lens]? = some v → v = .approve := fun lens v hv =>
      by_contra fun hne => hany (hreject.mpr ⟨lens, v, hv, hne⟩)
    exact ⟨iff_of_false nofun fun ⟨lens, v, hv, hne⟩ => hne (hclear lens v hv), iff_of_true rfl ⟨⟨lens, _, hv⟩, hclear⟩⟩
  · refine ⟨iff_of_false (by simp [hr]) fun h => hany (hreject.mpr h), iff_of_false (by simp [hp]) fun h => ?_⟩
    obtain ⟨⟨lens, v, hv⟩, hclear⟩ := h
    exact hall (happrove.mpr ⟨lens, hclear lens v hv ▸ hv⟩)

theorem Marked.none {e : Entry} (hr : e.rejected = false) (hp : e.proven = false) : Marked e fun _ => .none :=
  ⟨by simp [hr], by simp [hp]⟩

end Marks

section Entries

variable {c : Crates} {m : Measures} {records : List EventRecord} {i : Nat} {l : EventRecord × Value}

def verdictsFor (c : Crates) (records : List EventRecord) (id : String) : List VerdictObject :=
  (verdicts c records).filter (·.intent = id)

def linkedVerdicts (c : Crates) (records : List EventRecord) (i : Nat) : List VerdictObject :=
  (verdicts c records).filter fun vo => lastLanded c records vo.intent = some i

theorem linkedVerdicts_of_last (h : (landings c records)[i]? = some l)
    (hlast : lastLanded c records (rawIntentId l.2) = some i) :
    linkedVerdicts c records i = verdictsFor c records (rawIntentId l.2) := by
  refine List.filter_congr fun vo _ => decide_eq_decide.mpr ⟨fun hvo => ?_, fun hvo => hvo ▸ hlast⟩
  obtain ⟨l', hl', he⟩ := landing_of_lastLanded hvo
  rw [← he, Option.some.inj (hl'.symm.trans h)]

theorem nodup_keys (state : ExtTreeMap Nat LensMap compare) : (state.toList.map Prod.fst).Nodup := by
  rw [ExtTreeMap.map_fst_toList_eq_keys]
  exact ExtTreeMap.nodup_keys

theorem entry_of_landing (h : (landings c records)[i]? = some l) :
    ∃ e, (fromRecords c m records).entries[i]? = some e ∧ e.unmarked = landedEntry m l.1 l.2 ∧
      Marked e (lensOutcome (linkedVerdicts c records i)) := by
  have hentry : (records.foldl (collectLanded c m) ⟨[], ∅⟩).entries[i]? = some (landedEntry m l.1 l.2) := by
    rw [entries_collectLanded, List.getElem?_map, h]
    rfl
  obtain ⟨view, hview⟩ := entries_attachVerdict c m (records.foldl (collectLanded c m) ⟨[], ∅⟩).rawIdToIdx _ records
    hentry
  have hlens := lensState_attachVerdict c m (records.foldl (collectLanded c m) ⟨[], ∅⟩).rawIdToIdx
    (records.foldl (collectLanded c m) ⟨[], ∅⟩).entries records i
  simp only [rawIdToIdx_collectLanded] at hlens
  rw [fromRecords, getElem?_foldl_modify resolve (nodup_keys _), hview, lastWrite_toList]
  refine ⟨_, rfl, ?_⟩
  cases hstate : (records.foldl (attachVerdict c m (records.foldl (collectLanded c m) ⟨[], ∅⟩).rawIdToIdx)
      ⟨(records.foldl (collectLanded c m) ⟨[], ∅⟩).entries, ∅⟩).lensState[i]? with
  | none =>
    have hnone : lensOutcome (linkedVerdicts c records i) = fun _ => none := funext fun lens => by
      rw [linkedVerdicts, ← hlens, hstate]
      rfl
    rw [hnone]
    exact ⟨rfl, .none rfl rfl⟩
  | some perLens =>
    have hsome : lensOutcome (linkedVerdicts c records i) = (perLens[·]?) := funext fun lens => by
      rw [linkedVerdicts, ← hlens, hstate]
      rfl
    rw [hsome]
    exact ⟨resolve_unmarked perLens _, resolve_marked perLens rfl rfl⟩

theorem landing_of_entry {e : Entry} (h : (fromRecords c m records).entries[i]? = some e) :
    ∃ l, (landings c records)[i]? = some l := by
  rw [fromRecords, getElem?_foldl_modify resolve (nodup_keys _), Option.map_eq_some_iff] at h
  obtain ⟨e', he', -⟩ := h
  obtain ⟨hi, -⟩ := List.getElem?_eq_some_iff.mp he'
  rw [length_attachVerdict, entries_collectLanded, List.length_map] at hi
  exact ⟨_, List.getElem?_eq_getElem hi⟩

end Entries

end Ledger

end Hugit

import Hugit.DockCommits
import Hugit.LastWrite

/-! When every captured commit is counted once: the docks and branch commits a log
names, and the one arrangement of them that loses commits. -/

namespace Hugit

open Std

def dockWrites (records : DockRecords) : List (String × DockView) :=
  records.filterMap fun r =>
    if r.1 = "dock.record" ∧ r.2.textAt "dock_id" ≠ "" then some (r.2.textAt "dock_id", DockInputs.view r.2) else none

def coinedDock (records : DockRecords) (id : String) : Option DockView :=
  lastWrite id (dockWrites records)

def branchCommitRecords (records : DockRecords) : DockRecords :=
  records.filter fun r => r.1 = "ref.update" && isBranchCommit r.2

def commitBranches (records : DockRecords) : List String :=
  (branchCommitRecords records).map fun r => r.2.textAt "branch"

def IsRepoScope (records : DockRecords) (id : String) : Prop :=
  (∃ v, coinedDock records id = some v ∧ v.origin = "repo") ∧
    ∀ id' v, coinedDock records id' = some v → v.origin = "repo" → id ≤ id'

/-- The repo-scope dock is alone on a branch with commits, and a branch of a smaller
name has commits and no dock. -/
def Stranded (records : DockRecords) : Prop :=
  ∃ id v, coinedDock records id = some v ∧ IsRepoScope records id ∧ v.branch ∈ commitBranches records ∧
    (∀ id' v', coinedDock records id' = some v' → v'.branch = v.branch → id' = id) ∧
    ∃ b ∈ commitBranches records, b < v.branch ∧ ∀ id' v', coinedDock records id' = some v' → v'.branch ≠ b

section

variable (records : DockRecords) (record : String × Value)

theorem readAll_concat : DockInputs.readAll (records ++ [record]) = (DockInputs.readAll records).read record := by
  simp [DockInputs.readAll]

theorem views_read (inputs : DockInputs) (id : String) :
    (inputs.read record).views[id]? = (coinedDock [record] id).or inputs.views[id]? := by
  obtain ⟨kind, p⟩ := record
  unfold DockInputs.read coinedDock
  dsimp only
  by_cases hdock : kind = "dock.record" ∧ p.textAt "dock_id" ≠ ""
  · have hwrites : dockWrites [(kind, p)] = [(p.textAt "dock_id", DockInputs.view p)] := by
      simp [dockWrites, hdock]
    rw [if_pos hdock.1, if_neg hdock.2, ExtTreeMap.getElem?_insert, hwrites]
    by_cases hk : p.textAt "dock_id" = id <;> simp [hk, lastWrite]
  · have hwrites : dockWrites [(kind, p)] = [] := by simpa [dockWrites] using hdock
    rw [hwrites, lastWrite_nil, Option.none_or]
    split_ifs with hkind hid
    · rfl
    · exact absurd ⟨hkind, hid⟩ hdock
    all_goals rfl

theorem views_readAll (id : String) : (DockInputs.readAll records).views[id]? = coinedDock records id := by
  induction records using List.reverseRecOn with
  | nil => rfl
  | append_singleton records record ih =>
    rw [readAll_concat, views_read, ih]
    simp only [coinedDock, dockWrites, List.filterMap_append, lastWrite_append]

theorem branchCommits_read (inputs : DockInputs) (b : String) :
    (inputs.read record).branchCommits[b]? =
      if b ∈ commitBranches [record] then some (inputs.branchCommits.getD b 0 + 1) else inputs.branchCommits[b]? := by
  obtain ⟨kind, p⟩ := record
  unfold DockInputs.read commitBranches branchCommitRecords
  dsimp only
  by_cases hcommit : kind = "ref.update" ∧ isBranchCommit p = true
  · obtain ⟨rfl, hp⟩ := hcommit
    by_cases hb : p.textAt "branch" = b
    · simp [hp, hb]
    · simp [hp, hb, Ne.symm hb, ExtTreeMap.getElem?_insert]
  · have hnone : (kind = "ref.update" && isBranchCommit p) = false := by
      by_contra hh
      exact hcommit (by simpa using hh)
    rw [if_neg hcommit]
    simp only [List.filter_cons, hnone, Bool.false_eq_true, if_false, List.filter_nil, List.map_nil, List.not_mem_nil]
    split_ifs <;> rfl

theorem commitBranches_concat :
    commitBranches (records ++ [record]) = commitBranches records ++ commitBranches [record] := by
  simp [commitBranches, branchCommitRecords]

theorem branchCommits_readAll (b : String) :
    (DockInputs.readAll records).branchCommits[b]? =
      if b ∈ commitBranches records then some ((commitBranches records).count b) else none := by
  induction records using List.reverseRecOn with
  | nil => rfl
  | append_singleton records record ih =>
    have hone : (commitBranches [record]).length ≤ 1 := by
      rw [commitBranches, List.length_map]
      exact List.length_filter_le _ _
    rw [readAll_concat, branchCommits_read, commitBranches_concat, ExtTreeMap.getD_eq_getD_getElem?, ih,
      List.count_append]
    by_cases hb : b ∈ commitBranches [record]
    · obtain ⟨b', hlast⟩ := List.length_eq_one_iff.mp (Nat.le_antisymm hone (List.length_pos_of_mem hb))
      obtain rfl := List.mem_singleton.mp (hlast ▸ hb)
      rw [hlast]
      by_cases hold : b ∈ commitBranches records
      · simp [hold]
      · simp [hold, List.count_eq_zero_of_not_mem hold]
    · rw [if_neg hb, List.count_eq_zero_of_not_mem hb]
      simp [hb]

end

def DockView.standing (v : DockView) : String × String := (v.branch, v.origin)

theorem standing_markClosed (views : ExtTreeMap String DockView) (closed id : String) :
    (DockInputs.markClosed views closed)[id]?.map DockView.standing = views[id]?.map DockView.standing := by
  unfold DockInputs.markClosed
  cases hv : views[closed]? with
  | none => rfl
  | some v =>
    dsimp only
    rw [ExtTreeMap.getElem?_insert]
    by_cases hk : closed = id
    · subst hk
      simp [hv, DockView.standing]
    · rw [if_neg (by simp [hk])]

theorem standing_allViews (records : DockRecords) (id : String) :
    (DockInputs.readAll records).allViews[id]?.map DockView.standing =
      (coinedDock records id).map DockView.standing := by
  rw [← views_readAll, DockInputs.allViews]
  generalize (DockInputs.readAll records).views = views
  induction (DockInputs.readAll records).closedIds generalizing views with
  | nil => rfl
  | cons closed ids ih => rw [List.foldl_cons, ih, standing_markClosed]

theorem mem_allViews {records : DockRecords} {id : String} {at_ : String × String} :
    (∃ entry ∈ (DockInputs.readAll records).allViews.toList, entry.1 = id ∧ entry.2.standing = at_) ↔
      ∃ v, coinedDock records id = some v ∧ v.standing = at_ := by
  rw [← Option.map_eq_some_iff, ← standing_allViews, Option.map_eq_some_iff]
  constructor
  · rintro ⟨⟨id', v⟩, hmem, rfl, he⟩
    exact ⟨v, ExtTreeMap.mem_toList_iff_getElem?_eq_some.mp hmem, he⟩
  · rintro ⟨v, hv, he⟩
    exact ⟨(id, v), ExtTreeMap.mem_toList_iff_getElem?_eq_some.mpr hv, rfl, he⟩

theorem sorted_toList {β : Type} (m : ExtTreeMap String β) : m.toList.Pairwise fun a b => a.1 < b.1 := by
  refine List.Pairwise.imp ?_ ExtTreeMap.ordered_keys_toList
  intro a b h
  exact compareOfLessAndEq_eq_lt.mp h

theorem find?_eq_least {β : Type} {p : String × β → Bool} {l : List (String × β)}
    (hsorted : l.Pairwise fun a b => a.1 < b.1) (id : String) :
    (l.find? p).map Prod.fst = some id ↔
      (∃ entry ∈ l, entry.1 = id ∧ p entry = true) ∧ ∀ entry ∈ l, p entry = true → id ≤ entry.1 := by
  induction l with
  | nil => simp
  | cons entry l ih =>
    obtain ⟨hlt, hsorted⟩ := List.pairwise_cons.mp hsorted
    by_cases hp : p entry = true
    · rw [List.find?_cons_of_pos hp]
      constructor
      · intro he
        obtain rfl := Option.some.inj he
        refine ⟨⟨entry, by simp, rfl, hp⟩, fun entry' hmem _ => ?_⟩
        rcases List.mem_cons.mp hmem with rfl | hmem
        · exact Std.le_refl _
        · exact Std.le_of_lt (hlt entry' hmem)
      · rintro ⟨⟨entry', hmem, rfl, _⟩, hleast⟩
        rcases List.mem_cons.mp hmem with rfl | hmem
        · rfl
        · exact absurd (hlt entry' hmem) (Std.not_lt_of_ge (hleast entry (by simp) hp))
    · rw [List.find?_cons_of_neg hp, ih hsorted]
      simp [hp]

def dockPlaces (records : DockRecords) : List (String × String) :=
  (DockInputs.readAll records).allViews.toList.map fun entry => (entry.1, entry.2.branch)

def repoScopeDock (records : DockRecords) : Option String :=
  ((DockInputs.readAll records).allViews.toList.find? fun entry => entry.2.origin = "repo").map Prod.fst

section

variable {records : DockRecords}

theorem mem_dockPlaces {id branch : String} :
    (id, branch) ∈ dockPlaces records ↔ ∃ v, coinedDock records id = some v ∧ v.branch = branch := by
  constructor
  · intro hmem
    obtain ⟨⟨id', v⟩, hentry, he⟩ := List.mem_map.mp hmem
    obtain ⟨rfl, rfl⟩ := Prod.mk.inj he
    obtain ⟨v', hv', hs⟩ := mem_allViews.mp ⟨(id', v), hentry, rfl, rfl⟩
    exact ⟨v', hv', congrArg Prod.fst hs⟩
  · rintro ⟨v, hv, rfl⟩
    obtain ⟨entry, hentry, rfl, hs⟩ := mem_allViews.mpr ⟨v, hv, rfl⟩
    exact List.mem_map.mpr ⟨entry, hentry, by rw [← show entry.2.branch = v.branch from congrArg Prod.fst hs]⟩

theorem unbound_dockPlaces {branch : String} :
    Unbound (dockPlaces records) branch ↔ ∀ id v, coinedDock records id = some v → v.branch ≠ branch := by
  constructor
  · intro h id v hv he
    exact h (id, branch) (mem_dockPlaces.mpr ⟨v, hv, he⟩) rfl
  · rintro h ⟨id, b⟩ hmem rfl
    obtain ⟨v, hv, he⟩ := mem_dockPlaces.mp hmem
    exact h id v hv he

theorem repoScopeDock_eq_some {id : String} : repoScopeDock records = some id ↔ IsRepoScope records id := by
  rw [repoScopeDock, find?_eq_least (sorted_toList _)]
  refine and_congr ⟨?_, ?_⟩ ⟨fun h id' v hv ho => ?_, fun h entry hentry ho => ?_⟩
  · rintro ⟨entry, hentry, rfl, ho⟩
    obtain ⟨v, hv, hs⟩ := mem_allViews.mp ⟨entry, hentry, rfl, rfl⟩
    exact ⟨v, hv, (congrArg Prod.snd hs).trans (of_decide_eq_true ho)⟩
  · rintro ⟨v, hv, ho⟩
    obtain ⟨entry, hentry, rfl, hs⟩ := mem_allViews.mpr ⟨v, hv, rfl⟩
    exact ⟨entry, hentry, rfl, decide_eq_true ((congrArg Prod.snd hs).trans ho)⟩
  · obtain ⟨entry, hentry, rfl, hs⟩ := mem_allViews.mpr ⟨v, hv, rfl⟩
    exact h entry hentry (decide_eq_true ((congrArg Prod.snd hs).trans ho))
  · obtain ⟨v, hv, hs⟩ := mem_allViews.mp ⟨entry, hentry, rfl, rfl⟩
    exact h entry.1 v hv ((congrArg Prod.snd hs).trans (of_decide_eq_true ho))

theorem mem_branchCommits {entry : String × Nat} :
    entry ∈ (DockInputs.readAll records).branchCommits.toList ↔
      entry.1 ∈ commitBranches records ∧ entry.2 = (commitBranches records).count entry.1 := by
  obtain ⟨b, n⟩ := entry
  rw [ExtTreeMap.mem_toList_iff_getElem?_eq_some, branchCommits_readAll]
  by_cases hb : b ∈ commitBranches records <;> simp [hb, eq_comm]

theorem mem_branchCommits_of_mem {b : String} (hb : b ∈ commitBranches records) :
    (b, (commitBranches records).count b) ∈ (DockInputs.readAll records).branchCommits.toList :=
  mem_branchCommits.mpr ⟨hb, rfl⟩

theorem ne_zero_of_mem_branchCommits {entry : String × Nat}
    (h : entry ∈ (DockInputs.readAll records).branchCommits.toList) : entry.2 ≠ 0 := by
  obtain ⟨hmem, hcount⟩ := mem_branchCommits.mp h
  rw [hcount]
  exact Nat.pos_iff_ne_zero.mp (List.count_pos_iff.mpr hmem)

theorem sum_branchCommits :
    ((DockInputs.readAll records).branchCommits.toList.map Prod.snd).sum = (branchCommitRecords records).length := by
  have hcounts : (DockInputs.readAll records).branchCommits.toList.map Prod.snd =
      (DockInputs.readAll records).branchCommits.keys.map fun b => (commitBranches records).count b := by
    rw [← ExtTreeMap.map_fst_toList_eq_keys, List.map_map]
    exact List.map_congr_left fun entry h => (mem_branchCommits.mp h).2
  have hkeys : (DockInputs.readAll records).branchCommits.keys.Perm (commitBranches records).dedup := by
    refine (List.perm_ext_iff_of_nodup ExtTreeMap.nodup_keys (List.nodup_dedup _)).mpr fun b => ?_
    rw [ExtTreeMap.mem_keys, ExtTreeMap.mem_iff_isSome_getElem?, branchCommits_readAll, List.mem_dedup]
    by_cases hb : b ∈ commitBranches records <;> simp [hb]
  rw [hcounts, (hkeys.map _).sum_eq, List.sum_map_count_dedup_eq_length, commitBranches, List.length_map]

theorem exists_lost_iff :
    (∃ entry ∈ (DockInputs.readAll records).branchCommits.toList,
        Lost (dockPlaces records) (repoScopeDock records) (DockInputs.readAll records).branchCommits.toList entry.1) ↔
      Stranded records := by
  constructor
  · rintro ⟨entry, hentry, ⟨⟨⟨id, branch⟩, hplace, rfl⟩, honly⟩, other, hother, hlt, hun⟩
    obtain ⟨v, hv, hbranch⟩ := mem_dockPlaces.mp hplace
    have hid := honly _ hplace rfl
    refine ⟨id, v, hv, repoScopeDock_eq_some.mp hid.symm, ?_, fun id' v' hv' he => ?_, other.1, ?_, ?_, ?_⟩
    · exact hbranch ▸ (mem_branchCommits.mp hentry).1
    · have hid' := honly (id', v'.branch) (mem_dockPlaces.mpr ⟨v', hv', rfl⟩) (he.trans hbranch)
      exact Option.some.inj (hid'.trans hid.symm)
    · exact (mem_branchCommits.mp hother).1
    · exact hbranch ▸ hlt
    · exact unbound_dockPlaces.mp hun
  · rintro ⟨id, v, hv, hscope, hcommits, halone, b, hb, hlt, hun⟩
    refine ⟨_, mem_branchCommits_of_mem hcommits, ⟨⟨(id, v.branch), ?_, rfl⟩, ?_⟩, _, mem_branchCommits_of_mem hb,
      hlt, unbound_dockPlaces.mpr hun⟩
    · exact mem_dockPlaces.mpr ⟨v, hv, rfl⟩
    · rintro ⟨id', branch⟩ hplace rfl
      obtain ⟨v', hv', he⟩ := mem_dockPlaces.mp hplace
      rw [halone id' v' hv' he, repoScopeDock_eq_some.mpr hscope]

theorem map_docks_addSample {β : Type} {g : DockAttribution → β} (hg : ∀ d n, g { d with costUsdMicros := n } = g d)
    (c : Crates) (views : ExtTreeMap String DockView) (lanes : CostLanes) (s : Value) :
    (addSample c views lanes s).docks.map g = lanes.docks.map g := by
  rw [addSample_eq]
  split_ifs
  · rfl
  · cases laneOf c views s with
    | dock id => exact map_updateFirst (fun d => hg d _) _
    | unlabeled | reconciled | reconciledLate | tampered => rfl

theorem map_docks_addSamples {β : Type} {g : DockAttribution → β} (hg : ∀ d n, g { d with costUsdMicros := n } = g d)
    (c : Crates) (views : ExtTreeMap String DockView) (samples : List Value) (lanes : CostLanes) :
    (samples.foldl (addSample c views) lanes).docks.map g = lanes.docks.map g := by
  induction samples generalizing lanes with
  | nil => rfl
  | cons s samples ih => rw [List.foldl_cons, ih, map_docks_addSample hg]

theorem shape_chargedLanes (c : Crates) (dirExists : String → Bool) (records : DockRecords) :
    ((chargedLanes c dirExists records).docks.map fun d => (d.dockId, d.branch, d.commitCount, d.bucket)) =
      (dockPlaces records).map fun place => (place.1, place.2, 0, .unlabeled) := by
  rw [chargedLanes, map_docks_addSamples fun _ _ => rfl, dockLanes, dockPlaces, List.map_map, List.map_map]
  rfl

def creditedLanes (c : Crates) (dirExists : String → Bool) (records : DockRecords) : CommitLanes :=
  (DockInputs.readAll records).branchCommits.toList.foldl (addBranch (repoScopeDock records))
    ⟨(chargedLanes c dirExists records).docks, 0, []⟩

theorem nodup_dockPlaces (records : DockRecords) : ((dockPlaces records).map Prod.fst).Nodup := by
  rw [dockPlaces, List.map_map]
  exact (ExtTreeMap.map_fst_toList_eq_keys (t := (DockInputs.readAll records).allViews)) ▸ ExtTreeMap.nodup_keys

theorem counted_creditedLanes (c : Crates) (dirExists : String → Bool) (records : DockRecords) :
    Counted (dockPlaces records) (repoScopeDock records) (DockInputs.readAll records).branchCommits.toList
      (DockInputs.readAll records).branchCommits.toList (creditedLanes c dirExists records) := by
  have hlanes := shape_chargedLanes c dirExists records
  have hshape : ((chargedLanes c dirExists records).docks.map fun d => (d.dockId, d.branch)) = dockPlaces records := by
    have h := congrArg (List.map fun t => (t.1, t.2.1)) hlanes
    simpa [List.map_map, Function.comp_def] using h
  have hzero : ∀ d ∈ (chargedLanes c dirExists records).docks, d.commitCount = 0 := by
    intro d hd
    have hmem := List.mem_map_of_mem (f := fun d => (d.dockId, d.branch, d.commitCount, d.bucket)) hd
    rw [hlanes] at hmem
    obtain ⟨_, _, he⟩ := List.mem_map.mp hmem
    exact (congrArg (fun t => t.2.2.1) he).symm
  have hrepo : ∀ rs, repoScopeDock records = some rs → rs ∈ (dockPlaces records).map Prod.fst := by
    intro rs hrs
    obtain ⟨⟨v, hv, _⟩, _⟩ := repoScopeDock_eq_some.mp hrs
    exact List.mem_map.mpr ⟨(rs, v.branch), mem_dockPlaces.mpr ⟨v, hv, rfl⟩, rfl⟩
  exact .run hshape hzero (nodup_dockPlaces records) hrepo (sorted_toList _) fun _ => ne_zero_of_mem_branchCommits

theorem counted_attributeOn (c : Crates) (dirExists : String → Bool) :
    let summary := attributeOn c dirExists records
    let entries := (DockInputs.readAll records).branchCommits.toList
    commitSum summary.docks + summary.unlabeledCommitCount =
      ((entries.filter fun entry => ¬ Lost (dockPlaces records) (repoScopeDock records) entries entry.1).map
        Prod.snd).sum := by
  intro summary entries
  have hfinal : commitSum summary.docks = commitSum (creditedLanes c dirExists records).docks := by
    refine congrArg List.sum ((List.map_map ..).trans (List.map_congr_left fun d _ => ?_))
    rw [Function.comp_apply, finalizeBucket]
    split_ifs <;> rfl
  rw [hfinal]
  exact (counted_creditedLanes c dirExists records).total

end

theorem sum_filter_eq_iff {α : Type} {p : α → Bool} {f : α → Nat} {l : List α} (hpos : ∀ a ∈ l, f a ≠ 0) :
    ((l.filter p).map f).sum = (l.map f).sum ↔ ∀ a ∈ l, p a = true := by
  induction l with
  | nil => simp
  | cons a l ih =>
    obtain ⟨ha, hl⟩ := List.forall_mem_cons.mp hpos
    rw [List.forall_mem_cons, List.map_cons, List.sum_cons, ← ih hl]
    by_cases hp : p a = true
    · rw [List.filter_cons_of_pos hp, List.map_cons, List.sum_cons]
      simp [hp]
    · have hle : ((l.filter p).map f).sum ≤ (l.map f).sum :=
        ((List.filter_sublist (l := l)).map f).sum_le_sum (by simp)
      rw [List.filter_cons_of_neg hp]
      refine ⟨fun h => ?_, fun h => absurd h.1 hp⟩
      omega

theorem branch_commits_counted_once (c : Crates) (dirExists : String → Bool) (records : DockRecords) :
    commitSum (attributeOn c dirExists records).docks + (attributeOn c dirExists records).unlabeledCommitCount =
      (branchCommitRecords records).length ↔ ¬ Stranded records := by
  have hpos : ∀ entry ∈ (DockInputs.readAll records).branchCommits.toList, entry.2 ≠ 0 :=
    fun _ => ne_zero_of_mem_branchCommits
  rw [counted_attributeOn, ← sum_branchCommits, sum_filter_eq_iff hpos, ← exists_lost_iff]
  simp

/-- The repository's own dock is on main; its feature branch has no dock. -/
def featureLog : DockRecords :=
  [("dock.record", .object [("dock_id", .string "d1"), ("branch", .string "main"), ("origin", .string "repo")]),
    ("ref.update", .object [("branch", .string "feat"), ("target", .string "a1")]),
    ("ref.update", .object [("branch", .string "main"), ("target", .string "b2")])]

/-- The commit on main is in no lane. -/
theorem main_commit_lost :
    let summary := attributeOn reference (fun _ => true) featureLog
    (branchCommitRecords featureLog).length = 2 ∧
      commitSum summary.docks = 1 ∧ summary.unlabeledCommitCount = 0 := by
  decide +kernel

end Hugit

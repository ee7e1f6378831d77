import Hugit.CommitConservation

/-! When a dock's bucket tells the truth about its branch. The landing signal is read off
the commit counts, and the repo-scope dock also counts the commits of branches without a dock. -/

namespace Hugit

theorem mem_updateFirst_or {α : Type} {p : α → Bool} (f : α → α) {l : List α} {a : α} (h : a ∈ l) :
    a ∈ updateFirst p f l ∨ p a = true ∧ f a ∈ updateFirst p f l := by
  induction l with
  | nil => cases h
  | cons b l ih =>
    by_cases hp : p b = true
    · rw [updateFirst, if_pos hp]
      rcases List.mem_cons.mp h with rfl | h
      · exact .inr ⟨hp, List.mem_cons_self⟩
      · exact .inl (List.mem_cons_of_mem _ h)
    · rw [updateFirst, if_neg hp]
      rcases List.mem_cons.mp h with rfl | h
      · exact .inl List.mem_cons_self
      · rcases ih h with h | ⟨hpa, h⟩
        · exact .inl (List.mem_cons_of_mem _ h)
        · exact .inr ⟨hpa, List.mem_cons_of_mem _ h⟩

theorem updateFirst_hits {α : Type} {p : α → Bool} (f : α → α) {l : List α} (h : l.any p = true) :
    ∃ a ∈ l, p a = true ∧ f a ∈ updateFirst p f l := by
  induction l with
  | nil => cases h
  | cons b l ih =>
    by_cases hp : p b = true
    · rw [updateFirst, if_pos hp]
      exact ⟨b, List.mem_cons_self, hp, List.mem_cons_self⟩
    · rw [updateFirst, if_neg hp]
      obtain ⟨a, ha, hpa, hf⟩ := ih (by simpa [hp] using h)
      exact ⟨a, List.mem_cons_of_mem _ ha, hpa, List.mem_cons_of_mem _ hf⟩

def Landed (docks : List DockAttribution) (branch : String) : Prop :=
  ∃ d ∈ docks, d.branch = branch ∧ d.commitCount ≠ 0

section

variable {docks : List DockAttribution} {branch : String} {count : Nat} (hcount : count ≠ 0)

include hcount

theorem Landed.linkCommits (h : Landed docks branch) (id : String) : Landed (linkCommits id count docks) branch := by
  obtain ⟨d, hd, hb, hc⟩ := h
  rcases mem_updateFirst_or (fun d => { d with commitCount := d.commitCount + count }) hd with hd | ⟨-, hd⟩
  · exact ⟨d, hd, hb, hc⟩
  · exact ⟨_, hd, hb, fun hz => hcount (Nat.add_eq_zero_iff.mp hz).2⟩

theorem Landed.creditFirst (h : Landed docks branch) (ids : List String) :
    Landed (creditFirst count ids docks) branch := by
  induction ids with
  | nil => exact h
  | cons id ids ih =>
    rw [Hugit.creditFirst]
    split_ifs
    · obtain ⟨d, hd, hb, hc⟩ := h
      rcases mem_updateFirst_or (fun d => { d with commitCount := count }) hd with hd | ⟨-, hd⟩
      · exact ⟨d, hd, hb, hc⟩
      · exact ⟨_, hd, hb, hcount⟩
    · exact ih

theorem landed_creditFirst {ids : List String} (hids : ∀ d ∈ docks, d.dockId ∈ ids → d.branch = branch)
    (h : ∃ d ∈ docks, d.dockId ∈ ids) : Landed (creditFirst count ids docks) branch := by
  induction ids with
  | nil =>
    obtain ⟨_, _, hmem⟩ := h
    cases hmem
  | cons id ids ih =>
    by_cases hany : (docks.any fun d => d.dockId = id && d.commitCount = 0) = true
    · rw [creditFirst, if_pos hany]
      obtain ⟨d, hd, hp, hf⟩ := updateFirst_hits (fun d => { d with commitCount := count }) hany
      simp only [Bool.and_eq_true, decide_eq_true_eq] at hp
      exact ⟨_, hf, hids d hd (by simp [hp.1]), hcount⟩
    · rw [creditFirst, if_neg hany]
      obtain ⟨d, hd, hmem⟩ := h
      rcases List.mem_cons.mp hmem with he | hmem
      · have hbusy : d.commitCount ≠ 0 := fun hz => hany (List.any_eq_true.mpr ⟨d, hd, by simp [he, hz]⟩)
        exact Landed.creditFirst hcount ⟨d, hd, hids d hd (by simp [he]), hbusy⟩ ids
      · exact ih (fun d hd hm => hids d hd (List.mem_cons_of_mem _ hm)) ⟨d, hd, hmem⟩

theorem Landed.addBranch {lanes : CommitLanes} (h : Landed lanes.docks branch) (repo : Option String)
    (other : String) : Landed (addBranch repo lanes (other, count)).docks branch := by
  by_cases hids : idsOn lanes.docks other = []
  · rw [addBranch_of_unbound hids]
    cases repo with
    | none => exact h
    | some rs =>
      dsimp only
      split_ifs
      · exact h.linkCommits hcount rs
      · exact h
  · rw [addBranch_of_bound hids]
    exact h.creditFirst hcount _

theorem landed_addBranch {lanes : CommitLanes} (hnd : (lanes.docks.map DockAttribution.dockId).Nodup)
    (h : ∃ d ∈ lanes.docks, d.branch = branch) (repo : Option String) :
    Landed (addBranch repo lanes (branch, count)).docks branch := by
  obtain ⟨d, hd, hb⟩ := h
  have hid : d.dockId ∈ idsOn lanes.docks branch := mem_idsOn.mpr ⟨d, hd, hb, rfl⟩
  rw [addBranch_of_bound (List.ne_nil_of_mem hid)]
  refine landed_creditFirst hcount (fun d' hd' hmem => ?_) ⟨d, hd, hid⟩
  obtain ⟨d'', hd'', hb'', he⟩ := mem_idsOn.mp hmem
  obtain rfl := List.inj_on_of_nodup_map hnd hd' hd'' he.symm
  exact hb''

end

theorem landed_addBranches {repo : Option String} {entries : List (String × Nat)} {lanes : CommitLanes}
    (hnd : (lanes.docks.map DockAttribution.dockId).Nodup) (hcounts : ∀ entry ∈ entries, entry.2 ≠ 0)
    {branch : String} (hbound : ∃ d ∈ lanes.docks, d.branch = branch)
    (h : Landed lanes.docks branch ∨ branch ∈ entries.map Prod.fst) :
    Landed (entries.foldl (addBranch repo) lanes).docks branch := by
  induction entries generalizing lanes with
  | nil => simpa using h
  | cons entry entries ih =>
    obtain ⟨hentry, hrest⟩ := List.forall_mem_cons.mp hcounts
    have hids : (addBranch repo lanes entry).docks.map DockAttribution.dockId =
        lanes.docks.map DockAttribution.dockId := map_addBranch (fun _ _ => rfl) repo lanes entry
    have hbranches : (addBranch repo lanes entry).docks.map DockAttribution.branch =
        lanes.docks.map DockAttribution.branch := map_addBranch (fun _ _ => rfl) repo lanes entry
    refine ih (hids ▸ hnd) hrest ?_ ?_
    · rw [← List.mem_map, hbranches]
      exact List.mem_map.mpr hbound
    · rcases h with h | h
      · exact .inl (h.addBranch hentry repo entry.1)
      · rcases List.mem_cons.mp h with rfl | h
        · exact .inl (landed_addBranch hentry hnd hbound repo)
        · exact .inr h

/-- The branch is that of the repo-scope dock, and a branch without a dock has commits. -/
def BorrowsCommits (records : DockRecords) (branch : String) : Prop :=
  (∃ id v, IsRepoScope records id ∧ coinedDock records id = some v ∧ v.branch = branch) ∧
    ∃ other ∈ commitBranches records, ∀ id v, coinedDock records id = some v → v.branch ≠ other

section

variable {records : DockRecords} (c : Crates) (dirExists : String → Bool)

theorem landed_creditedLanes {d : DockAttribution} (hd : d ∈ (creditedLanes c dirExists records).docks) :
    Landed (creditedLanes c dirExists records).docks d.branch ↔
      d.branch ∈ commitBranches records ∨ BorrowsCommits records d.branch := by
  have hcounted := counted_creditedLanes c dirExists records
  have hplaced {d : DockAttribution} (hd : d ∈ (creditedLanes c dirExists records).docks) :
      ∃ v, coinedDock records d.dockId = some v ∧ v.branch = d.branch := by
    rw [← mem_dockPlaces, ← hcounted.shape]
    exact List.mem_map_of_mem hd
  have hbranches : d.branch ∈ (DockInputs.readAll records).branchCommits.toList.map Prod.fst ↔
      d.branch ∈ commitBranches records := by
    refine ⟨fun h => ?_, fun h => List.mem_map.mpr ⟨_, mem_branchCommits_of_mem h, rfl⟩⟩
    obtain ⟨entry, hentry, he⟩ := List.mem_map.mp h
    exact he ▸ (mem_branchCommits.mp hentry).1
  constructor
  · rintro ⟨d', hd', hb, hc⟩
    rcases hcounted.idle d' hd' hc with hin | ⟨hrepo, entry, hentry, hun⟩
    · exact .inl (hbranches.mp (hb ▸ hin))
    · obtain ⟨v, hv, hvb⟩ := hplaced hd'
      exact .inr ⟨⟨d'.dockId, v, repoScopeDock_eq_some.mp hrepo.symm, hv, hvb.trans hb⟩, entry.1,
        (mem_branchCommits.mp hentry).1, unbound_dockPlaces.mp hun⟩
  · rintro (hin | ⟨⟨id, v, hscope, hv, hb⟩, other, hother, hun⟩)
    · have hshape : ((chargedLanes c dirExists records).docks.map fun d => (d.dockId, d.branch)) =
          dockPlaces records := (map_addBranches (fun _ _ => rfl) _ _ _).symm.trans hcounted.shape
      refine landed_addBranches ?_ (fun _ => ne_zero_of_mem_branchCommits) ?_ (.inr (hbranches.mpr hin))
      · have hnd := nodup_dockPlaces records
        rwa [← hshape, List.map_map] at hnd
      · obtain ⟨v, hv, hvb⟩ := hplaced hd
        have hmem := mem_dockPlaces.mpr ⟨v, hv, hvb⟩
        rw [← hshape] at hmem
        obtain ⟨d', hd', he⟩ := List.mem_map.mp hmem
        exact ⟨d', hd', congrArg Prod.snd he⟩
    · have hmem := mem_dockPlaces.mpr ⟨v, hv, hb⟩
      rw [← hcounted.shape] at hmem
      obtain ⟨d', hd', he⟩ := List.mem_map.mp hmem
      obtain ⟨rfl, hb'⟩ := Prod.mk.inj he
      exact ⟨d', hd', hb', hcounted.linked d' hd' (repoScopeDock_eq_some.mpr hscope).symm
        ⟨_, mem_branchCommits_of_mem hother, unbound_dockPlaces.mpr hun⟩⟩

theorem bucket_attributeOn {d : DockAttribution} (hd : d ∈ (attributeOn c dirExists records).docks) :
    (d.costUsdMicros = 0 ∧ d.bucket = .unlabeled) ∨ 0 < d.costUsdMicros ∧
      (d.bucket = .matched ↔ d.branch ∈ commitBranches records ∨ BorrowsCommits records d.branch) ∧
      (d.bucket = .matched ∨ d.bucket = .investigated) := by
  obtain ⟨d', hd', rfl⟩ := List.mem_map.mp hd
  change d' ∈ (creditedLanes c dirExists records).docks at hd'
  have hlanded : d'.branch ∈ ((creditedLanes c dirExists records).docks.filter fun d => 0 < d.commitCount).map
      DockAttribution.branch ↔ Landed (creditedLanes c dirExists records).docks d'.branch := by
    simp only [Landed, List.mem_map, List.mem_filter, decide_eq_true_eq, Nat.pos_iff_ne_zero, and_assoc]
    exact exists_congr fun d => and_congr_right fun _ => and_comm
  by_cases hcost : 0 < d'.costUsdMicros
  · right
    rw [finalizeBucket, if_pos hcost, ← landed_creditedLanes c dirExists hd', ← hlanded]
    refine ⟨hcost, ?_, ?_⟩
    · dsimp only
      split_ifs with hin
      · exact iff_of_true rfl hin
      · exact iff_of_false (by simp) hin
    · dsimp only
      split_ifs
      · exact .inl rfl
      · exact .inr rfl
  · left
    rw [finalizeBucket, if_neg hcost]
    refine ⟨Nat.eq_zero_of_not_pos hcost, ?_⟩
    have hlanes := congrArg (List.map fun t => t.2.2.2) (shape_chargedLanes c dirExists records)
    have hmem : d'.bucket ∈ (creditedLanes c dirExists records).docks.map DockAttribution.bucket :=
      List.mem_map_of_mem hd'
    rw [creditedLanes, map_addBranches fun _ _ => rfl] at hmem
    rw [List.map_map, List.map_map] at hlanes
    rw [show (chargedLanes c dirExists records).docks.map DockAttribution.bucket = _ from hlanes] at hmem
    obtain ⟨_, _, he⟩ := List.mem_map.mp hmem
    exact he.symm

end

/-- The bucket that the branch's own commits call for. -/
def ownBucket (records : DockRecords) (d : DockAttribution) : Bucket :=
  if 0 < d.costUsdMicros then
    if d.branch ∈ commitBranches records then .matched else .investigated
  else .unlabeled

theorem buckets_truthful_iff (c : Crates) (dirExists : String → Bool) (records : DockRecords) :
    (∀ d ∈ (attributeOn c dirExists records).docks, d.bucket = ownBucket records d) ↔
      ¬ ∃ d ∈ (attributeOn c dirExists records).docks, 0 < d.costUsdMicros ∧
        d.branch ∉ commitBranches records ∧ BorrowsCommits records d.branch := by
  constructor
  · rintro h ⟨d, hd, hcost, hown, hborrows⟩
    rcases bucket_attributeOn c dirExists hd with ⟨hzero, -⟩ | ⟨-, hmatched, -⟩
    · omega
    · have hbucket := h d hd
      rw [ownBucket, if_pos hcost, if_neg hown, hmatched.mpr (.inr hborrows)] at hbucket
      cases hbucket
  · intro h d hd
    rcases bucket_attributeOn c dirExists hd with ⟨hzero, hbucket⟩ | ⟨hcost, hmatched, hone⟩
    · rw [hbucket, ownBucket, hzero, if_neg (Nat.lt_irrefl 0)]
    · rw [ownBucket, if_pos hcost]
      split_ifs with hown
      · exact hmatched.mpr (.inl hown)
      · refine hone.resolve_left fun hb => h ⟨d, hd, hcost, hown, ?_⟩
        exact (hmatched.mp hb).resolve_left hown

/-- The repository's own dock, on main, has a cost; the only commit is on a branch without a dock. -/
def borrowedLog : DockRecords :=
  [("dock.record", .object [("dock_id", .string "d1"), ("branch", .string "main"), ("origin", .string "repo")]),
    ("cost.sample", costSample "d1" 5 (trueHash "d1" 5)),
    ("ref.update", .object [("branch", .string "feat"), ("target", .string "a1")])]

theorem main_matched_without_commit :
    ((attributeOn reference (fun _ => true) borrowedLog).docks.map fun d => (d.branch, d.costUsdMicros, d.bucket)) =
      [("main", 5, .matched)] ∧ "main" ∉ commitBranches borrowedLog := by
  decide +kernel

end Hugit

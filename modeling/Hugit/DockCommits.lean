import Hugit.DockCosts

/-! The assignment of commits to docks, branch by branch in name order: what the
counts add up to. -/

namespace Hugit

theorem mem_updateFirst {α : Type} {p : α → Bool} {f : α → α} {l : List α} {a : α} (h : a ∈ updateFirst p f l) :
    a ∈ l ∨ ∃ b ∈ l, p b = true ∧ a = f b := by
  induction l with
  | nil => cases h
  | cons b l ih =>
    by_cases hp : p b = true
    · rw [updateFirst, if_pos hp] at h
      rcases List.mem_cons.mp h with rfl | h
      · exact .inr ⟨b, by simp, hp, rfl⟩
      · exact .inl (List.mem_cons_of_mem _ h)
    · rw [updateFirst, if_neg hp] at h
      rcases List.mem_cons.mp h with rfl | h
      · exact .inl (by simp)
      · rcases ih h with h | ⟨b', hb', hh⟩
        · exact .inl (List.mem_cons_of_mem _ h)
        · exact .inr ⟨b', List.mem_cons_of_mem _ hb', hh⟩

theorem sum_updateFirst {α : Type} {p : α → Bool} {f : α → α} {g : α → Nat} {n : Nat}
    (hf : ∀ a, p a = true → g (f a) = g a + n) {l : List α} (h : l.any p = true) :
    ((updateFirst p f l).map g).sum = (l.map g).sum + n := by
  induction l with
  | nil => cases h
  | cons a l ih =>
    by_cases hp : p a = true
    · rw [updateFirst, if_pos hp, List.map_cons, List.map_cons, List.sum_cons, List.sum_cons, hf a hp]
      omega
    · have hrest : l.any p = true := by simpa [hp] using h
      rw [updateFirst, if_neg hp, List.map_cons, List.map_cons, List.sum_cons, List.sum_cons, ih hrest]
      omega

def commitSum (docks : List DockAttribution) : Nat :=
  (docks.map DockAttribution.commitCount).sum

theorem commitSum_creditFirst (count : Nat) (ids : List String) (docks : List DockAttribution) :
    commitSum (creditFirst count ids docks) =
      if ∃ d ∈ docks, d.dockId ∈ ids ∧ d.commitCount = 0 then commitSum docks + count else commitSum docks := by
  induction ids with
  | nil => simp [creditFirst]
  | cons id ids ih =>
    by_cases hany : (docks.any fun d => d.dockId = id && d.commitCount = 0) = true
    · have hex : ∃ d ∈ docks, d.dockId ∈ id :: ids ∧ d.commitCount = 0 := by
        obtain ⟨d, hd, hp⟩ := List.any_eq_true.mp hany
        simp only [Bool.and_eq_true, decide_eq_true_eq] at hp
        exact ⟨d, hd, by simp [hp.1], hp.2⟩
      rw [creditFirst, if_pos hany, if_pos hex]
      refine sum_updateFirst (fun d hp => ?_) hany
      simp only [Bool.and_eq_true, decide_eq_true_eq] at hp
      simp [hp.2]
    · rw [creditFirst, if_neg hany, ih]
      refine if_congr ?_ rfl rfl
      refine exists_congr fun d => and_congr_right fun hd => and_congr_left fun hzero => ?_
      have hne : d.dockId ≠ id := by
        intro he
        exact hany (List.any_eq_true.mpr ⟨d, hd, by simp [he, hzero]⟩)
      simp [hne]

theorem mem_creditFirst {count : Nat} {ids : List String} {docks : List DockAttribution} {d : DockAttribution}
    (h : d ∈ creditFirst count ids docks) :
    d ∈ docks ∨ ∃ d' ∈ docks, d'.dockId ∈ ids ∧ d = { d' with commitCount := count } := by
  induction ids with
  | nil => exact .inl h
  | cons id ids ih =>
    rw [creditFirst] at h
    split_ifs at h
    · rcases mem_updateFirst h with h | ⟨d', hd', hp, rfl⟩
      · exact .inl h
      · simp only [Bool.and_eq_true, decide_eq_true_eq] at hp
        exact .inr ⟨d', hd', by simp [hp.1], rfl⟩
    · rcases ih h with h | ⟨d', hd', hid, he⟩
      · exact .inl h
      · exact .inr ⟨d', hd', List.mem_cons_of_mem _ hid, he⟩

section

variable (places : List (String × String)) (repo : Option String)

def Unbound (branch : String) : Prop :=
  ∀ place ∈ places, place.2 ≠ branch

def OnlyRepo (branch : String) : Prop :=
  (∃ place ∈ places, place.2 = branch) ∧ ∀ place ∈ places, place.2 = branch → some place.1 = repo

/-- By the time the branch is reached the repo-scope dock, alone on it, has the
commits of an unbound branch. -/
def Lost (entries : List (String × Nat)) (branch : String) : Prop :=
  OnlyRepo places repo branch ∧ ∃ entry ∈ entries, entry.1 < branch ∧ Unbound places entry.1

end

instance (places : List (String × String)) (branch : String) : Decidable (Unbound places branch) :=
  inferInstanceAs (Decidable (∀ place ∈ places, place.2 ≠ branch))

instance (places : List (String × String)) (repo : Option String) (branch : String) :
    Decidable (OnlyRepo places repo branch) :=
  inferInstanceAs (Decidable ((∃ place ∈ places, place.2 = branch) ∧
    ∀ place ∈ places, place.2 = branch → some place.1 = repo))

instance (places : List (String × String)) (repo : Option String) (entries : List (String × Nat))
    (branch : String) : Decidable (Lost places repo entries branch) :=
  inferInstanceAs (Decidable (OnlyRepo places repo branch ∧
    ∃ entry ∈ entries, entry.1 < branch ∧ Unbound places entry.1))

structure Counted (places : List (String × String)) (repo : Option String) (entries before : List (String × Nat))
    (lanes : CommitLanes) : Prop where
  shape : (lanes.docks.map fun d => (d.dockId, d.branch)) = places
  idle : ∀ d ∈ lanes.docks, d.commitCount ≠ 0 → d.branch ∈ before.map Prod.fst ∨
    (some d.dockId = repo ∧ ∃ entry ∈ before, Unbound places entry.1)
  linked : ∀ d ∈ lanes.docks, some d.dockId = repo → (∃ entry ∈ before, Unbound places entry.1) → d.commitCount ≠ 0
  total : commitSum lanes.docks + lanes.unlabeled =
    ((before.filter fun entry => ¬ Lost places repo entries entry.1).map Prod.snd).sum

def idsOn (docks : List DockAttribution) (branch : String) : List String :=
  (docks.filter fun d => d.branch = branch).map DockAttribution.dockId

section

variable {lanes : CommitLanes} {branch : String} {repo : Option String}

theorem addBranch_of_bound (h : idsOn lanes.docks branch ≠ []) (count : Nat) :
    addBranch repo lanes (branch, count) =
      { lanes with docks := creditFirst count (idsOn lanes.docks branch) lanes.docks } := by
  unfold addBranch
  dsimp only
  rw [if_neg (show ¬ (lanes.docks.filter fun d => d.branch = branch).map DockAttribution.dockId = [] from h), ite_self]
  rfl

theorem addBranch_of_unbound (h : idsOn lanes.docks branch = []) (count : Nat) :
    addBranch repo lanes (branch, count) =
      match repo with
      | some rs =>
        if lanes.docks.any fun d => d.dockId = rs then
          { lanes with docks := linkCommits rs count lanes.docks, linked := lanes.linked ++ [branch] }
        else lanes
      | none => { lanes with unlabeled := lanes.unlabeled + count } := by
  have hnil : (lanes.docks.filter fun d => d.branch = branch) = [] := List.map_eq_nil_iff.mp h
  unfold addBranch
  cases repo <;> simp only [hnil, List.map_nil, List.foldl_nil, Nat.lt_irrefl, if_false, if_true]

end

theorem mem_idsOn {docks : List DockAttribution} {branch id : String} :
    id ∈ idsOn docks branch ↔ ∃ d ∈ docks, d.branch = branch ∧ d.dockId = id := by
  simp [idsOn, and_assoc]

namespace Counted

variable {places : List (String × String)} {repo : Option String} {entries before after : List (String × Nat)}
  {lanes : CommitLanes} {branch : String} {count : Nat}

theorem unbound_iff (h : Counted places repo entries before lanes) :
    Unbound places branch ↔ idsOn lanes.docks branch = [] := by
  rw [← h.shape, Unbound, idsOn, List.map_eq_nil_iff, List.filter_eq_nil_iff]
  simp

theorem nodup (h : Counted places repo entries before lanes) (hnd : (places.map Prod.fst).Nodup) :
    (lanes.docks.map DockAttribution.dockId).Nodup := by
  rw [← h.shape, List.map_map] at hnd
  exact hnd

theorem branch_of_mem (h : Counted places repo entries before lanes) (hnd : (places.map Prod.fst).Nodup)
    {d : DockAttribution} (hd : d ∈ lanes.docks) (hid : d.dockId ∈ idsOn lanes.docks branch) : d.branch = branch := by
  obtain ⟨d', hd', hb, he⟩ := mem_idsOn.mp hid
  obtain rfl := List.inj_on_of_nodup_map (h.nodup hnd) hd hd' he.symm
  exact hb

theorem lost_iff (hsplit : entries = before ++ (branch, count) :: after)
    (hsorted : entries.Pairwise fun a b => a.1 < b.1) :
    Lost places repo entries branch ↔ OnlyRepo places repo branch ∧ ∃ entry ∈ before, Unbound places entry.1 := by
  subst hsplit
  obtain ⟨_, htail, hcross⟩ := List.pairwise_append.mp hsorted
  refine and_congr_right fun _ => ⟨?_, ?_⟩
  · rintro ⟨entry, hmem, hlt, hun⟩
    rcases List.mem_append.mp hmem with hmem | hmem
    · exact ⟨entry, hmem, hun⟩
    · rcases List.mem_cons.mp hmem with rfl | hmem
      · exact absurd hlt (String.lt_irrefl _)
      · exact absurd hlt (String.lt_asymm ((List.pairwise_cons.mp htail).1 entry hmem))
  · rintro ⟨entry, hmem, hun⟩
    exact ⟨entry, List.mem_append_left _ hmem, hcross entry hmem _ List.mem_cons_self, hun⟩

theorem not_mem_before (hsplit : entries = before ++ (branch, count) :: after)
    (hsorted : entries.Pairwise fun a b => a.1 < b.1) : branch ∉ before.map Prod.fst := by
  subst hsplit
  intro hmem
  obtain ⟨entry, hentry, rfl⟩ := List.mem_map.mp hmem
  have hlt := (List.pairwise_append.mp hsorted).2.2 entry hentry _ List.mem_cons_self
  exact String.lt_irrefl _ hlt

theorem total_concat (before : List (String × Nat)) (branch : String) (count : Nat) :
    (((before ++ [(branch, count)]).filter fun entry => ¬ Lost places repo entries entry.1).map Prod.snd).sum =
      ((before.filter fun entry => ¬ Lost places repo entries entry.1).map Prod.snd).sum +
        if Lost places repo entries branch then 0 else count := by
  by_cases h : Lost places repo entries branch <;> simp [List.filter_append, h]

theorem step_unbound (h : Counted places repo entries before lanes) (hnd : (places.map Prod.fst).Nodup)
    (hrepo : ∀ rs, repo = some rs → rs ∈ places.map Prod.fst) (hb : Unbound places branch) (hcount : count ≠ 0) :
    Counted places repo entries (before ++ [(branch, count)]) (addBranch repo lanes (branch, count)) := by
  have hkept : ¬ Lost places repo entries branch := by
    rintro ⟨⟨⟨place, hplace, he⟩, _⟩, _⟩
    exact hb place hplace he
  have hlast : ∃ entry ∈ before ++ [(branch, count)], Unbound places entry.1 := ⟨(branch, count), by simp, hb⟩
  rw [addBranch_of_unbound (h.unbound_iff.mp hb)]
  cases repo with
  | none =>
    refine ⟨h.shape, fun d hd hne => ?_, fun d _ hr => (nomatch hr), ?_⟩
    · rcases h.idle d hd hne with hin | ⟨hr, _⟩
      · exact .inl (by simp [hin])
      · cases hr
    · rw [total_concat, if_neg hkept, ← h.total]
      exact (Nat.add_assoc _ _ _).symm
  | some rs =>
    have hany : (lanes.docks.any fun d => d.dockId = rs) = true := by
      obtain ⟨place, hplace, rfl⟩ := List.mem_map.mp (hrepo rs rfl)
      rw [← h.shape] at hplace
      obtain ⟨d, hd, rfl⟩ := List.mem_map.mp hplace
      exact List.any_eq_true.mpr ⟨d, hd, by simp⟩
    dsimp only
    rw [if_pos hany]
    refine ⟨?_, fun d hd hne => ?_, fun d hd hr _ => ?_, ?_⟩
    · refine Eq.trans (map_updateFirst ?_ lanes.docks) h.shape
      exact fun _ => rfl
    · rcases mem_updateFirst hd with hd | ⟨d', hd', hp, rfl⟩
      · rcases h.idle d hd hne with hin | ⟨hr, _⟩
        · exact .inl (by simp [hin])
        · exact .inr ⟨hr, hlast⟩
      · exact .inr ⟨congrArg some (of_decide_eq_true hp), hlast⟩
    · obtain rfl := Option.some.inj hr
      have hd : d ∈ lanes.docks.map fun d' => if d'.dockId = d.dockId then
          { d' with commitCount := d'.commitCount + count } else d' := by
        rw [← updateFirst_eq_map _ (h.nodup hnd)]
        exact hd
      obtain ⟨d', hd', he⟩ := List.mem_map.mp hd
      split_ifs at he with hid
      · rw [← he]
        exact fun hz => hcount (Nat.add_eq_zero_iff.mp hz).2
      · exact absurd (congrArg DockAttribution.dockId he) hid
    · have hsum : commitSum (linkCommits rs count lanes.docks) = commitSum lanes.docks + count :=
        sum_updateFirst (fun _ _ => rfl) hany
      rw [total_concat, if_neg hkept, ← h.total, hsum]
      exact Nat.add_right_comm _ _ _

theorem step_bound (h : Counted places repo entries before lanes) (hnd : (places.map Prod.fst).Nodup)
    (hsplit : entries = before ++ (branch, count) :: after) (hsorted : entries.Pairwise fun a b => a.1 < b.1)
    (hb : ¬ Unbound places branch) (hcount : count ≠ 0) :
    Counted places repo entries (before ++ [(branch, count)]) (addBranch repo lanes (branch, count)) := by
  have hplaces {d : DockAttribution} (hd : d ∈ lanes.docks) : (d.dockId, d.branch) ∈ places := by
    rw [← h.shape]
    exact List.mem_map_of_mem hd
  have htaker : (∃ d ∈ lanes.docks, d.dockId ∈ idsOn lanes.docks branch ∧ d.commitCount = 0) ↔
      ¬ Lost places repo entries branch := by
    rw [lost_iff hsplit hsorted]
    constructor
    · rintro ⟨d, hd, hid, hzero⟩ ⟨⟨_, honly⟩, hun⟩
      have hr := honly _ (hplaces hd) (h.branch_of_mem hnd hd hid)
      exact h.linked d hd hr hun hzero
    · intro hkept
      by_contra hnone
      have hbusy : ∀ d ∈ lanes.docks, d.branch = branch →
          some d.dockId = repo ∧ ∃ entry ∈ before, Unbound places entry.1 := by
        intro d hd hbranch
        have hne : d.commitCount ≠ 0 := fun hz => hnone ⟨d, hd, mem_idsOn.mpr ⟨d, hd, hbranch, rfl⟩, hz⟩
        rcases h.idle d hd hne with hin | hr
        · exact absurd (hbranch ▸ hin) (not_mem_before hsplit hsorted)
        · exact hr
      obtain ⟨id, hid⟩ := List.exists_mem_of_ne_nil _ (mt h.unbound_iff.mpr hb)
      obtain ⟨d, hd, hbranch, rfl⟩ := mem_idsOn.mp hid
      refine hkept ⟨⟨⟨_, hplaces hd, hbranch⟩, fun place hplace hp => ?_⟩, (hbusy d hd hbranch).2⟩
      rw [← h.shape] at hplace
      obtain ⟨d', hd', rfl⟩ := List.mem_map.mp hplace
      exact (hbusy d' hd' hp).1
  rw [addBranch_of_bound (mt h.unbound_iff.mpr hb)]
  refine ⟨?_, fun d hd hne => ?_, fun d hd hr hun => ?_, ?_⟩
  · refine Eq.trans (map_creditFirst ?_ _ _ _) h.shape
    exact fun _ _ => rfl
  · rcases mem_creditFirst hd with hd | ⟨d', hd', hid, rfl⟩
    · rcases h.idle d hd hne with hin | ⟨hr, entry, hentry, hun⟩
      · exact .inl (by simp [hin])
      · exact .inr ⟨hr, entry, List.mem_append_left _ hentry, hun⟩
    · have hbranch := h.branch_of_mem hnd hd' hid
      exact .inl (by simp [hbranch])
  · rcases mem_creditFirst hd with hd | ⟨d', hd', hid, rfl⟩
    · obtain ⟨entry, hentry, hu⟩ := hun
      rcases List.mem_append.mp hentry with hentry | hentry
      · exact h.linked d hd hr ⟨entry, hentry, hu⟩
      · obtain rfl := List.mem_singleton.mp hentry
        exact absurd hu hb
    · exact hcount
  · dsimp only
    rw [total_concat, ← h.total, commitSum_creditFirst]
    by_cases hl : Lost places repo entries branch
    · rw [if_neg (mt htaker.mp (not_not_intro hl)), if_pos hl, Nat.add_zero]
    · rw [if_pos (htaker.mpr hl), if_neg hl]
      omega

theorem run {docks : List DockAttribution} (hshape : (docks.map fun d => (d.dockId, d.branch)) = places)
    (hzero : ∀ d ∈ docks, d.commitCount = 0) (hnd : (places.map Prod.fst).Nodup)
    (hrepo : ∀ rs, repo = some rs → rs ∈ places.map Prod.fst) (hsorted : entries.Pairwise fun a b => a.1 < b.1)
    (hcounts : ∀ entry ∈ entries, entry.2 ≠ 0) :
    Counted places repo entries entries (entries.foldl (addBranch repo) ⟨docks, 0, []⟩) := by
  have hstart : Counted places repo entries [] ⟨docks, 0, []⟩ := by
    refine ⟨hshape, fun d hd hne => absurd (hzero d hd) hne, fun d _ _ ⟨entry, hentry, _⟩ => (nomatch hentry), ?_⟩
    exact List.sum_eq_zero fun n hn => by
      obtain ⟨d, hd, rfl⟩ := List.mem_map.mp hn
      exact hzero d hd
  -- the branches already folded, and those to come
  have hfold : ∀ after before lanes, entries = before ++ after → Counted places repo entries before lanes →
      Counted places repo entries entries (after.foldl (addBranch repo) lanes) := by
    intro after
    induction after with
    | nil =>
      intro before lanes he h
      rw [List.append_nil] at he
      exact he ▸ h
    | cons entry after ih =>
      intro before lanes he h
      have hcount := hcounts entry (by simp [he])
      refine ih (before ++ [entry]) _ (by simp [he]) ?_
      by_cases hb : Unbound places entry.1
      · exact h.step_unbound hnd hrepo hb hcount
      · exact h.step_bound hnd he hsorted hb hcount
  exact hfold entries [] _ rfl hstart

end Counted

end Hugit

import Hugit.ProtectedBranch

/-! The refs that preserve divergent tips. They are ordinary forge refs with a name joined
from a branch and a tip: when each of them keeps its tip, and when two of them are one. -/

namespace Hugit

def branchLeaf (branch : String) : String :=
  ((stripPrefix "refs/heads/".toList branch.toList).map String.ofList).getD branch

theorem incidentRefName_eq (branch tip : String) :
    incidentRefName branch tip = incidentRefPrefix ++ branchLeaf branch ++ "/" ++ tip :=
  rfl

/-- The first name ends inside the tip of the second one. -/
def JoinsInside (branch tip branch' tip' : String) : Prop :=
  ∃ mid, branchLeaf branch' = branchLeaf branch ++ "/" ++ mid ∧ tip = mid ++ "/" ++ tip'

theorem slash_split {as bs cs ds : List Char} (h : as ++ '/' :: bs = cs ++ '/' :: ds) :
    (as = cs ∧ bs = ds) ∨ (∃ mid, cs = as ++ '/' :: mid ∧ bs = mid ++ '/' :: ds) ∨
      ∃ mid, as = cs ++ '/' :: mid ∧ ds = mid ++ '/' :: bs := by
  rcases List.append_eq_append_iff.mp h with ⟨mid, hc, hb⟩ | ⟨mid, ha, hd⟩
  · cases mid with
    | nil =>
      obtain rfl : as = cs := by simpa using hc.symm
      exact .inl ⟨rfl, by simpa using hb⟩
    | cons ch mid =>
      obtain ⟨rfl, hrest⟩ := List.cons.inj hb
      exact .inr (.inl ⟨mid, hc, hrest⟩)
  · cases mid with
    | nil =>
      obtain rfl : as = cs := by simpa using ha
      exact .inl ⟨rfl, by simpa [eq_comm] using hd⟩
    | cons ch mid =>
      obtain ⟨rfl, hrest⟩ := List.cons.inj hd
      exact .inr (.inr ⟨mid, ha, hrest⟩)

theorem incidentRefName_eq_iff {branch tip branch' tip' : String} :
    incidentRefName branch tip = incidentRefName branch' tip' ↔
      (branchLeaf branch = branchLeaf branch' ∧ tip = tip') ∨ JoinsInside branch tip branch' tip' ∨
        JoinsInside branch' tip' branch tip := by
  constructor
  · intro h
    have hlist : (branchLeaf branch).toList ++ '/' :: tip.toList = (branchLeaf branch').toList ++ '/' :: tip'.toList := by
      have hh := congrArg String.toList h
      simpa [incidentRefName_eq] using hh
    rcases slash_split hlist with ⟨hl, ht⟩ | ⟨mid, hl, ht⟩ | ⟨mid, hl, ht⟩
    · exact .inl ⟨String.toList_inj.mp hl, String.toList_inj.mp ht⟩
    · refine .inr (.inl ⟨String.ofList mid, String.toList_inj.mp ?_, String.toList_inj.mp ?_⟩)
      · simpa using hl
      · simpa using ht
    · refine .inr (.inr ⟨String.ofList mid, String.toList_inj.mp ?_, String.toList_inj.mp ?_⟩)
      · simpa using hl
      · simpa using ht
  · rw [incidentRefName_eq, incidentRefName_eq]
    rintro (⟨hl, rfl⟩ | ⟨mid, hl, rfl⟩ | ⟨mid, hl, rfl⟩)
    · rw [hl]
    · rw [hl]
      simp only [String.append_assoc]
    · rw [hl]
      simp only [String.append_assoc]

theorem joinsInside_irrefl (branch tip : String) : ¬ JoinsInside branch tip branch tip := by
  rintro ⟨mid, hl, -⟩
  have hlen := congrArg (fun text => text.toList.length) hl
  simp at hlen

section

variable (c : Crates) (protectedRef : String)

def syncState (calls : List SyncCall) : BidirSync :=
  (runSync c (.withProtected protectedRef) calls).2

def answerTo (before : List SyncCall) (call : SyncCall) : SyncAnswer :=
  (call.run c (syncState c protectedRef before)).1

def Preserves (before : List SyncCall) (call : SyncCall) (incident : IncidentRef) : Prop :=
  ∃ resolution, answerTo c protectedRef before call = .arbitrated (.ok (resolution, incident))

def PreservedFor (calls : List SyncCall) (branch tip : String) : Prop :=
  ∃ before forgeTip chain recordedAt incident,
    before ++ [.arbitrateBranchDivergence branch forgeTip tip chain recordedAt] <+: calls ∧
      Preserves c protectedRef before (.arbitrateBranchDivergence branch forgeTip tip chain recordedAt) incident

variable (calls : List SyncCall)

def NeverPanics : Prop :=
  ∀ before call, before ++ [call] <+: calls → answerTo c protectedRef before call ≠ .panicked

/-- At every later point the incident ref resolves to the tip it preserves. -/
def Recoverable : Prop :=
  ∀ before call point incident, before ++ [call] <+: point → point <+: calls →
    Preserves c protectedRef before call incident →
      (syncState c protectedRef point).forgeTip c incident.refName = .ok (some incident.preservedTip)

def Separate : Prop :=
  ∀ branch tip branch' tip', PreservedFor c protectedRef calls branch tip →
    PreservedFor c protectedRef calls branch' tip' → incidentRefName branch tip = incidentRefName branch' tip' →
      branch = branch' ∧ tip = tip'

/-- No later call leaves another tip on the incident ref. -/
def NeverOverwritten : Prop :=
  ∀ before call point later incident tip, before ++ [call] <+: point → point ++ [later] <+: calls →
    Preserves c protectedRef before call incident →
      forgeWrite protectedRef (later, answerTo c protectedRef point later) = some (incident.refName, tip) →
        tip = some incident.preservedTip

def NeverJoined : Prop :=
  ∀ branch tip branch' tip', PreservedFor c protectedRef calls branch tip →
    PreservedFor c protectedRef calls branch' tip' →
      ¬ JoinsInside branch tip branch' tip' ∧ (branchLeaf branch = branchLeaf branch' → tip = tip' → branch = branch')

end

section

variable {c : Crates} {protectedRef : String} {calls : List SyncCall}

theorem run_eq_panicked {call : SyncCall} {s : BidirSync} :
    (call.run c s).1 = .panicked ↔
      ∃ refName tip chain recordedAt, call = .arbitrateBranchDivergence refName tip tip chain recordedAt := by
  cases call with
  | arbitrateBranchDivergence refName forgeTip githubTip chain recordedAt =>
    simp only [SyncCall.run, arbitrateBranchDivergence_eq]
    by_cases he : forgeTip = githubTip
    · subst he
      rw [if_pos rfl]
      exact iff_of_true rfl ⟨refName, forgeTip, chain, recordedAt, rfl⟩
    · rw [if_neg he]
      refine iff_of_false ?_ ?_
      · by_cases hchain : chain = [] <;> simp [hchain]
      · rintro ⟨_, _, _, _, hcall⟩
        obtain ⟨-, rfl, hs, -⟩ := SyncCall.arbitrateBranchDivergence.inj hcall
        exact he hs.symm
  | ingestGithubPush | ingestGithubBranch | landViaQueue | mirrorOutForgeBranch | convergeOutbound | convergeInbound |
    reflectBounded => simp [SyncCall.run]

theorem neverPanics_iff : NeverPanics c protectedRef calls ↔
    ∀ refName tip chain recordedAt, .arbitrateBranchDivergence refName tip tip chain recordedAt ∉ calls := by
  constructor
  · intro h refName tip chain recordedAt hmem
    obtain ⟨before, after, rfl⟩ := List.append_of_mem hmem
    refine h before (.arbitrateBranchDivergence refName tip tip chain recordedAt) ⟨after, by simp⟩ ?_
    exact run_eq_panicked.mpr ⟨refName, tip, chain, recordedAt, rfl⟩
  · intro h before call hpre hpanic
    obtain ⟨refName, tip, chain, recordedAt, rfl⟩ := run_eq_panicked.mp hpanic
    exact h refName tip chain recordedAt (hpre.subset (by simp))

theorem separate_iff : Separate c protectedRef calls ↔ NeverJoined c protectedRef calls := by
  constructor
  · intro h branch tip branch' tip' hp hp'
    refine ⟨fun hj => ?_, fun hl ht => ?_⟩
    · obtain ⟨rfl, rfl⟩ := h _ _ _ _ hp hp' (incidentRefName_eq_iff.mpr (.inr (.inl hj)))
      exact joinsInside_irrefl branch tip hj
    · exact (h _ _ _ _ hp hp' (incidentRefName_eq_iff.mpr (.inl ⟨hl, ht⟩))).1
  · intro h branch tip branch' tip' hp hp' he
    rcases incidentRefName_eq_iff.mp he with ⟨hl, ht⟩ | hj | hj
    · exact ⟨(h _ _ _ _ hp hp').2 hl ht, ht⟩
    · exact absurd hj (h _ _ _ _ hp hp').1
    · exact absurd hj (h _ _ _ _ hp' hp).1

variable (hc : c.Sound) (hread : c.ReadsJson)

include hc hread

theorem forgeTip_of_write {point : List SyncCall} {call : SyncCall} {name : String} {tip : Option String}
    (hw : forgeWrite protectedRef (call, answerTo c protectedRef point call) = some (name, tip)) :
    (syncState c protectedRef (point ++ [call])).forgeTip c name = .ok tip := by
  obtain ⟨state, -, hafter⟩ := forgeTip_concat hc hread protectedRef name point call
  unfold answerTo syncState at hw
  rw [hw, RefState.get_apply_some, if_pos rfl] at hafter
  exact hafter

theorem forgeTip_of_other {point : List SyncCall} {call : SyncCall} {name : String}
    (hw : ∀ write ∈ forgeWrite protectedRef (call, answerTo c protectedRef point call), write.1 ≠ name) :
    (syncState c protectedRef (point ++ [call])).forgeTip c name =
      (syncState c protectedRef point).forgeTip c name := by
  obtain ⟨state, hbefore, hafter⟩ := forgeTip_concat hc hread protectedRef name point call
  unfold answerTo syncState at hw
  rw [get_apply_of_ne hw] at hafter
  exact hafter.trans hbefore.symm

theorem recoverable_iff : Recoverable c protectedRef calls ↔ NeverOverwritten c protectedRef calls := by
  constructor
  · intro h before call point later incident tip hpre hlater hpreserved hw
    have htip := h before call (point ++ [later]) incident (hpre.trans (List.prefix_append _ _)) hlater hpreserved
    rw [forgeTip_of_write hc hread hw] at htip
    exact Except.ok.inj htip
  · intro h before call point incident hpre hpoint hpreserved
    induction point using List.reverseRecOn with
    | nil => simp at hpre
    | append_singleton point later ih =>
      rcases List.prefix_concat_iff.mp hpre with he | hpre
      · obtain ⟨rfl, hcall⟩ := List.append_inj' he rfl
        obtain rfl := List.singleton_inj.mp hcall
        obtain ⟨resolution, hanswer⟩ := hpreserved
        refine forgeTip_of_write hc hread ?_
        rw [hanswer]
        cases call <;> rfl
      · have htip := ih hpre ((List.prefix_append _ _).trans hpoint)
        by_cases hw : ∃ tip, forgeWrite protectedRef (later, answerTo c protectedRef point later) =
            some (incident.refName, tip)
        · obtain ⟨tip, hw⟩ := hw
          rw [forgeTip_of_write hc hread hw, h before call point later incident tip hpre hpoint hpreserved hw]
        · rw [forgeTip_of_other hc hread, htip]
          intro write hwrite hname
          exact hw ⟨write.2, by rw [← hname]; exact hwrite⟩

end

theorem incidents_recoverable_iff {c : Crates} (hc : c.Sound) (hread : c.ReadsJson) (protectedRef : String)
    (calls : List SyncCall) :
    NeverPanics c protectedRef calls ∧ Recoverable c protectedRef calls ∧ Separate c protectedRef calls ↔
      (∀ refName tip chain recordedAt, .arbitrateBranchDivergence refName tip tip chain recordedAt ∉ calls) ∧
        NeverOverwritten c protectedRef calls ∧ NeverJoined c protectedRef calls :=
  and_congr neverPanics_iff (and_congr (recoverable_iff hc hread) separate_iff)

def oneIncident : SyncCall :=
  .arbitrateBranchDivergence "refs/heads/feature" "a1" "b2" ["dev"] 1

theorem oneIncident_recoverable :
    (syncState reference "refs/heads/main" [oneIncident]).forgeTip reference
      (incidentRefName "refs/heads/feature" "b2") = .ok (some "b2") := by
  have hequal : ∀ refName tip chain recordedAt,
      SyncCall.arbitrateBranchDivergence refName tip tip chain recordedAt ∉ [oneIncident] := by
    intro refName tip chain recordedAt hmem
    obtain ⟨-, ha, hb, -⟩ := SyncCall.arbitrateBranchDivergence.inj (List.mem_singleton.mp hmem)
    exact absurd (ha.symm.trans hb) (by decide)
  have hkept : NeverOverwritten reference "refs/heads/main" [oneIncident] := by
    intro before call point later incident tip hpre hlater
    have hp := hpre.length_le
    have hl := hlater.length_le
    simp only [List.length_append, List.length_singleton] at hp hl
    omega
  have hone {branch tip : String} (hp : PreservedFor reference "refs/heads/main" [oneIncident] branch tip) :
      branch = "refs/heads/feature" ∧ tip = "b2" := by
    obtain ⟨before, forgeTip, chain, recordedAt, incident, hpre, -⟩ := hp
    have hmem := List.mem_singleton.mp (hpre.subset (List.mem_append_right before (List.mem_singleton_self _)))
    obtain ⟨rfl, -, rfl, -⟩ := SyncCall.arbitrateBranchDivergence.inj hmem
    exact ⟨rfl, rfl⟩
  have hjoined : NeverJoined reference "refs/heads/main" [oneIncident] := by
    intro branch tip branch' tip' hp hp'
    obtain ⟨rfl, rfl⟩ := hone hp
    obtain ⟨rfl, rfl⟩ := hone hp'
    exact ⟨joinsInside_irrefl _ _, fun _ _ => rfl⟩
  have hall := (incidents_recoverable_iff reference_sound reference_readsJson "refs/heads/main" [oneIncident]).mpr
    ⟨hequal, hkept, hjoined⟩
  exact hall.2.1 [] oneIncident [oneIncident] ⟨incidentRefName "refs/heads/feature" "b2", "b2"⟩ (List.prefix_refl _)
    (List.prefix_refl _) ⟨_, rfl⟩

/-- Equal tips end in a panic, a push over the incident ref replaces the preserved tip, and
two branches share one incident ref. -/
theorem incidents_lost :
    answerTo reference "refs/heads/main" []
        (.arbitrateBranchDivergence "refs/heads/feature" "a1" "a1" ["dev"] 1) = .panicked ∧
      (syncState reference "refs/heads/main" ([oneIncident] ++
        [.ingestGithubPush "refs/hugit/incidents/feature/b2" "c3" ["dev"] 2])).forgeTip reference
          "refs/hugit/incidents/feature/b2" = .ok (some "c3") ∧
      incidentRefName "refs/heads/feature" "b2" = "refs/hugit/incidents/feature/b2" ∧
      incidentRefName "refs/heads/a" "b/c" = incidentRefName "refs/heads/a/b" "c" := by
  refine ⟨run_eq_panicked.mpr ⟨_, _, _, _, rfl⟩, forgeTip_of_write reference_sound reference_readsJson rfl, ?_, ?_⟩
  · decide +kernel
  · decide +kernel

end Hugit

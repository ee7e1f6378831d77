import Hugit.CanonicalJson
import Hugit.Ledger

/-! Rejections in the ledger of a growing log. A rejection of a lens stays until the
lens approves, but the verdicts of an intent follow its id to the last landing of it. -/

namespace Hugit.Ledger

open Std

variable {c : Crates} {m : Measures} {records : List EventRecord} {r : EventRecord} {id campaign lens : String}
  {vo : VerdictObject}

/-- Some landing of the intent has an entry of the campaign that is rejected. -/
def ShowsRejected (c : Crates) (m : Measures) (records : List EventRecord) (id campaign : String) : Prop :=
  ∃ (i : Nat) (l : EventRecord × Value) (e : Entry), (landings c records)[i]? = some l ∧ rawIntentId l.2 = id ∧
    (fromRecords c m records).entries[i]? = some e ∧ e.campaign = campaign ∧ e.rejected = true

/-- The verdict is the last one about the intent that speaks of the lens, and
rejects it. -/
def RejectedBy (c : Crates) (records : List EventRecord) (id lens : String) (vo : VerdictObject) : Prop :=
  ∃ before after, verdictsFor c records id = before ++ vo :: after ∧
    (∃ v, vo.lensOutcomes[lens]? = some v ∧ v ≠ .approve) ∧ ∀ later ∈ after, later.lensOutcomes[lens]? = none

/-- A verdict about the intent that approves the lens by name, or approves without
the details that the rejection did not have either. -/
def Reapproves (c : Crates) (id lens : String) (vo : VerdictObject) (r : EventRecord) : Prop :=
  ∃ new, r.verdictObject c = some new ∧ new.intent = id ∧
    ((lens, .approve) ∈ new.parsedClaims ∨ new.parsedClaims = [] ∧ vo.parsedClaims = [] ∧ new.verdict = .approve)

def Rejects (objects : List VerdictObject) : Prop :=
  ∃ lens v, lensOutcome objects lens = some v ∧ v ≠ .approve

def landedCampaign (c : Crates) (m : Measures) (records : List EventRecord) (id : String) : Option String :=
  lastWrite id ((landings c records).map fun l => (rawIntentId l.2, redactText m (rawCampaign l.2)))

section Shown

theorem landedCampaign_eq (c : Crates) (m : Measures) (records : List EventRecord) (id : String) :
    landedCampaign c m records id =
      (lastLanded c records id).bind fun i => (landings c records)[i]?.map fun l => redactText m (rawCampaign l.2) :=
  lastWrite_zipIdx _ _ _ _

theorem landedCampaign_concat (c : Crates) (m : Measures) (records : List EventRecord) (r : EventRecord) (id : String) :
    landedCampaign c m (records ++ [r]) id =
      (((r.landed c).filter (rawIntentId · = id)).map fun v => redactText m (rawCampaign v)).or
        (landedCampaign c m records id) := by
  rw [landedCampaign, landings_concat]
  cases r.landed c with
  | none => simp [landedCampaign]
  | some v => by_cases hid : rawIntentId v = id <;> simp [landedCampaign, hid, Option.filter]

theorem verdictsFor_concat (c : Crates) (records : List EventRecord) (r : EventRecord) (id : String) :
    verdictsFor c (records ++ [r]) id =
      verdictsFor c records id ++ ((r.verdictObject c).filter (·.intent = id)).toList := by
  rw [verdictsFor, verdicts_append, List.filter_append, verdictsFor]
  refine congrArg ((verdicts c records).filter (·.intent = id) ++ ·) ?_
  cases hv : r.verdictObject c with
  | none => simp [verdicts, hv]
  | some vo => by_cases hid : vo.intent = id <;> simp [verdicts, hv, hid, Option.filter]

theorem lensOutcome_nil (lens : String) : lensOutcome [] lens = none := rfl

theorem showsRejected_iff : ShowsRejected c m records id campaign ↔
    landedCampaign c m records id = some campaign ∧ Rejects (verdictsFor c records id) := by
  constructor
  · rintro ⟨i, l, e, hl, rfl, he, rfl, hrejected⟩
    obtain ⟨e', he', hunmarked, hmarked⟩ := entry_of_landing (m := m) hl
    obtain rfl := Option.some.inj (he.symm.trans he')
    obtain ⟨lens, v, hv, hne⟩ := hmarked.rejected.mp hrejected
    have hlast : lastLanded c records (rawIntentId l.2) = some i := by
      obtain ⟨vo, hvo⟩ : ∃ vo, vo ∈ linkedVerdicts c records i := by
        refine List.exists_mem_of_ne_nil _ fun hnil => ?_
        rw [hnil, lensOutcome_nil] at hv
        cases hv
      have hlinked : lastLanded c records vo.intent = some i := by simpa using (List.mem_filter.mp hvo).2
      obtain ⟨l', hl', hid⟩ := landing_of_lastLanded hlinked
      rw [Option.some.inj (hl.symm.trans hl'), hid]
      exact hlinked
    rw [linkedVerdicts_of_last hl hlast] at hv
    have hcampaign : e.campaign = redactText m (rawCampaign l.2) := congrArg Entry.campaign hunmarked
    refine ⟨?_, lens, v, hv, hne⟩
    rw [landedCampaign_eq, hlast, Option.bind_some, hl, hcampaign]
    rfl
  · rintro ⟨hcampaign, hrejects⟩
    rw [landedCampaign_eq] at hcampaign
    obtain ⟨i, hlast, hi⟩ := Option.bind_eq_some_iff.mp hcampaign
    obtain ⟨l, hl, rfl⟩ := Option.map_eq_some_iff.mp hi
    obtain ⟨l', hl', rfl⟩ := landing_of_lastLanded hlast
    obtain rfl := Option.some.inj (hl.symm.trans hl')
    obtain ⟨e, he, hunmarked, hmarked⟩ := entry_of_landing (m := m) hl
    rw [linkedVerdicts_of_last hl hlast] at hmarked
    exact ⟨i, l, e, hl, rfl, he, congrArg Entry.campaign hunmarked, hmarked.rejected.mpr hrejects⟩

theorem lensOutcome_of_rejectedBy (h : RejectedBy c records id lens vo) :
    ∃ v, lensOutcome (verdictsFor c records id) lens = some v ∧ v ≠ .approve := by
  obtain ⟨before, after, hsplit, ⟨v, hv, hne⟩, hafter⟩ := h
  have hlater : lensOutcome after lens = none := by
    refine lastWrite_eq_none.mpr fun w hw he => ?_
    obtain ⟨later, hlater, hmem⟩ := List.mem_flatMap.mp hw
    have hget := ExtTreeMap.mem_toList_iff_getElem?_eq_some.mp (show (w.1, w.2) ∈ later.lensOutcomes.toList from hmem)
    rw [he, hafter later hlater] at hget
    cases hget
  refine ⟨v, ?_, hne⟩
  rw [hsplit, ← List.singleton_append, lensOutcome_append, lensOutcome_append, hlater, lensOutcome_singleton, hv]
  rfl

end Shown

section Outcomes

theorem mem_of_merged {ws : List (String × Verdict)} {v : Verdict}
    (h : (ws.foldl (fun slot w => mergeLensOutcome slot w.1 w.2) ∅ : LensMap)[lens]? = some v) : (lens, v) ∈ ws := by
  induction ws using List.reverseRecOn with
  | nil => simp at h
  | append_singleton ws w ih =>
    rw [List.foldl_concat, getElem?_mergeLensOutcome] at h
    split_ifs at h with hw
    · obtain rfl := Option.some.inj h
      simp [← hw.1]
    · exact List.mem_append_left _ (ih h)

theorem lensOutcomes_undetailed (h : vo.parsedClaims = []) (lens : String) :
    vo.lensOutcomes[lens]? = if "panel" = lens then some vo.verdict else none := by
  rw [VerdictObject.lensOutcomes, if_pos h, getElem?_mergeLensOutcome]
  simp

theorem mem_of_lensOutcomes {v : Verdict} (hdetails : vo.parsedClaims ≠ []) (h : vo.lensOutcomes[lens]? = some v) :
    (lens, v) ∈ vo.parsedClaims := by
  rw [VerdictObject.lensOutcomes, if_neg hdetails] at h
  exact mem_of_merged h

theorem lensOutcome_concat (objects : List VerdictObject) (vo : VerdictObject) (lens : String) :
    lensOutcome (objects ++ [vo]) lens = vo.lensOutcomes[lens]?.or (lensOutcome objects lens) := by
  rw [lensOutcome_append, lensOutcome_singleton]

theorem rejects_concat_undetailed {objects : List VerdictObject} (h : vo.parsedClaims = []) :
    Rejects (objects ++ [vo]) ↔ vo.verdict ≠ .approve ∨
      ∃ other v, other ≠ "panel" ∧ lensOutcome objects other = some v ∧ v ≠ .approve := by
  simp only [Rejects, lensOutcome_concat, lensOutcomes_undetailed h]
  constructor
  · rintro ⟨lens, v, hv, hne⟩
    by_cases hpanel : "panel" = lens
    · rw [if_pos hpanel, Option.some_or] at hv
      exact .inl (Option.some.inj hv ▸ hne)
    · rw [if_neg hpanel, Option.none_or] at hv
      exact .inr ⟨lens, v, Ne.symm hpanel, hv, hne⟩
  · rintro (hverdict | ⟨other, v, hother, hv, hne⟩)
    · exact ⟨"panel", vo.verdict, by simp, hverdict⟩
    · exact ⟨other, v, by rw [if_neg (Ne.symm hother), Option.none_or, hv], hne⟩

theorem rejects_concat_detailed {objects : List VerdictObject} {v : Verdict} (hdetails : vo.parsedClaims ≠ [])
    (hv : lensOutcome objects lens = some v) (hne : v ≠ .approve) (hkept : (lens, .approve) ∉ vo.parsedClaims) :
    Rejects (objects ++ [vo]) := by
  cases hsaid : vo.lensOutcomes[lens]? with
  | none => exact ⟨lens, v, by rw [lensOutcome_concat, hsaid, Option.none_or, hv], hne⟩
  | some u =>
    refine ⟨lens, u, by rw [lensOutcome_concat, hsaid, Option.some_or], ?_⟩
    rintro rfl
    exact hkept (mem_of_lensOutcomes hdetails hsaid)

end Outcomes

/-- A rejected intent of a campaign stays so under a record that does not approve the
rejecting lens, exactly when the record is no landing of the same id in another
campaign, and no approval without details that leaves only the lens `panel` behind. -/
theorem reject_sticky_iff (hshown : ShowsRejected c m records id campaign) (hby : RejectedBy c records id lens vo)
    (hr : ¬ Reapproves c id lens vo r) :
    ShowsRejected c m (records ++ [r]) id campaign ↔
      (∀ v, r.landed c = some v → rawIntentId v = id → redactText m (rawCampaign v) = campaign) ∧
      ∀ new, r.verdictObject c = some new → new.intent = id → new.parsedClaims = [] → new.verdict = .approve →
        ∃ other v, other ≠ "panel" ∧ lensOutcome (verdictsFor c records id) other = some v ∧ v ≠ .approve := by
  obtain ⟨hcampaign, -⟩ := showsRejected_iff.mp hshown
  obtain ⟨v, hv, hne⟩ := lensOutcome_of_rejectedBy hby
  rw [showsRejected_iff, landedCampaign_concat, verdictsFor_concat, hcampaign]
  refine and_congr ?_ ?_
  · cases r.landed c with
    | none => simp
    | some landed => by_cases hid : rawIntentId landed = id <;> simp [hid, Option.filter]
  · cases hnew : r.verdictObject c with
    | none => simpa using ⟨lens, v, hv, hne⟩
    | some new =>
      by_cases hid : new.intent = id
      · have happroved : ¬ ((lens, .approve) ∈ new.parsedClaims ∨
            new.parsedClaims = [] ∧ vo.parsedClaims = [] ∧ new.verdict = .approve) :=
          fun h => hr ⟨new, hnew, hid, h⟩
        by_cases hdetails : new.parsedClaims = []
        · have hsame : ((some new).filter (·.intent = id)).toList = [new] := by simp [Option.filter, hid]
          rw [hsame, rejects_concat_undetailed hdetails]
          constructor
          · rintro h new' hnew' - - happrove
            obtain rfl := Option.some.inj hnew'
            exact h.resolve_left fun hverdict => hverdict happrove
          · intro h
            by_cases hverdict : new.verdict = .approve
            · exact .inr (h new rfl hid hdetails hverdict)
            · exact .inl hverdict
        · have hrejects := rejects_concat_detailed hdetails hv hne fun h => happroved (.inl h)
          simpa [Option.filter, hid, hdetails] using hrejects
      · have hrejects : Rejects (verdictsFor c records id) := ⟨lens, v, hv, hne⟩
        simpa [Option.filter, hid] using hrejects

section Samples

def noMeasures : Measures :=
  ⟨fun _ => 0⟩

def landingOf (campaign : String) : Value :=
  .object [("campaign", .string campaign), ("intent_id", .string "i")]

def sampleLanding (campaign : String) : EventRecord :=
  ⟨0, "", "", intentLandedKind, [], reference.print (landingOf campaign), 0⟩

def samplePanel (verdict : Verdict) (claims : List String) : VerdictObject :=
  ⟨"i", "", "panel", "", "", verdict, claims, []⟩

def sampleVerdict (verdict : Verdict) (claims : List String) : EventRecord :=
  ⟨1, "", "", verdictRecordedKind, [],
    reference.print (VerdictObject.serde.toValue (samplePanel verdict claims)), 0⟩

theorem landed_sampleLanding (campaign : String) :
    (sampleLanding campaign).landed reference = some (landingOf campaign) := by
  have hflat : (landingOf campaign).Flat := by simp [landingOf, Value.Flat, Value.IsLeaf]
  exact reference_json.reads_back _ (hflat.printable 126)

theorem verdictObject_sampleVerdict (verdict : Verdict) (claims : List String) :
    (sampleVerdict verdict claims).verdictObject reference = some (samplePanel verdict claims) := by
  have hreads := VerdictObject.serde_reads 125 (samplePanel verdict claims)
  have hread : reference.fromStr (sampleVerdict verdict claims).payload =
      some (VerdictObject.serde.toValue (samplePanel verdict claims)) := reference_json.reads_back _ hreads.printable
  have hkind : (sampleVerdict verdict claims).kind = verdictRecordedKind := rfl
  rw [EventRecord.verdictObject, if_pos hkind, hread]
  exact hreads.reads

theorem verdictObject_sampleLanding (campaign : String) :
    (sampleLanding campaign).verdictObject reference = none :=
  if_neg (show intentLandedKind ≠ verdictRecordedKind by decide)

theorem landed_sampleVerdict (verdict : Verdict) (claims : List String) :
    (sampleVerdict verdict claims).landed reference = none :=
  if_neg (show verdictRecordedKind ≠ intentLandedKind by decide)

theorem redactText_letters : ∀ text ∈ ["a", "b"], redactText noMeasures text = text := by
  decide +kernel

def sampleRejected : List EventRecord :=
  [sampleLanding "a", sampleVerdict .reject ["sec:reject"]]

theorem verdictsFor_sampleRejected :
    verdictsFor reference sampleRejected "i" = [samplePanel .reject ["sec:reject"]] := by
  have hverdicts : verdicts reference sampleRejected = [samplePanel .reject ["sec:reject"]] := by
    simp [verdicts, sampleRejected, verdictObject_sampleLanding, verdictObject_sampleVerdict]
  rw [verdictsFor, hverdicts]
  rfl

theorem landedCampaign_sampleRejected : landedCampaign reference noMeasures sampleRejected "i" = some "a" := by
  have hlandings : landings reference sampleRejected = [(sampleLanding "a", landingOf "a")] := by
    simp [landings, sampleRejected, landed_sampleLanding, landed_sampleVerdict]
  rw [landedCampaign, hlandings]
  exact congrArg some (redactText_letters "a" (by decide))

theorem sampleRejected_by : RejectedBy reference sampleRejected "i" "sec" (samplePanel .reject ["sec:reject"]) :=
  ⟨[], [], verdictsFor_sampleRejected, ⟨.reject, by decide +kernel, by decide⟩, nofun⟩

theorem sampleRejected_shown : ShowsRejected reference noMeasures sampleRejected "i" "a" := by
  obtain ⟨v, hv, hne⟩ := lensOutcome_of_rejectedBy sampleRejected_by
  exact showsRejected_iff.mpr ⟨landedCampaign_sampleRejected, "sec", v, hv, hne⟩

/-- The intent lands again in another campaign: the entry of the first one loses its
rejection. -/
theorem reject_moves_with_landing :
    ShowsRejected reference noMeasures sampleRejected "i" "a" ∧
      RejectedBy reference sampleRejected "i" "sec" (samplePanel .reject ["sec:reject"]) ∧
      ¬ Reapproves reference "i" "sec" (samplePanel .reject ["sec:reject"]) (sampleLanding "b") ∧
      ShowsRejected reference noMeasures (sampleRejected ++ [sampleLanding "b"]) "i" "b" ∧
      ¬ ShowsRejected reference noMeasures (sampleRejected ++ [sampleLanding "b"]) "i" "a" := by
  have hcampaign : landedCampaign reference noMeasures (sampleRejected ++ [sampleLanding "b"]) "i" = some "b" := by
    rw [landedCampaign_concat, landed_sampleLanding]
    exact congrArg some (redactText_letters "b" (by decide))
  have hverdicts : verdictsFor reference (sampleRejected ++ [sampleLanding "b"]) "i" =
      verdictsFor reference sampleRejected "i" := by
    rw [verdictsFor_concat, verdictObject_sampleLanding]
    exact List.append_nil _
  refine ⟨sampleRejected_shown, sampleRejected_by, ?_, ?_, ?_⟩
  · rintro ⟨new, hnew, -⟩
    rw [verdictObject_sampleLanding] at hnew
    cases hnew
  · rw [showsRejected_iff, hcampaign, hverdicts]
    exact ⟨rfl, (showsRejected_iff.mp sampleRejected_shown).2⟩
  · rw [showsRejected_iff, hcampaign]
    exact fun h => absurd h.1 (by decide)

theorem other_lens_keeps_rejected :
    ShowsRejected reference noMeasures (sampleRejected ++ [sampleVerdict .approve ["style:approve"]]) "i" "a" := by
  have hread := verdictObject_sampleVerdict .approve ["style:approve"]
  refine (reject_sticky_iff sampleRejected_shown sampleRejected_by ?_).mpr ⟨?_, ?_⟩
  · rintro ⟨new, hnew, -, happroved⟩
    obtain rfl := Option.some.inj (hread.symm.trans hnew)
    revert happroved
    decide +kernel
  · intro v hlanded
    rw [landed_sampleVerdict] at hlanded
    cases hlanded
  · rintro new hnew - hdetails -
    obtain rfl := Option.some.inj (hread.symm.trans hnew)
    exact absurd hdetails (by decide +kernel)

end Samples

end Hugit.Ledger

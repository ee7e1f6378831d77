import Hugit.DockReconcile

/-! Every measured cost of a log comes to exactly one place of its attribution. -/

namespace Hugit

open Std

theorem updateFirst_eq_map {α κ : Type} [DecidableEq κ] {key : α → κ} {k : κ} (f : α → α) {l : List α}
    (hnd : (l.map key).Nodup) :
    updateFirst (fun a => key a = k) f l = l.map fun a => if key a = k then f a else a := by
  induction l with
  | nil => rfl
  | cons a l ih =>
    obtain ⟨ha, hnd⟩ := List.nodup_cons.mp hnd
    by_cases hk : key a = k
    · have hrest : (l.map fun b => if key b = k then f b else b) = l := by
        refine (List.map_congr_left fun b hb => if_neg ?_).trans (List.map_id l)
        intro hb'
        exact ha (List.mem_map.mpr ⟨b, hb, hb'.trans hk.symm⟩)
      simp [updateFirst, hk, hrest]
    · simp [updateFirst, hk, ih hnd]

theorem map_updateFirst {α β : Type} {p : α → Bool} {f : α → α} {g : α → β} (h : ∀ a, g (f a) = g a)
    (l : List α) : (updateFirst p f l).map g = l.map g := by
  induction l with
  | nil => rfl
  | cons a l ih =>
    by_cases hp : p a = true
    · simp [updateFirst, hp, h]
    · simp [updateFirst, hp, ih]

/-- The places a cost can come to. -/
inductive CostLane where
  | dock (id : String)
  | unlabeled
  | reconciled
  | reconciledLate
  | tampered
  deriving DecidableEq

def costOf (s : Value) : Nat := s.u64At "cost_usd_micros"

def laneOf (c : Crates) (views : ExtTreeMap String DockView) (s : Value) : CostLane :=
  if !verifySampleHash c s then .tampered
  else if s.textAt "dock_id" = "" then .unlabeled
  else
    match views[s.textAt "dock_id"]? with
    | some view => if racedAhead view s then .reconciledLate else .dock (s.textAt "dock_id")
    | none => .reconciled

def laneCost (lane : Value → CostLane) (l : CostLane) (samples : List Value) : Nat :=
  ((samples.filter fun s => lane s = l).map costOf).sum

theorem laneCost_concat (lane : Value → CostLane) (l : CostLane) (samples : List Value) (s : Value) :
    laneCost lane l (samples ++ [s]) = laneCost lane l samples + if lane s = l then costOf s else 0 := by
  by_cases h : lane s = l <;> simp [laneCost, h]

theorem laneCost_le (lane : Value → CostLane) (l : CostLane) (samples : List Value) :
    laneCost lane l samples ≤ (samples.map costOf).sum :=
  ((List.filter_sublist (l := samples)).map costOf).sum_le_sum (by simp)

def CostLanes.Holds (lanes : CostLanes) : CostLane → Nat → Prop
  | .dock id, n => ∃ d ∈ lanes.docks, d.dockId = id ∧ d.costUsdMicros = n
  | .unlabeled, n => lanes.unlabeled = n
  | .reconciled, n => lanes.reconciled = n
  | .reconciledLate, n => lanes.reconciledLate = n
  | .tampered, n => lanes.tampered = n

/-- The lanes hold the exact costs of the samples read so far. -/
structure Charged (lane : Value → CostLane) (ids : List String) (samples : List Value) (lanes : CostLanes) :
    Prop where
  ids : lanes.docks.map DockAttribution.dockId = ids
  holds : ∀ l n, lanes.Holds l n → n = laneCost lane l samples

def charge (cost : Nat) (lanes : CostLanes) : CostLane → CostLanes
  | .dock id => { lanes with docks := addCost id cost lanes.docks }
  | .unlabeled => { lanes with unlabeled := wrappingAdd lanes.unlabeled cost }
  | .reconciled => { lanes with reconciled := wrappingAdd lanes.reconciled cost }
  | .reconciledLate => { lanes with reconciledLate := wrappingAdd lanes.reconciledLate cost }
  | .tampered => { lanes with tampered := wrappingAdd lanes.tampered cost }

theorem addSample_eq (c : Crates) (views : ExtTreeMap String DockView) (lanes : CostLanes) (s : Value) :
    addSample c views lanes s =
      if costOf s = 0 then lanes else charge (costOf s) lanes (laneOf c views s) := by
  unfold addSample laneOf costOf
  dsimp only
  split_ifs
  · rfl
  · rfl
  · rfl
  · cases hv : views[s.textAt "dock_id"]? with
    | none => rfl
    | some view =>
      dsimp only
      split_ifs <;> rfl

theorem mem_addCost {id : String} {cost : Nat} {docks : List DockAttribution} {d : DockAttribution}
    (hnd : (docks.map DockAttribution.dockId).Nodup) (hd : d ∈ addCost id cost docks) :
    (d.dockId = id ∧ ∃ d' ∈ docks, d'.dockId = id ∧ d.costUsdMicros = wrappingAdd d'.costUsdMicros cost) ∨
      (d.dockId ≠ id ∧ d ∈ docks) := by
  rw [addCost, updateFirst_eq_map _ hnd] at hd
  obtain ⟨d', hd', rfl⟩ := List.mem_map.mp hd
  by_cases h : d'.dockId = id
  · rw [if_pos h]
    exact .inl ⟨h, d', hd', h, rfl⟩
  · rw [if_neg h]
    exact .inr ⟨h, hd'⟩

theorem holds_charge {lanes : CostLanes} {l l' : CostLane} {cost n : Nat}
    (hnd : (lanes.docks.map DockAttribution.dockId).Nodup) (h : (charge cost lanes l').Holds l n) :
    (l = l' ∧ ∃ m, lanes.Holds l m ∧ n = wrappingAdd m cost) ∨ (l ≠ l' ∧ lanes.Holds l n) := by
  cases l' with
  | dock id =>
    cases l with
    | dock id' =>
      obtain ⟨d, hd, rfl, rfl⟩ := h
      rcases mem_addCost hnd hd with ⟨rfl, d', hd', hid, hcost⟩ | ⟨hne, hd⟩
      · exact .inl ⟨rfl, _, ⟨d', hd', hid, rfl⟩, hcost⟩
      · exact .inr ⟨fun he => hne (CostLane.dock.inj he), d, hd, rfl, rfl⟩
    | unlabeled | reconciled | reconciledLate | tampered => exact .inr ⟨by simp, h⟩
  | unlabeled | reconciled | reconciledLate | tampered =>
    cases l with
    | dock | unlabeled | reconciled | reconciledLate | tampered =>
      first
        | exact .inl ⟨rfl, _, rfl, h.symm⟩
        | exact .inr ⟨by simp, h⟩

theorem ids_charge (cost : Nat) (lanes : CostLanes) (l : CostLane) :
    (charge cost lanes l).docks.map DockAttribution.dockId = lanes.docks.map DockAttribution.dockId := by
  cases l with
  | dock id =>
    refine map_updateFirst ?_ lanes.docks
    exact fun _ => rfl
  | unlabeled | reconciled | reconciledLate | tampered => rfl

theorem Charged.step {lane : Value → CostLane} {ids : List String} {samples : List Value} {lanes : CostLanes}
    (h : Charged lane ids samples lanes) (hnd : ids.Nodup) {s : Value}
    (hfits : ((samples ++ [s]).map costOf).sum < 2 ^ 64) :
    Charged lane ids (samples ++ [s]) (if costOf s = 0 then lanes else charge (costOf s) lanes (lane s)) := by
  by_cases hzero : costOf s = 0
  · rw [if_pos hzero]
    refine ⟨h.ids, fun l n hn => ?_⟩
    rw [laneCost_concat, hzero, ite_self, Nat.add_zero]
    exact h.holds l n hn
  · rw [if_neg hzero]
    refine ⟨(ids_charge _ _ _).trans h.ids, fun l n hn => ?_⟩
    rw [laneCost_concat]
    rcases holds_charge (h.ids ▸ hnd) hn with ⟨rfl, m, hm, rfl⟩ | ⟨hne, hn⟩
    · have hlt := Nat.lt_of_le_of_lt (laneCost_le lane (lane s) (samples ++ [s])) hfits
      rw [laneCost_concat, if_pos rfl] at hlt
      rw [if_pos rfl, h.holds _ m hm, wrappingAdd, Nat.mod_eq_of_lt hlt]
    · rw [if_neg hne.symm, Nat.add_zero]
      exact h.holds l n hn

theorem Charged.run {c : Crates} {views : ExtTreeMap String DockView} {ids : List String} (hnd : ids.Nodup)
    (samples : List Value) {lanes : CostLanes} (h : Charged (laneOf c views) ids [] lanes)
    (hfits : (samples.map costOf).sum < 2 ^ 64) :
    Charged (laneOf c views) ids samples (samples.foldl (addSample c views) lanes) := by
  induction samples using List.reverseRecOn with
  | nil => exact h
  | append_singleton samples s ih =>
    rw [List.foldl_concat, addSample_eq]
    have hle : (samples.map costOf).sum ≤ ((samples ++ [s]).map costOf).sum := by simp
    exact (ih (Nat.lt_of_le_of_lt hle hfits)).step hnd hfits

theorem sum_laneCost {lane : Value → CostLane} {ids : List String} (hnd : ids.Nodup) {samples : List Value}
    (hids : ∀ s ∈ samples, ∀ id, lane s = .dock id → id ∈ ids) :
    (ids.map fun id => laneCost lane (.dock id) samples).sum + laneCost lane .unlabeled samples +
      laneCost lane .reconciled samples + laneCost lane .reconciledLate samples + laneCost lane .tampered samples =
        (samples.map costOf).sum := by
  induction samples using List.reverseRecOn with
  | nil => simp [laneCost]
  | append_singleton samples s ih =>
    have hrest := ih fun s' hs' => hids s' (List.mem_append_left _ hs')
    simp only [laneCost_concat, List.map_append, List.sum_append, List.map_cons, List.map_nil, List.sum_cons,
      List.sum_nil, List.sum_map_add]
    cases hl : lane s with
    | dock id =>
      have hmem := hids s (by simp) id hl
      have hone : (ids.map fun id' => if CostLane.dock id = .dock id' then costOf s else 0).sum = costOf s := by
        have hsingle := List.sum_map_eq_nsmul_single (l := ids) id
          (fun id' => if CostLane.dock id = .dock id' then costOf s else 0)
          (fun id' hne _ => if_neg fun he => hne (CostLane.dock.inj he).symm)
        rw [hsingle, List.count_eq_one_of_mem hnd hmem, if_pos rfl, one_nsmul]
      simp only [reduceCtorEq, if_false, hone]
      omega
    | unlabeled | reconciled | reconciledLate | tampered =>
      simp only [reduceCtorEq, if_false, if_true, List.map_const', List.sum_replicate, smul_zero]
      omega

section

variable {β : Type} {g : DockAttribution → β} (hg : ∀ d n, g { d with commitCount := n } = g d)

include hg

theorem map_creditFirst (count : Nat) (ids : List String) (docks : List DockAttribution) :
    (creditFirst count ids docks).map g = docks.map g := by
  induction ids with
  | nil => rfl
  | cons id ids ih =>
    rw [creditFirst]
    split_ifs
    · exact map_updateFirst (fun d => hg d count) docks
    · exact ih

theorem map_addBranch (repoScope : Option String) (lanes : CommitLanes) (entry : String × Nat) :
    (addBranch repoScope lanes entry).docks.map g = lanes.docks.map g := by
  obtain ⟨branch, count⟩ := entry
  unfold addBranch
  dsimp only
  split_ifs
  · exact map_creditFirst hg _ _ _
  · cases repoScope with
    | none => rfl
    | some rs =>
      dsimp only
      split_ifs
      · exact map_updateFirst (fun d => hg d _) lanes.docks
      · rfl
  · exact map_creditFirst hg _ _ _

theorem map_addBranches (repoScope : Option String) (entries : List (String × Nat)) (lanes : CommitLanes) :
    (entries.foldl (addBranch repoScope) lanes).docks.map g = lanes.docks.map g := by
  induction entries generalizing lanes with
  | nil => rfl
  | cons entry entries ih => exact (ih _).trans (map_addBranch hg repoScope lanes entry)

end

def costSamples (records : DockRecords) : List Value :=
  (records.filter fun r => r.1 = "cost.sample").map Prod.snd

theorem samples_read (inputs : DockInputs) (record : String × Value) :
    (inputs.read record).samples = inputs.samples ++ costSamples [record] := by
  obtain ⟨kind, p⟩ := record
  unfold DockInputs.read costSamples
  dsimp only
  split_ifs with h1 <;> simp_all

theorem samples_readAll (records : DockRecords) : (DockInputs.readAll records).samples = costSamples records := by
  induction records using List.reverseRecOn with
  | nil => rfl
  | append_singleton records record ih =>
    rw [DockInputs.readAll, List.foldl_concat, samples_read, ← DockInputs.readAll, ih]
    simp [costSamples]

def chargedLanes (c : Crates) (dirExists : String → Bool) (records : DockRecords) : CostLanes :=
  let inputs := DockInputs.readAll records
  inputs.samples.foldl (addSample c inputs.allViews) ⟨dockLanes dirExists inputs.allViews, 0, 0, 0, 0⟩

theorem map_docks_attributeOn {β : Type} {g : DockAttribution → β}
    (hcount : ∀ d n, g { d with commitCount := n } = g d) (hbucket : ∀ d b, g { d with bucket := b } = g d)
    (c : Crates) (dirExists : String → Bool) (records : DockRecords) :
    (attributeOn c dirExists records).docks.map g = (chargedLanes c dirExists records).docks.map g := by
  have hfinal (landed : List String) (d : DockAttribution) : g (finalizeBucket landed d) = g d := by
    unfold finalizeBucket
    by_cases hcost : 0 < d.costUsdMicros
    · rw [if_pos hcost]
      exact hbucket d _
    · rw [if_neg hcost]
  simp only [attributeOn, List.map_map]
  refine (List.map_congr_left fun d _ => hfinal _ d).trans ?_
  exact map_addBranches hcount _ _ _

theorem ids_dockLanes (dirExists : String → Bool) (views : ExtTreeMap String DockView) :
    (dockLanes dirExists views).map DockAttribution.dockId = views.keys := by
  rw [dockLanes, List.map_map, ← ExtTreeMap.map_fst_toList_eq_keys]
  rfl

theorem charged_chargedLanes (c : Crates) (dirExists : String → Bool) (records : DockRecords)
    (hfits : ((costSamples records).map costOf).sum < 2 ^ 64) :
    Charged (laneOf c (DockInputs.readAll records).allViews) (DockInputs.readAll records).allViews.keys
      (costSamples records) (chargedLanes c dirExists records) := by
  rw [chargedLanes, samples_readAll]
  refine Charged.run ExtTreeMap.nodup_keys _ ⟨ids_dockLanes _ _, fun l n h => ?_⟩ hfits
  cases l with
  | dock id =>
    obtain ⟨d, hd, _, rfl⟩ := h
    obtain ⟨entry, _, rfl⟩ := List.mem_map.mp hd
    rfl
  | unlabeled | reconciled | reconciledLate | tampered => exact h.symm

theorem mem_keys_of_laneOf {c : Crates} {views : ExtTreeMap String DockView} {s : Value} {id : String}
    (h : laneOf c views s = .dock id) : id ∈ views.keys := by
  unfold laneOf at h
  split_ifs at h
  cases hv : views[s.textAt "dock_id"]? with
  | none => simp [hv] at h
  | some view =>
    rw [hv] at h
    dsimp only at h
    split_ifs at h
    obtain rfl := CostLane.dock.inj h
    exact ExtTreeMap.mem_keys.mpr (ExtTreeMap.mem_iff_isSome_getElem?.mpr (by rw [hv]; rfl))

theorem dock_costs_conserved (c : Crates) (dirExists : String → Bool) (records : DockRecords)
    (hfits : ((costSamples records).map costOf).sum < 2 ^ 64) :
    let summary := attributeOn c dirExists records
    let lane := laneOf c (DockInputs.readAll records).allViews
    ((summary.docks.map DockAttribution.costUsdMicros).sum + summary.unlabeledCost + summary.reconciledCost +
        summary.reconciledLateCost + summary.tamperedCost = ((costSamples records).map costOf).sum) ∧
      ((∀ d ∈ summary.docks, d.costUsdMicros = laneCost lane (.dock d.dockId) (costSamples records)) ∧
        summary.unlabeledCost = laneCost lane .unlabeled (costSamples records) ∧
        summary.reconciledCost = laneCost lane .reconciled (costSamples records) ∧
        summary.reconciledLateCost = laneCost lane .reconciledLate (costSamples records) ∧
        summary.tamperedCost = laneCost lane .tampered (costSamples records)) ∧
      ((summary.docks.map DockAttribution.dockId).Nodup ∧
        ∀ s ∈ costSamples records, ∀ id, lane s = .dock id → id ∈ summary.docks.map DockAttribution.dockId) ∧
      ∀ s ∈ costSamples records, verifySampleHash c s = false → lane s = .tampered := by
  intro summary lane
  have hcharged := charged_chargedLanes c dirExists records hfits
  have hids : summary.docks.map DockAttribution.dockId = (DockInputs.readAll records).allViews.keys :=
    (map_docks_attributeOn (fun _ _ => rfl) (fun _ _ => rfl) c dirExists records).trans hcharged.ids
  have hcosts : ∀ d ∈ summary.docks, d.costUsdMicros = laneCost lane (.dock d.dockId) (costSamples records) := by
    intro d hd
    have hpairs := map_docks_attributeOn (g := fun d => (d.dockId, d.costUsdMicros)) (fun _ _ => rfl)
      (fun _ _ => rfl) c dirExists records
    obtain ⟨d', hd', he⟩ := List.mem_map.mp (hpairs ▸ List.mem_map_of_mem hd)
    obtain ⟨hid, hcost⟩ := Prod.mk.inj he
    exact hcharged.holds _ _ ⟨d', hd', hid, hcost⟩
  have hunlabeled : summary.unlabeledCost = laneCost lane .unlabeled (costSamples records) :=
    hcharged.holds .unlabeled _ rfl
  have hreconciled : summary.reconciledCost = laneCost lane .reconciled (costSamples records) :=
    hcharged.holds .reconciled _ rfl
  have hlate : summary.reconciledLateCost = laneCost lane .reconciledLate (costSamples records) :=
    hcharged.holds .reconciledLate _ rfl
  have htampered : summary.tamperedCost = laneCost lane .tampered (costSamples records) :=
    hcharged.holds .tampered _ rfl
  have hplaced : ∀ s ∈ costSamples records, ∀ id, lane s = .dock id →
      id ∈ (DockInputs.readAll records).allViews.keys := fun s _ id h => mem_keys_of_laneOf h
  refine ⟨?_, ⟨hcosts, hunlabeled, hreconciled, hlate, htampered⟩, ⟨?_, fun s hs id h => ?_⟩, fun s _ h => ?_⟩
  · have hdocks : (summary.docks.map DockAttribution.costUsdMicros).sum =
        ((DockInputs.readAll records).allViews.keys.map fun id => laneCost lane (.dock id) (costSamples records)).sum := by
      rw [← hids, List.map_map]
      exact congrArg List.sum (List.map_congr_left hcosts)
    rw [hdocks, hunlabeled, hreconciled, hlate, htampered]
    exact sum_laneCost ExtTreeMap.nodup_keys hplaced
  · rw [hids]
    exact ExtTreeMap.nodup_keys
  · rw [hids]
    exact hplaced s hs id h
  · exact if_pos (by rw [h]; rfl)

def costSample (dockId : String) (cost : Nat) (hash : String) : Value :=
  .object [("dock_id", .string dockId), ("model", .string "m1"), ("cost_usd_micros", .number (.posInt cost)),
    ("ts_ms", .number (.posInt 9)), ("run_id", .string "r1"), ("content_hash", .string hash)]

def trueHash (dockId : String) (cost : Nat) : String :=
  hexEncode (reference.digest (utf8 (reference.print (costSampleV1 (costSample dockId cost "")))))

def mixedLog : DockRecords :=
  [("cost.sample", costSample "d1" 7 (trueHash "d1" 7)),
    ("dock.record", .object [("dock_id", .string "d1"), ("branch", .string "main"), ("origin", .string "worktree")]),
    ("cost.sample", costSample "d1" 5 "forged")]

theorem mixedLog_conserved :
    let summary := attributeOn reference (fun _ => true) mixedLog
    (summary.docks.map DockAttribution.costUsdMicros).sum + summary.unlabeledCost + summary.reconciledCost +
      summary.reconciledLateCost + summary.tamperedCost = 12 ∧
    laneOf reference (DockInputs.readAll mixedLog).allViews (costSample "d1" 5 "forged") = .tampered := by
  have htotal : ((costSamples mixedLog).map costOf).sum = 12 := by decide +kernel
  obtain ⟨hsum, _, _, htampered⟩ := dock_costs_conserved reference (fun _ => true) mixedLog (by rw [htotal]; decide)
  refine ⟨hsum.trans htotal, htampered _ ?_ ?_⟩
  · simp [costSamples, mixedLog]
  · decide +kernel

end Hugit

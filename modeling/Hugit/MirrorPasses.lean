import Hugit.BidirSync
import Mathlib.Algebra.Order.Floor.Div

/-! Bounded reflect passes of the mirror: a pass stays inside its bound and never
writes over a foreign tip, and repeated passes reflect every ref once. -/

namespace Hugit

open Std

inductive ReflectPass.Move (bound : Nat) (pass : ReflectPass) (want : ReflectRef) : ReflectPass → Prop
  | spent (h : pass.halted.isSome ∨ bound ≤ pass.emitted) :
      Move bound pass want { pass with results := pass.results ++ [.deferred want.refName] }
  | diverged {gh : String} (hroom : pass.emitted < bound) (hopen : pass.halted = none)
      (h : want.diverged pass.lastEmitted[want.refName]? = some gh) :
      Move bound pass want { pass with results := pass.results ++ [.deferred want.refName],
                                       halted := some ⟨want.refName, want.forgeTip, gh⟩ }
  | skipped (hroom : pass.emitted < bound) (hopen : pass.halted = none)
      (hd : want.diverged pass.lastEmitted[want.refName]? = none)
      (h : pass.lastEmitted[want.refName]? = some want.forgeTip) :
      Move bound pass want { pass with results := pass.results ++ [.skipped want.refName] }
  | emitted (hroom : pass.emitted < bound) (hopen : pass.halted = none)
      (hd : want.diverged pass.lastEmitted[want.refName]? = none)
      (h : pass.lastEmitted[want.refName]? ≠ some want.forgeTip) :
      Move bound pass want { pass with lastEmitted := pass.lastEmitted.insert want.refName want.forgeTip,
                                       results := pass.results ++ [.emitted want.refName want.forgeTip],
                                       emitted := pass.emitted + 1 }

theorem ReflectPass.move_one (bound : Nat) (pass : ReflectPass) (want : ReflectRef) :
    pass.Move bound want (pass.one bound want) := by
  unfold ReflectPass.one
  by_cases hspent : pass.halted.isSome ∨ bound ≤ pass.emitted
  · rw [if_pos (by simpa using hspent)]
    exact .spent hspent
  · obtain ⟨hopen, hroom⟩ := not_or.mp hspent
    have hopen : pass.halted = none := by simpa using hopen
    have hroom := Nat.lt_of_not_le hroom
    rw [if_neg (by simpa using hspent)]
    cases hd : want.diverged pass.lastEmitted[want.refName]? with
    | some gh => exact .diverged hroom hopen hd
    | none =>
      dsimp only
      split_ifs with h
      · exact .skipped hroom hopen hd h
      · exact .emitted hroom hopen hd h

def ReflectPass.over (bound : Nat) (pass : ReflectPass) (desired : List ReflectRef) : ReflectPass :=
  desired.foldl (ReflectPass.one bound) pass

section

variable {bound : Nat} {pass : ReflectPass} {want : ReflectRef} {desired : List ReflectRef}

@[simp] theorem over_nil : pass.over bound [] = pass := rfl

@[simp] theorem over_cons : pass.over bound (want :: desired) = (pass.one bound want).over bound desired := rfl

theorem over_append (rest : List ReflectRef) :
    pass.over bound (desired ++ rest) = (pass.over bound desired).over bound rest :=
  List.foldl_append ..

theorem over_concat : pass.over bound (desired ++ [want]) = (pass.over bound desired).one bound want :=
  over_append [want]

def ReflectPass.Spent (bound : Nat) (pass : ReflectPass) : Prop :=
  pass.halted.isSome ∨ bound ≤ pass.emitted

theorem spent_one (h : pass.Spent bound) : (pass.one bound want).Spent bound := by
  have hm := pass.move_one bound want
  generalize pass.one bound want = pass' at hm ⊢
  cases hm with
  | spent => exact h
  | diverged => exact .inl rfl
  | skipped => exact h
  | emitted => exact h.imp_right Nat.le_succ_of_le

theorem spent_over (h : pass.Spent bound) : (pass.over bound desired).Spent bound := by
  induction desired generalizing pass with
  | nil => exact h
  | cons want desired ih => exact ih (spent_one h)

theorem spent_of_diverged {gh : String} (h : want.diverged pass.lastEmitted[want.refName]? = some gh) :
    (pass.one bound want).Spent bound := by
  have hm := pass.move_one bound want
  generalize pass.one bound want = pass' at hm ⊢
  cases hm with
  | spent hs => exact hs
  | diverged => exact .inl rfl
  | skipped _ _ hd => rw [hd] at h; cases h
  | emitted _ _ hd => rw [hd] at h; cases h

theorem length_results_over : (pass.over bound desired).results.length = pass.results.length + desired.length := by
  induction desired generalizing pass with
  | nil => rfl
  | cons want desired ih =>
    have hone : (pass.one bound want).results.length = pass.results.length + 1 := by
      have hm := pass.move_one bound want
      generalize pass.one bound want = pass' at hm ⊢
      cases hm <;> simp
    rw [over_cons, ih, hone, List.length_cons]
    omega

theorem results_over_append (rest : List ReflectRef) :
    (pass.over bound desired).results <+: (pass.over bound (desired ++ rest)).results := by
  induction rest using List.reverseRecOn with
  | nil => simp
  | append_singleton rest want ih =>
    rw [← List.append_assoc, over_concat]
    have hm := (pass.over bound (desired ++ rest)).move_one bound want
    generalize (pass.over bound (desired ++ rest)).one bound want = pass' at hm ⊢
    cases hm <;> exact ih.trans (List.prefix_append _ _)

theorem emitted_over (h : (pass.results.filter RefReflect.isEmitted).length = pass.emitted)
    (hb : pass.emitted ≤ bound) :
    ((pass.over bound desired).results.filter RefReflect.isEmitted).length = (pass.over bound desired).emitted ∧
      (pass.over bound desired).emitted ≤ bound := by
  induction desired generalizing pass with
  | nil => exact ⟨h, hb⟩
  | cons want desired ih =>
    refine @ih (pass.one bound want) ?_ ?_
    · have hm := pass.move_one bound want
      generalize pass.one bound want = pass' at hm ⊢
      cases hm <;> simp [List.filter_cons, RefReflect.isEmitted, h]
    · have hm := pass.move_one bound want
      generalize pass.one bound want = pass' at hm ⊢
      cases hm with
      | spent => exact hb
      | diverged => exact hb
      | skipped => exact hb
      | emitted hroom => exact hroom

theorem emitted_at {i : Nat} {refName tip : String} (hstart : pass.results = [])
    (h : (pass.over bound desired).results[i]? = some (.emitted refName tip)) :
    ∃ want, desired[i]? = some want ∧ want.refName = refName ∧ want.forgeTip = tip ∧
      ¬ (pass.over bound (desired.take i)).Spent bound ∧
      want.diverged (pass.over bound (desired.take i)).lastEmitted[refName]? = none := by
  have hlt : i < desired.length := by
    have hh := (List.getElem?_eq_some_iff.mp h).1
    rwa [length_results_over, hstart, List.length_nil, Nat.zero_add] at hh
  have hwant : desired[i]? = some desired[i] := List.getElem?_eq_getElem hlt
  have hlen : (pass.over bound (desired.take i)).results.length = i := by
    rw [length_results_over, hstart, List.length_nil, Nat.zero_add, List.length_take, Nat.min_eq_left hlt.le]
  have hsplit : desired = desired.take i ++ [desired[i]] ++ desired.drop (i + 1) := by simp
  have hpre := @results_over_append bound pass (desired.take i ++ [desired[i]]) (desired.drop (i + 1))
  rw [← hsplit, over_concat] at hpre
  have hm := (pass.over bound (desired.take i)).move_one bound desired[i]
  generalize (pass.over bound (desired.take i)).one bound desired[i] = pass' at hm hpre
  have hin : pass'.results[i]? = some (.emitted refName tip) := by
    obtain ⟨rest, hrest⟩ := hpre
    have hlt' : i < pass'.results.length := by
      cases hm <;> simp [hlen]
    rwa [← hrest, List.getElem?_append_left hlt'] at h
  cases hm with
  | spent => simp [hlen] at hin
  | diverged => simp [hlen] at hin
  | skipped => simp [hlen] at hin
  | emitted hroom hopen hd _ =>
    simp only [List.getElem?_append, hlen, Nat.lt_irrefl, if_false, Nat.sub_self, List.getElem?_cons_zero,
      Option.some.injEq, RefReflect.emitted.injEq] at hin
    refine ⟨desired[i], hwant, hin.1, hin.2, ?_, hin.1 ▸ hd⟩
    rintro (hs | hs)
    · rw [hopen] at hs
      cases hs
    · exact absurd hs (Nat.not_le_of_lt hroom)

theorem not_emitted_after {i j : Nat} {gh refName tip : String} (hstart : pass.results = [])
    (hwant : desired[i]? = some want)
    (hd : want.diverged (pass.over bound (desired.take i)).lastEmitted[want.refName]? = some gh) (hij : i ≤ j) :
    (pass.over bound desired).results[j]? ≠ some (.emitted refName tip) := by
  intro h
  obtain ⟨want', hwant', rfl, rfl, hopen, hd'⟩ := emitted_at hstart h
  rcases Nat.eq_or_lt_of_le hij with rfl | hlt
  · obtain rfl := Option.some.inj (hwant.symm.trans hwant')
    rw [hd] at hd'
    cases hd'
  · have hspent := @spent_of_diverged bound (pass.over bound (desired.take i)) want gh hd
    have hnext : desired.take (i + 1) = desired.take i ++ [want] := by
      rw [List.take_add_one, hwant]
      rfl
    have hsplit : desired.take j = desired.take i ++ [want] ++ (desired.take j).drop (i + 1) := by
      have hh := List.take_append_drop (i + 1) (desired.take j)
      rw [List.take_take, Nat.min_eq_left (Nat.succ_le_of_lt hlt), hnext] at hh
      exact hh.symm
    refine hopen ?_
    rw [hsplit, over_append, over_concat]
    exact spent_over hspent

end

section

variable {bound : Nat} {pass : ReflectPass} {want : ReflectRef} {desired : List ReflectRef}

theorem lastEmitted_one_of_ne {refName : String} (h : want.refName ≠ refName) :
    (pass.one bound want).lastEmitted[refName]? = pass.lastEmitted[refName]? := by
  have hm := pass.move_one bound want
  generalize pass.one bound want = pass' at hm ⊢
  cases hm with
  | spent => rfl
  | diverged => rfl
  | skipped => rfl
  | emitted => rw [ExtTreeMap.getElem?_insert, if_neg (by simp [h])]

theorem lastEmitted_over_of_not_mem {refName : String} (h : refName ∉ desired.map ReflectRef.refName) :
    (pass.over bound desired).lastEmitted[refName]? = pass.lastEmitted[refName]? := by
  induction desired generalizing pass with
  | nil => rfl
  | cons want desired ih =>
    rw [List.map_cons, List.mem_cons, not_or] at h
    obtain ⟨hne, hrest⟩ := h
    rw [over_cons, ih hrest, lastEmitted_one_of_ne (Ne.symm hne)]

def ReflectRef.Undisturbed (lastEmitted : ExtTreeMap String String) (want : ReflectRef) : Prop :=
  want.observedGithubTip = none ∨ want.observedGithubTip = lastEmitted[want.refName]?

theorem ReflectRef.Undisturbed.not_diverged {lastEmitted : ExtTreeMap String String}
    (h : want.Undisturbed lastEmitted) : want.diverged lastEmitted[want.refName]? = none := by
  rcases h with h | h
  · simp [ReflectRef.diverged, h]
  · rw [ReflectRef.diverged, h]
    cases lastEmitted[want.refName]? <;> simp

def pending (lastEmitted : ExtTreeMap String String) (desired : List ReflectRef) : Nat :=
  desired.countP fun want => lastEmitted[want.refName]? ≠ some want.forgeTip

theorem pending_cons (lastEmitted : ExtTreeMap String String) (want : ReflectRef) (desired : List ReflectRef) :
    pending lastEmitted (want :: desired) = pending lastEmitted desired + pending lastEmitted [want] := by
  simp only [pending, List.countP_cons, List.countP_nil, Nat.zero_add]

theorem pending_eq_zero_of {lastEmitted : ExtTreeMap String String} (h : lastEmitted[want.refName]? = some want.forgeTip) :
    pending lastEmitted [want] = 0 := by
  simp [pending, h]

theorem pending_eq_one_of {lastEmitted : ExtTreeMap String String} (h : lastEmitted[want.refName]? ≠ some want.forgeTip) :
    pending lastEmitted [want] = 1 := by
  simp [pending, h]

theorem pending_one_add_emitted :
    pending (pass.one bound want).lastEmitted [want] + (pass.one bound want).emitted =
      pending pass.lastEmitted [want] + pass.emitted := by
  have hm := pass.move_one bound want
  generalize pass.one bound want = pass' at hm ⊢
  cases hm with
  | spent => rfl
  | diverged => rfl
  | skipped => rfl
  | emitted _ _ _ h =>
    rw [pending_eq_zero_of ExtTreeMap.getElem?_insert_self, pending_eq_one_of h]
    show 0 + (pass.emitted + 1) = 1 + pass.emitted
    omega

structure ReflectPass.Clear (pass : ReflectPass) (desired : List ReflectRef) : Prop where
  halted : pass.halted = none
  distinct : (desired.map ReflectRef.refName).Nodup
  undisturbed : ∀ want ∈ desired, want.Undisturbed pass.lastEmitted

namespace ReflectPass.Clear

theorem not_mem (h : pass.Clear (want :: desired)) : want.refName ∉ desired.map ReflectRef.refName :=
  (List.nodup_cons.mp h.distinct).1

theorem lastEmitted_one (h : pass.Clear (want :: desired)) {other : ReflectRef} (hm : other ∈ desired) :
    (pass.one bound want).lastEmitted[other.refName]? = pass.lastEmitted[other.refName]? :=
  lastEmitted_one_of_ne fun he => h.not_mem (he ▸ List.mem_map_of_mem hm)

theorem not_diverged (h : pass.Clear (want :: desired)) : want.diverged pass.lastEmitted[want.refName]? = none :=
  (h.undisturbed want (by simp)).not_diverged

theorem step (h : pass.Clear (want :: desired)) : (pass.one bound want).Clear desired := by
  refine ⟨?_, (List.nodup_cons.mp h.distinct).2, fun other hother => ?_⟩
  · have hm := pass.move_one bound want
    generalize pass.one bound want = pass' at hm ⊢
    cases hm with
    | spent => exact h.halted
    | diverged _ _ hd => rw [h.not_diverged] at hd; cases hd
    | skipped => exact h.halted
    | emitted => exact h.halted
  · rw [ReflectRef.Undisturbed, h.lastEmitted_one hother]
    exact h.undisturbed other (by simp [hother])

theorem pending_one (h : pass.Clear (want :: desired)) :
    pending (pass.one bound want).lastEmitted desired = pending pass.lastEmitted desired := by
  refine List.countP_congr fun other hother => ?_
  rw [h.lastEmitted_one hother]

theorem pending_over (h : pass.Clear desired) :
    pending (pass.over bound desired).lastEmitted desired + (pass.over bound desired).emitted =
      pending pass.lastEmitted desired + pass.emitted := by
  induction desired generalizing pass with
  | nil => rfl
  | cons want desired ih =>
    have hstep : (pass.one bound want).Clear desired := h.step
    have hrest := ih hstep
    have hone := @pending_one_add_emitted bound pass want
    have hwant : pending ((pass.one bound want).over bound desired).lastEmitted [want] =
        pending (pass.one bound want).lastEmitted [want] := by
      simp only [pending, List.countP_cons, List.countP_nil, lastEmitted_over_of_not_mem h.not_mem]
    rw [h.pending_one] at hrest
    rw [over_cons, pending_cons, pending_cons pass.lastEmitted, hwant]
    omega

theorem emitted_over_eq (h : pass.Clear desired) (hb : pass.emitted ≤ bound) :
    (pass.over bound desired).emitted = min bound (pass.emitted + pending pass.lastEmitted desired) := by
  induction desired generalizing pass with
  | nil => exact (Nat.min_eq_right hb).symm
  | cons want desired ih =>
    have hstep : (pass.one bound want).Clear desired := h.step
    have hdiverged := h.not_diverged
    have hpending := @pending_one bound _ _ _ h
    rw [over_cons, pending_cons]
    have hm := pass.move_one bound want
    generalize pass.one bound want = pass' at hm hstep hpending ⊢
    cases hm with
    | spent hspent =>
      have hfull : bound ≤ pass.emitted := by
        rcases hspent with hh | hh
        · rw [h.halted] at hh
          cases hh
        · exact hh
      rw [ih hstep hb, hpending]
      show min bound (pass.emitted + _) = _
      omega
    | diverged _ _ hd =>
      rw [hdiverged] at hd
      cases hd
    | skipped _ _ _ hlast =>
      rw [ih hstep hb, hpending, pending_eq_zero_of hlast, Nat.add_zero]
    | emitted hroom _ _ hlast =>
      rw [ih hstep hroom, hpending, pending_eq_one_of hlast]
      congr 1
      dsimp only
      omega

theorem results_over_of_done (h : pass.Clear desired) (hb : pass.emitted < bound)
    (hdone : pending pass.lastEmitted desired = 0) :
    (pass.over bound desired).results = pass.results ++ desired.map fun want => .skipped want.refName := by
  induction desired generalizing pass with
  | nil => simp
  | cons want desired ih =>
    have hstep : (pass.one bound want).Clear desired := h.step
    have hdiverged := h.not_diverged
    have hpending := @pending_one bound _ _ _ h
    rw [pending_cons] at hdone
    obtain ⟨hrest, hwant⟩ := Nat.add_eq_zero_iff.mp hdone
    rw [over_cons]
    have hm := pass.move_one bound want
    generalize pass.one bound want = pass' at hm hstep hpending ⊢
    cases hm with
    | spent hspent =>
      rcases hspent with hh | hh
      · rw [h.halted] at hh
        cases hh
      · exact absurd hh (Nat.not_le_of_lt hb)
    | diverged _ _ hd =>
      rw [hdiverged] at hd
      cases hd
    | skipped =>
      rw [ih hstep hb (hpending.trans hrest)]
      simp
    | emitted _ _ _ hlast =>
      rw [pending_eq_one_of hlast] at hwant
      cases hwant

end ReflectPass.Clear

def reached (lastEmitted : ExtTreeMap String String) (target : String × String) : Nat :=
  if lastEmitted[target.1]? = some target.2 then 1 else 0

theorem reached_over {target : String × String} (h : ∀ want ∈ desired, want.refName = target.1 → want.forgeTip = target.2) :
    reached (pass.over bound desired).lastEmitted target + pass.results.count (.emitted target.1 target.2) =
      reached pass.lastEmitted target + (pass.over bound desired).results.count (.emitted target.1 target.2) := by
  induction desired generalizing pass with
  | nil => rfl
  | cons want desired ih =>
    obtain ⟨hwant, hdesired⟩ := List.forall_mem_cons.mp h
    have hrest := @ih (pass.one bound want) hdesired
    have hone : reached (pass.one bound want).lastEmitted target + pass.results.count (.emitted target.1 target.2) =
        reached pass.lastEmitted target + (pass.one bound want).results.count (.emitted target.1 target.2) := by
      have hm := pass.move_one bound want
      generalize pass.one bound want = pass' at hm ⊢
      cases hm with
      | spent | diverged | skipped => simp
      | emitted _ _ _ hlast =>
        by_cases hr : want.refName = target.1
        · rw [hr, hwant hr] at hlast ⊢
          simp [reached, hlast]
          omega
        · simp [reached, ExtTreeMap.getElem?_insert, hr]
    rw [over_cons]
    omega

end

/-- What a single pass guarantees. The tip last emitted for a ref is read at the
point of the pass where the ref is considered. -/
structure SafePass (s : BidirSync) (desired : List ReflectRef) (bound : Nat) : Prop where
  within : (s.reflectBounded desired bound).1.emittedCount ≤ bound
  welcome : ∀ i refName tip, (s.reflectBounded desired bound).1.results[i]? = some (.emitted refName tip) →
    ∃ want, desired[i]? = some want ∧ want.refName = refName ∧ want.forgeTip = tip ∧
      (want.observedGithubTip = none ∨
        want.observedGithubTip = (s.reflectBounded (desired.take i) bound).2.emittedOutbound[refName]? ∨
        want.observedGithubTip = some tip)
  halts : ∀ i want gh, desired[i]? = some want → want.observedGithubTip = some gh →
    (s.reflectBounded (desired.take i) bound).2.emittedOutbound[want.refName]? ≠ some gh → gh ≠ want.forgeTip →
      ∀ j, i ≤ j → ∀ refName tip, (s.reflectBounded desired bound).1.results[j]? ≠ some (.emitted refName tip)

theorem diverged_eq_none {want : ReflectRef} {last : Option String} (h : want.diverged last = none) :
    want.observedGithubTip = none ∨ want.observedGithubTip = last ∨ want.observedGithubTip = some want.forgeTip := by
  cases ho : want.observedGithubTip with
  | none => exact .inl rfl
  | some gh =>
    by_cases hlast : last = some gh
    · exact .inr (.inl hlast.symm)
    · by_cases htip : gh = want.forgeTip
      · exact .inr (.inr (congrArg some htip))
      · simp [ReflectRef.diverged, ho, hlast, htip] at h

theorem safePass (s : BidirSync) (desired : List ReflectRef) (bound : Nat) : SafePass s desired bound := by
  have hstart : (⟨s.emittedOutbound, [], none, 0⟩ : ReflectPass).results = [] := rfl
  refine ⟨?_, fun i refName tip h => ?_, fun i want gh hwant hgh hlast htip j hij refName tip => ?_⟩
  · obtain ⟨hcount, hle⟩ := @emitted_over bound ⟨s.emittedOutbound, [], none, 0⟩ desired rfl (Nat.zero_le _)
    exact Nat.le_trans (Nat.le_of_eq hcount) hle
  · obtain ⟨want, hwant, rfl, rfl, _, hd⟩ := emitted_at hstart h
    exact ⟨want, hwant, rfl, rfl, diverged_eq_none hd⟩
  · have hdiverged : want.diverged (ReflectPass.over bound ⟨s.emittedOutbound, [], none, 0⟩
        (desired.take i)).lastEmitted[want.refName]? = some gh := by
      have hne : (ReflectPass.over bound ⟨s.emittedOutbound, [], none, 0⟩
        (desired.take i)).lastEmitted[want.refName]? ≠ some gh := hlast
      simp [ReflectRef.diverged, hgh, hne, htip]
    exact not_emitted_after hstart hwant hdiverged hij

def passState (s : BidirSync) (bound : Nat) (passes : Nat → List ReflectRef) : Nat → BidirSync
  | 0 => s
  | k + 1 => ((passState s bound passes k).reflectBounded (passes k) bound).2

def passReport (s : BidirSync) (bound : Nat) (passes : Nat → List ReflectRef) (k : Nat) : ReflectReport :=
  ((passState s bound passes k).reflectBounded (passes k) bound).1

/-- Passes over the same refs and tips, in any order, that find the mirror as the
engine left it or do not look. -/
structure SteadyPasses (s : BidirSync) (bound : Nat) (passes : Nat → List ReflectRef)
    (targets : List (String × String)) : Prop where
  distinct : (targets.map Prod.fst).Nodup
  fresh : ∀ target ∈ targets, s.emittedOutbound[target.1]? ≠ some target.2
  same : ∀ k, ((passes k).map fun want => (want.refName, want.forgeTip)).Perm targets
  undisturbed : ∀ k, ∀ want ∈ passes k, want.Undisturbed (passState s bound passes k).emittedOutbound

namespace SteadyPasses

variable {s : BidirSync} {bound : Nat} {passes : Nat → List ReflectRef} {targets : List (String × String)}

theorem clear (h : SteadyPasses s bound passes targets) (k : Nat) :
    (⟨(passState s bound passes k).emittedOutbound, [], none, 0⟩ : ReflectPass).Clear (passes k) := by
  refine ⟨rfl, ?_, h.undisturbed k⟩
  have hnames := ((h.same k).map Prod.fst).nodup_iff.mpr h.distinct
  rw [List.map_map] at hnames
  exact hnames

theorem pending_eq (h : SteadyPasses s bound passes targets) (k : Nat) (lastEmitted : ExtTreeMap String String) :
    pending lastEmitted (passes k) = targets.countP fun target => lastEmitted[target.1]? ≠ some target.2 := by
  rw [← (h.same k).countP_eq, List.countP_map]
  rfl

theorem pending_le (h : SteadyPasses s bound passes targets) (k : Nat) :
    pending (passState s bound passes k).emittedOutbound (passes k) ≤ targets.length - k * bound := by
  induction k with
  | zero =>
    rw [h.pending_eq, Nat.zero_mul, Nat.sub_zero]
    exact List.countP_le_length
  | succ k ih =>
    have hleft := @ReflectPass.Clear.pending_over bound _ _ (h.clear k)
    rw [(h.clear k).emitted_over_eq (Nat.zero_le _)] at hleft
    have hnext : pending (passState s bound passes (k + 1)).emittedOutbound (passes (k + 1)) =
        pending (ReflectPass.over bound ⟨(passState s bound passes k).emittedOutbound, [], none, 0⟩
          (passes k)).lastEmitted (passes k) := by
      rw [h.pending_eq, h.pending_eq]
      rfl
    rw [hnext, Nat.succ_mul]
    dsimp only at hleft
    omega

theorem done (h : SteadyPasses s bound passes targets) (hb : 1 ≤ bound) {k : Nat} (hk : targets.length ⌈/⌉ bound ≤ k) :
    pending (passState s bound passes k).emittedOutbound (passes k) = 0 := by
  have hlen : targets.length ≤ bound * k := (ceilDiv_le_iff_le_mul hb).mp hk
  have hle := h.pending_le k
  rw [Nat.mul_comm k, Nat.sub_eq_zero_of_le hlen] at hle
  exact Nat.le_zero.mp hle

theorem reached_eq (h : SteadyPasses s bound passes targets) {target : String × String} (ht : target ∈ targets) (k : Nat) :
    reached (passState s bound passes k).emittedOutbound target =
      ((List.range k).flatMap fun i => (passReport s bound passes i).results).count (.emitted target.1 target.2) := by
  induction k with
  | zero => exact if_neg (h.fresh target ht)
  | succ k ih =>
    have honly : ∀ want ∈ passes k, want.refName = target.1 → want.forgeTip = target.2 := by
      intro want hwant he
      have hmem := (h.same k).subset (List.mem_map_of_mem hwant)
      exact congrArg Prod.snd (List.inj_on_of_nodup_map h.distinct hmem ht he)
    have hstep := @reached_over bound ⟨(passState s bound passes k).emittedOutbound, [], none, 0⟩ (passes k) target honly
    rw [List.count_nil, Nat.add_zero] at hstep
    rw [List.range_succ, List.flatMap_append, List.count_append, ← ih, List.flatMap_singleton]
    exact hstep

end SteadyPasses

theorem bounded_mirror_safe_and_finishes :
    (∀ (s : BidirSync) (desired : List ReflectRef) (bound : Nat), SafePass s desired bound) ∧
      ∀ (s : BidirSync) (bound : Nat) (passes : Nat → List ReflectRef) (targets : List (String × String)),
        1 ≤ bound → SteadyPasses s bound passes targets →
          (∀ target ∈ targets, ((List.range (targets.length ⌈/⌉ bound)).flatMap fun k =>
            (passReport s bound passes k).results).count (.emitted target.1 target.2) = 1) ∧
          ∀ k, targets.length ⌈/⌉ bound ≤ k →
            (passReport s bound passes k).results = (passes k).map fun want => .skipped want.refName := by
  refine ⟨safePass, fun s bound passes targets hb h => ⟨fun target ht => ?_, fun k hk => ?_⟩⟩
  · rw [← h.reached_eq ht]
    have hdone := h.done hb (Nat.le_refl _)
    rw [h.pending_eq, List.countP_eq_zero] at hdone
    have hreached := hdone target ht
    exact if_pos (by simpa using hreached)
  · have hskips := (h.clear k).results_over_of_done hb (h.done hb hk)
    rw [List.nil_append] at hskips
    exact hskips

def threeBranches (_ : Nat) : List ReflectRef :=
  [⟨"refs/heads/a", "1", none⟩, ⟨"refs/heads/b", "2", none⟩, ⟨"refs/heads/c", "3", none⟩]

theorem threeBranches_in_two_passes :
    (((List.range 2).flatMap fun k => (passReport .new 2 threeBranches k).results).count
      (.emitted "refs/heads/c" "3")) = 1 := by
  have hsteady : SteadyPasses .new 2 threeBranches
      [("refs/heads/a", "1"), ("refs/heads/b", "2"), ("refs/heads/c", "3")] := by
    refine ⟨by decide, fun _ _ h => (nomatch h), fun k => .refl _, fun k want hwant => .inl ?_⟩
    simp only [threeBranches, List.mem_cons, List.not_mem_nil, or_false] at hwant
    rcases hwant with rfl | rfl | rfl <;> rfl
  exact (bounded_mirror_safe_and_finishes.2 .new 2 threeBranches _ (by decide) hsteady).1 ("refs/heads/c", "3") (by simp)

end Hugit

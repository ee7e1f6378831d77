import Hugit.LandingQueue

/-! The driver that merges a landed batch through the merge API, one call for
each landed entry in queue order. The engine lands the whole batch first. -/

namespace Hugit

inductive MergeMethod where
  | merge
  | squash
  | rebase
  deriving DecidableEq

structure MergeRecord where
  itemId : String
  expectedHead : String
  method : MergeMethod
  deriving DecidableEq

inductive MergeError where
  | engine (e : LandingError)
  | api (itemId message : String)
  | staleHead (itemId : String)
  deriving DecidableEq

/-- What the driver is given: the configured methods and heads, and the merge
API over a state of the world from which the live heads are read. -/
structure MergeSeam (α : Type) where
  methodFor : String → MergeMethod
  headFor : String → String
  liveHeadFor : String → α → String
  merge : MergeRecord → α → Except MergeError Unit × α

namespace MergeSeam

section

variable {α : Type} (seam : MergeSeam α)

def record (id : String) : MergeRecord :=
  ⟨id, seam.headFor id, seam.methodFor id⟩

/-- The loop body for a landed entry. The stale head is refused here, whatever
the API checks. -/
def mergeOne (id : String) (a : α) : Except MergeError Unit × α :=
  if seam.liveHeadFor id a ≠ seam.headFor id then (.error (.staleHead id), a)
  else seam.merge (seam.record id) a

def mergeSteps : List LandingStep → α → Except MergeError (List String) × α
  | [], a => (.ok [], a)
  | step :: rest, a =>
    if step.state ≠ .landed then mergeSteps rest a
    else
      let answer := seam.mergeOne step.itemId a
      match answer.1 with
      | .error e => (.error e, answer.2)
      | .ok _ =>
        let rest := mergeSteps rest answer.2
        (rest.1.map (step.itemId :: ·), rest.2)

def driveAtomicMerge (batch : Batch) (outcomes : List (String × UnionOutcome)) (a : α) :
    Except MergeError (List String) × Batch × α :=
  let landing := landInOrder batch outcomes
  match landing.1 with
  | .error e => (.error (.engine e), landing.2, a)
  | .ok steps =>
    let merged := seam.mergeSteps steps a
    (merged.1, landing.2, merged.2)

/-- The same seam with the ids that the API merged, oldest first. -/
def recorded : MergeSeam (α × List String) where
  methodFor := seam.methodFor
  headFor := seam.headFor
  liveHeadFor id a := seam.liveHeadFor id a.1
  merge r a :=
    let answer := seam.merge r a.1
    (answer.1, answer.2, match answer.1 with
      | .ok _ => a.2 ++ [r.itemId]
      | .error _ => a.2)

/-- The ids of `pre` are merged in turn and then `id` is refused. -/
inductive RefusedAt : List String → α → List String → String → List String → Prop
  | refused {id : String} {post : List String} {a : α} {e : MergeError}
    (h : (seam.mergeOne id a).1 = .error e) : RefusedAt (id :: post) a [] id post
  | merged {x id : String} {ids pre post : List String} {a : α}
    (h : (seam.mergeOne x a).1 = .ok ()) (rest : RefusedAt ids (seam.mergeOne x a).2 pre id post) :
    RefusedAt (x :: ids) a (x :: pre) id post

end

section

variable {α : Type} {seam : MergeSeam α} {a : α} {ids : List String}

theorem RefusedAt.split {pre post : List String} {id : String}
    (h : seam.RefusedAt ids a pre id post) : ids = pre ++ id :: post := by
  induction h with
  | refused => rfl
  | merged _ _ ih => rw [ih, List.cons_append]

theorem RefusedAt.unique {pre post pre' post' : List String} {id id' : String}
    (h : seam.RefusedAt ids a pre id post) (h' : seam.RefusedAt ids a pre' id' post') :
    pre = pre' ∧ id = id' ∧ post = post' := by
  induction h generalizing pre' with
  | refused he =>
    cases h' with
    | refused => exact ⟨rfl, rfl, rfl⟩
    | merged hok => cases he.symm.trans hok
  | merged hok _ ih =>
    cases h' with
    | refused he => cases he.symm.trans hok
    | merged _ rest =>
      obtain ⟨rfl, rfl, rfl⟩ := ih rest
      exact ⟨rfl, rfl, rfl⟩

def landedIds (steps : List LandingStep) : List String :=
  (steps.filter fun s => s.state = .landed).map LandingStep.itemId

theorem recorded_mergeOne (seam : MergeSeam α) (id : String) (a : α) (merged : List String) :
    seam.recorded.mergeOne id (a, merged) =
      ((seam.mergeOne id a).1, (seam.mergeOne id a).2, match (seam.mergeOne id a).1 with
        | .ok _ => merged ++ [id]
        | .error _ => merged) := by
  by_cases h : seam.liveHeadFor id a = seam.headFor id <;> simp [mergeOne, recorded, record, h]

theorem recorded_mergeSteps (seam : MergeSeam α) (steps : List LandingStep) (a : α)
    (merged : List String) :
    let run := seam.recorded.mergeSteps steps (a, merged)
    run.1 = (seam.mergeSteps steps a).1 ∧ run.2.1 = (seam.mergeSteps steps a).2 ∧
      match run.1 with
      | .ok ids => ids = landedIds steps ∧ run.2.2 = merged ++ ids
      | .error _ => ∃ pre id post, seam.RefusedAt (landedIds steps) a pre id post ∧
          run.2.2 = merged ++ pre := by
  induction steps generalizing a merged with
  | nil => simp [mergeSteps, landedIds]
  | cons step rest ih =>
    by_cases hl : step.state = .landed
    · have hids : landedIds (step :: rest) = step.itemId :: landedIds rest := by simp [landedIds, hl]
      simp only [mergeSteps, hl, ne_eq, not_true_eq_false, if_false, recorded_mergeOne, hids]
      cases hone : (seam.mergeOne step.itemId a).1 with
      | error e => exact ⟨rfl, rfl, [], _, _, .refused hone, by simp⟩
      | ok _ =>
        obtain ⟨hres, hstate, hlog⟩ := ih (seam.mergeOne step.itemId a).2 (merged ++ [step.itemId])
        refine ⟨by simp only [hres], hstate, ?_⟩
        cases hrun : (seam.recorded.mergeSteps rest
          ((seam.mergeOne step.itemId a).2, merged ++ [step.itemId])).1 with
        | ok ids =>
          simp only [hrun] at hlog
          simp [Except.map, hlog.1, hlog.2]
        | error e =>
          simp only [hrun] at hlog
          obtain ⟨pre, id, post, hat, hlog⟩ := hlog
          exact ⟨step.itemId :: pre, id, post, .merged hone hat, by simp [hlog]⟩
    · have hids : landedIds (step :: rest) = landedIds rest := by simp [landedIds, hl]
      simpa only [mergeSteps, hl, ne_eq, not_false_eq_true, if_true, hids] using ih a merged

theorem landedIds_settle (batch : Batch) :
    landedIds (batch.entries.map fun e => ⟨e.itemId, e.state⟩) = landedInOrder batch := by
  simp [landedIds, landedInOrder, List.filter_map, Function.comp_def]

theorem forall_landed_iff {batch : Batch} {P : String → Prop} :
    (∀ e ∈ batch.entries, e.state = .landed → P e.itemId) ↔ ∀ id ∈ landedInOrder batch, P id := by
  simp only [landedInOrder, List.forall_mem_map, List.mem_filter, decide_eq_true_eq, and_imp]

section

variable {batch : Batch} {outcomes : List (String × UnionOutcome)}

theorem driveAtomicMerge_missing (seam : MergeSeam α) (h : ¬ batch.Covered outcomes) (a : α) :
    ∃ e, seam.driveAtomicMerge batch outcomes a = (.error (.engine e), batch, a) := by
  obtain ⟨e, _, _, hmissing⟩ := landInOrder_missing h
  exact ⟨.missingOutcome e.itemId, by simp only [driveAtomicMerge, hmissing]⟩

theorem driveAtomicMerge_covered (h : batch.Covered outcomes) (a : α) :
    seam.driveAtomicMerge batch outcomes a =
      ((seam.mergeSteps ((batch.settle outcomes).entries.map fun e => ⟨e.itemId, e.state⟩) a).1,
        batch.settle outcomes,
        (seam.mergeSteps ((batch.settle outcomes).entries.map fun e => ⟨e.itemId, e.state⟩) a).2) := by
  simp only [driveAtomicMerge, landInOrder_covered h]

/-- An error leaves only merged entries landed exactly when the engine found no
outcome for some entry, or when the entries from the refused one on had all been
merged before. -/
theorem driveAtomicMerge_error_iff (seam : MergeSeam α) (merged : List String) {e : MergeError}
    (h : (seam.driveAtomicMerge batch outcomes a).1 = .error e) :
    (∀ entry ∈ (seam.driveAtomicMerge batch outcomes a).2.1.entries, entry.state = .landed →
      entry.itemId ∈ (seam.recorded.driveAtomicMerge batch outcomes (a, merged)).2.2.2) ↔
    (¬ batch.Covered outcomes ∧ ∀ entry ∈ batch.entries, entry.state = .landed →
      entry.itemId ∈ merged) ∨
    (batch.Covered outcomes ∧ ∃ pre id post,
      seam.RefusedAt (landedInOrder (batch.settle outcomes)) a pre id post ∧
      ∀ x ∈ id :: post, x ∈ merged ∨ x ∈ pre) := by
  by_cases hcov : batch.Covered outcomes
  · simp only [driveAtomicMerge_covered hcov] at h
    obtain ⟨hres, _, hlog⟩ := seam.recorded_mergeSteps
      ((batch.settle outcomes).entries.map fun e => ⟨e.itemId, e.state⟩) a merged
    simp only [hres, h, landedIds_settle] at hlog
    obtain ⟨pre, id, post, hat, hlog⟩ := hlog
    rw [driveAtomicMerge_covered hcov, driveAtomicMerge_covered hcov, forall_landed_iff, hlog]
    simp only [hcov, not_true_eq_false, false_and, true_and, false_or]
    have hsplit := hat.split
    constructor
    · intro hall
      refine ⟨pre, id, post, hat, fun x hx => ?_⟩
      exact List.mem_append.mp (hall x (hsplit ▸ List.mem_append_right _ hx))
    · rintro ⟨pre', id', post', hat', hall⟩ x hx
      obtain ⟨rfl, rfl, rfl⟩ := hat.unique hat'
      rw [hsplit] at hx
      rcases List.mem_append.mp hx with hx | hx
      · exact List.mem_append_right _ hx
      · exact List.mem_append.mpr (hall x hx)
  · obtain ⟨e', hmissing⟩ := seam.driveAtomicMerge_missing hcov a
    obtain ⟨e'', hmissing'⟩ := seam.recorded.driveAtomicMerge_missing hcov (a, merged)
    simp only [hmissing, hmissing', hcov, not_false_eq_true, true_and, false_and, or_false]

end

end

end MergeSeam

def refusingSeam : MergeSeam Unit where
  methodFor _ := .squash
  headFor id := id
  liveHeadFor id _ := id
  merge r a := (.error (.api r.itemId "405 Method Not Allowed"), a)

def singleBatch (state : EntryState) : Batch :=
  ⟨"batch", [⟨⟨"a", "intent-a", "t1", 1⟩, [], state⟩]⟩

/-- The only entry is landed although nothing was ever merged. -/
theorem refusedMerge_landed :
    (refusingSeam.driveAtomicMerge (singleBatch .landable) [("a", .green)] ()).1 =
      .error (.api "a" "405 Method Not Allowed") ∧
    ¬ ∀ entry ∈ (refusingSeam.driveAtomicMerge (singleBatch .landable) [("a", .green)] ()).2.1.entries,
      entry.state = .landed → entry.itemId ∈
        (refusingSeam.recorded.driveAtomicMerge (singleBatch .landable) [("a", .green)] ((), [])).2.2.2 := by
  decide +kernel

theorem refusedAgain_merged :
    (refusingSeam.driveAtomicMerge (singleBatch .landed) [("a", .green)] ()).1 =
      .error (.api "a" "405 Method Not Allowed") ∧
    ∀ entry ∈ (refusingSeam.driveAtomicMerge (singleBatch .landed) [("a", .green)] ()).2.1.entries,
      entry.state = .landed → entry.itemId ∈
        (refusingSeam.recorded.driveAtomicMerge (singleBatch .landed) [("a", .green)] ((), ["a"])).2.2.2 := by
  have he : (refusingSeam.driveAtomicMerge (singleBatch .landed) [("a", .green)] ()).1 =
      .error (.api "a" "405 Method Not Allowed") := by decide +kernel
  refine ⟨he, (refusingSeam.driveAtomicMerge_error_iff ["a"] he).mpr (.inr ⟨by decide +kernel, ?_⟩)⟩
  exact ⟨[], "a", [], .refused rfl, by simp⟩

end Hugit

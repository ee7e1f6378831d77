import Hugit.LastWrite

/-! The landing queue: batches of entries in queue order, the state machine of
one entry, and the pass that lands a batch under given union outcomes. -/

namespace Hugit

inductive EntryState where
  | landable
  | landed
  | unionFail
  deriving DecidableEq

def EntryState.isTerminal : EntryState → Bool
  | landable => false
  | landed | unionFail => true

inductive UnionOutcome where
  | green
  | failingPairMember
  deriving DecidableEq

inductive TransitionError where
  | alreadyTerminal
  | predecessorNotLanded
  deriving DecidableEq

def transition (current : EntryState) (outcome : UnionOutcome) (predecessorsSettled : Bool) :
    Except TransitionError EntryState :=
  if current.isTerminal then .error .alreadyTerminal
  else match outcome with
    | .failingPairMember => .ok .unionFail
    | .green => if predecessorsSettled then .ok .landed else .error .predecessorNotLanded

structure LandableEntry where
  itemId : String
  intentId : String
  treeHash : String
  orderIndex : Nat
  deriving DecidableEq

structure BatchEntry where
  landable : LandableEntry
  affected : List String
  state : EntryState
  deriving DecidableEq

def BatchEntry.new (landable : LandableEntry) (affected : List String) : BatchEntry :=
  ⟨landable, affected, .landable⟩

def BatchEntry.itemId (e : BatchEntry) : String := e.landable.itemId

def BatchEntry.orderIndex (e : BatchEntry) : Nat := e.landable.orderIndex

structure Batch where
  batchId : String
  entries : List BatchEntry
  deriving DecidableEq

inductive BatchError where
  | duplicateOrderIndex (index : Nat)
  deriving DecidableEq

namespace Batch

def ids (b : Batch) : List String :=
  b.entries.map BatchEntry.itemId

theorem mem_ids {b : Batch} {e : BatchEntry} (h : e ∈ b.entries) : e.itemId ∈ b.ids :=
  List.mem_map_of_mem h

def firstDuplicate : List Nat → List Nat → Option Nat
  | _, [] => none
  | seen, i :: rest => if i ∈ seen then some i else firstDuplicate (i :: seen) rest

def tryFromEntries (batchId : String) (entries : List (LandableEntry × List String)) :
    Except BatchError Batch :=
  let entries := entries.map fun (l, a) => BatchEntry.new l a
  match firstDuplicate [] (entries.map BatchEntry.orderIndex) with
  | some i => .error (.duplicateOrderIndex i)
  | none => .ok ⟨batchId, entries.insertionSort fun a b => a.orderIndex ≤ b.orderIndex⟩

def isQueueOrdered (b : Batch) : Bool :=
  (b.entries.zip b.entries.tail).all fun (a, b) => a.orderIndex < b.orderIndex

def Fresh (b : Batch) : Prop :=
  ∀ e ∈ b.entries, e.state = .landable

def Settled (b : Batch) : Prop :=
  ∀ e ∈ b.entries, e.state.isTerminal = true

end Batch

structure LandingStep where
  itemId : String
  state : EntryState
  deriving DecidableEq

inductive LandingError where
  | missingOutcome (itemId : String)
  | refused (itemId : String) (reason : TransitionError)
  deriving DecidableEq

def orderedOutcomes (outcomes : List (String × UnionOutcome)) :
    List BatchEntry → Except LandingError (List (BatchEntry × UnionOutcome))
  | [] => .ok []
  | entry :: rest =>
    match lastWrite entry.itemId outcomes with
    | none => .error (.missingOutcome entry.itemId)
    | some outcome => (orderedOutcomes outcomes rest).map ((entry, outcome) :: ·)

/-- The loop over the entries. A refusal leaves the entries from there on as
they are. -/
def landEntries : Bool → List (BatchEntry × UnionOutcome) →
    Except LandingError (List LandingStep) × List BatchEntry
  | _, [] => (.ok [], [])
  | settled, (entry, outcome) :: rest =>
    if entry.state.isTerminal then
      let (steps, entries) := landEntries settled rest
      (steps.map (⟨entry.itemId, entry.state⟩ :: ·), entry :: entries)
    else match transition entry.state outcome settled with
      | .ok next =>
        let (steps, entries) := landEntries (settled && next.isTerminal) rest
        (steps.map (⟨entry.itemId, next⟩ :: ·), { entry with state := next } :: entries)
      | .error e => (.error (.refused entry.itemId e), entry :: rest.map Prod.fst)

def landInOrder (batch : Batch) (outcomes : List (String × UnionOutcome)) :
    Except LandingError (List LandingStep) × Batch :=
  match orderedOutcomes outcomes batch.entries with
  | .error e => (.error e, batch)
  | .ok ordered =>
    let (steps, entries) := landEntries true ordered
    (steps, { batch with entries := entries })

def landedInOrder (batch : Batch) : List String :=
  (batch.entries.filter fun e => e.state = .landed).map BatchEntry.itemId

def UnionOutcome.settles : UnionOutcome → EntryState
  | green => .landed
  | failingPairMember => .unionFail

def BatchEntry.settle (e : BatchEntry) (outcome : UnionOutcome) : BatchEntry :=
  if e.state.isTerminal then e else { e with state := outcome.settles }

@[simp] theorem BatchEntry.settle_itemId (e : BatchEntry) (outcome : UnionOutcome) :
    (e.settle outcome).itemId = e.itemId := by
  unfold settle
  split_ifs <;> rfl

@[simp] theorem BatchEntry.settle_orderIndex (e : BatchEntry) (outcome : UnionOutcome) :
    (e.settle outcome).orderIndex = e.orderIndex := by
  unfold settle
  split_ifs <;> rfl

@[simp] theorem BatchEntry.settle_isTerminal (e : BatchEntry) (outcome : UnionOutcome) :
    (e.settle outcome).state.isTerminal = true := by
  unfold settle
  split_ifs with h
  · exact h
  · cases outcome <;> rfl

theorem BatchEntry.settle_of_terminal {e : BatchEntry} (h : e.state.isTerminal = true)
    (outcome : UnionOutcome) : e.settle outcome = e :=
  if_pos h

theorem BatchEntry.settle_landable {e : BatchEntry} (h : e.state = .landable)
    (outcome : UnionOutcome) : (e.settle outcome).state = outcome.settles := by
  simp [settle, h, EntryState.isTerminal]

theorem transition_settled {e : BatchEntry} (h : e.state.isTerminal = false)
    (outcome : UnionOutcome) : transition e.state outcome true = .ok outcome.settles := by
  cases outcome <;> simp [transition, h, UnionOutcome.settles]

theorem landEntries_eq (ordered : List (BatchEntry × UnionOutcome)) :
    landEntries true ordered =
      (.ok (ordered.map fun p => ⟨p.1.itemId, (p.1.settle p.2).state⟩),
        ordered.map fun p => p.1.settle p.2) := by
  induction ordered with
  | nil => rfl
  | cons p rest ih =>
    obtain ⟨entry, outcome⟩ := p
    cases ht : entry.state.isTerminal with
    | true => simp [landEntries, ih, ht, BatchEntry.settle, Except.map]
    | false =>
      have hnext : outcome.settles.isTerminal = true := by cases outcome <;> rfl
      simp [landEntries, transition_settled ht, ih, ht, hnext, BatchEntry.settle, Except.map]

def outcomeFor (outcomes : List (String × UnionOutcome)) (e : BatchEntry) : UnionOutcome :=
  (lastWrite e.itemId outcomes).getD .failingPairMember

def Batch.Covered (batch : Batch) (outcomes : List (String × UnionOutcome)) : Prop :=
  ∀ e ∈ batch.entries, (lastWrite e.itemId outcomes).isSome = true

instance (batch : Batch) (outcomes : List (String × UnionOutcome)) :
    Decidable (batch.Covered outcomes) :=
  inferInstanceAs (Decidable (∀ e ∈ batch.entries, _))

section

variable {outcomes : List (String × UnionOutcome)}

theorem orderedOutcomes_covered {entries : List BatchEntry}
    (h : ∀ e ∈ entries, (lastWrite e.itemId outcomes).isSome = true) :
    orderedOutcomes outcomes entries = .ok (entries.map fun e => (e, outcomeFor outcomes e)) := by
  induction entries with
  | nil => rfl
  | cons entry rest ih =>
    obtain ⟨hentry, hrest⟩ := List.forall_mem_cons.mp h
    obtain ⟨outcome, ho⟩ := Option.isSome_iff_exists.mp hentry
    simp [orderedOutcomes, ho, ih hrest, outcomeFor, Except.map]

theorem orderedOutcomes_missing {entries : List BatchEntry}
    (h : ¬ ∀ e ∈ entries, (lastWrite e.itemId outcomes).isSome = true) :
    ∃ e ∈ entries, lastWrite e.itemId outcomes = none ∧
      orderedOutcomes outcomes entries = .error (.missingOutcome e.itemId) := by
  induction entries with
  | nil => simp at h
  | cons entry rest ih =>
    cases ho : lastWrite entry.itemId outcomes with
    | none => exact ⟨entry, List.mem_cons_self, ho, by simp [orderedOutcomes, ho]⟩
    | some outcome =>
      have hrest : ¬ ∀ e ∈ rest, (lastWrite e.itemId outcomes).isSome = true := by
        simpa [ho] using h
      obtain ⟨e, he, hnone, herr⟩ := ih hrest
      exact ⟨e, List.mem_cons_of_mem _ he, hnone, by simp [orderedOutcomes, ho, herr, Except.map]⟩

variable {batch : Batch}

def Batch.settle (batch : Batch) (outcomes : List (String × UnionOutcome)) : Batch :=
  { batch with entries := batch.entries.map fun e => e.settle (outcomeFor outcomes e) }

theorem landInOrder_covered (h : batch.Covered outcomes) :
    landInOrder batch outcomes =
      (.ok ((batch.settle outcomes).entries.map fun e => ⟨e.itemId, e.state⟩),
        batch.settle outcomes) := by
  simp [landInOrder, orderedOutcomes_covered h, landEntries_eq, Batch.settle, Function.comp_def]

theorem landInOrder_missing (h : ¬ batch.Covered outcomes) :
    ∃ e ∈ batch.entries, lastWrite e.itemId outcomes = none ∧
      landInOrder batch outcomes = (.error (.missingOutcome e.itemId), batch) := by
  obtain ⟨e, he, hnone, herr⟩ := orderedOutcomes_missing h
  exact ⟨e, he, hnone, by simp [landInOrder, herr]⟩

theorem Batch.settle_settled (batch : Batch) (outcomes : List (String × UnionOutcome)) :
    (batch.settle outcomes).Settled := by
  intro e he
  obtain ⟨x, _, rfl⟩ := List.mem_map.mp he
  exact x.settle_isTerminal _

theorem Batch.Settled.settle (h : batch.Settled) (outcomes : List (String × UnionOutcome)) :
    batch.settle outcomes = batch := by
  have hmap : batch.entries.map (fun e => e.settle (outcomeFor outcomes e)) = batch.entries :=
    (List.map_congr_left fun e he => BatchEntry.settle_of_terminal (h e he) _).trans (List.map_id _)
  simp [Batch.settle, hmap]

@[simp] theorem Batch.settle_ids (batch : Batch) (outcomes : List (String × UnionOutcome)) :
    (batch.settle outcomes).ids = batch.ids := by
  simp [Batch.settle, Batch.ids, Function.comp_def]

theorem Batch.settle_covered {os : List (String × UnionOutcome)} :
    (batch.settle outcomes).Covered os ↔ batch.Covered os := by
  simp [Batch.settle, Batch.Covered]

theorem landInOrder_repeat (batch : Batch) (outcomes : List (String × UnionOutcome)) :
    landInOrder (landInOrder batch outcomes).2 outcomes = landInOrder batch outcomes := by
  by_cases hcov : batch.Covered outcomes
  · have hcov' : (batch.settle outcomes).Covered outcomes := Batch.settle_covered.mpr hcov
    simp only [landInOrder_covered hcov, landInOrder_covered hcov',
      (batch.settle_settled outcomes).settle]
  · obtain ⟨e, _, _, hmissing⟩ := landInOrder_missing hcov
    simp only [hmissing]

end

namespace Batch

def indices (batch : Batch) : List Nat :=
  batch.entries.map BatchEntry.orderIndex

theorem isQueueOrdered_iff {batch : Batch} :
    batch.isQueueOrdered = true ↔ batch.indices.Pairwise (· < ·) := by
  rw [← List.isChain_iff_pairwise]
  obtain ⟨_, entries⟩ := batch
  simp only [isQueueOrdered, indices]
  induction entries with
  | nil => simp
  | cons a rest ih =>
    cases rest with
    | nil => simp
    | cons b rest => simpa using fun _ => ih

theorem firstDuplicate_eq_none {seen indices : List Nat} :
    firstDuplicate seen indices = none ↔ indices.Nodup ∧ ∀ i ∈ indices, i ∉ seen := by
  induction indices generalizing seen with
  | nil => simp [firstDuplicate]
  | cons i rest ih =>
    rw [firstDuplicate]
    split_ifs with hi
    · simp [hi]
    · rw [ih, List.nodup_cons, List.forall_mem_cons]
      constructor
      · rintro ⟨hnd, hseen⟩
        exact ⟨⟨fun hm => hseen i hm List.mem_cons_self, hnd⟩, hi,
          fun j hj hs => hseen j hj (List.mem_cons_of_mem _ hs)⟩
      · rintro ⟨⟨hrest, hnd⟩, -, hseen⟩
        refine ⟨hnd, fun j hj hs => ?_⟩
        rcases List.mem_cons.mp hs with rfl | hs
        · exact hrest hj
        · exact hseen j hj hs

theorem tryFromEntries_eq_ok {batchId : String} {entries : List (LandableEntry × List String)} {batch : Batch} :
    tryFromEntries batchId entries = .ok batch ↔ (entries.map fun e => e.1.orderIndex).Nodup ∧
      batch = ⟨batchId, (entries.map fun e => BatchEntry.new e.1 e.2).insertionSort
        fun a b => a.orderIndex ≤ b.orderIndex⟩ := by
  have hindices : (entries.map fun e => BatchEntry.new e.1 e.2).map BatchEntry.orderIndex =
      entries.map fun e => e.1.orderIndex := by
    rw [List.map_map]
    rfl
  have hdup := @firstDuplicate_eq_none [] (entries.map fun e => e.1.orderIndex)
  simp only [tryFromEntries, hindices]
  cases hfirst : firstDuplicate [] (entries.map fun e => e.1.orderIndex) with
  | none =>
    have hnd := (hdup.mp hfirst).1
    simp [hnd, eq_comm]
  | some i =>
    have hnd : ¬ (entries.map fun e => e.1.orderIndex).Nodup := fun hnd => by
      rw [hdup.mpr ⟨hnd, by simp⟩] at hfirst
      cases hfirst
    simp [hnd]

theorem pairwise_lt_insertionSort {α : Type} {index : α → Nat} {l : List α} (h : (l.map index).Nodup) :
    (l.insertionSort fun a b => index a ≤ index b).Pairwise (index · < index ·) := by
  have htotal : Std.Total fun a b => index a ≤ index b := ⟨fun a b => Nat.le_total (index a) (index b)⟩
  have htrans : IsTrans α fun a b => index a ≤ index b := ⟨fun _ _ _ => Nat.le_trans⟩
  have hsorted := List.pairwise_insertionSort (fun a b => index a ≤ index b) l
  have hnodup := ((List.perm_insertionSort (fun a b => index a ≤ index b) l).map index).nodup_iff.mpr h
  refine (hsorted.and (List.pairwise_map.mp hnodup)).imp ?_
  rintro a b ⟨hle, hne⟩
  exact lt_of_le_of_ne hle hne

theorem tryFromEntries_ok {batchId : String} {entries : List (LandableEntry × List String)}
    {batch : Batch} (h : tryFromEntries batchId entries = .ok batch) :
    batch.Fresh ∧ batch.isQueueOrdered = true := by
  obtain ⟨hnd, rfl⟩ := tryFromEntries_eq_ok.mp h
  constructor
  · intro e he
    obtain ⟨p, _, rfl⟩ := List.mem_map.mp ((List.perm_insertionSort _ _).mem_iff.mp he)
    rfl
  · rw [isQueueOrdered_iff, indices, List.pairwise_map]
    refine pairwise_lt_insertionSort ?_
    rw [List.map_map]
    exact hnd

end Batch

end Hugit

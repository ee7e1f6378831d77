import Hugit.AttemptReceipts

/-! Runs of attempts on one log, each under the lock of the log, and each possibly cut
between two writes. -/

namespace Hugit.Attempts

open Durable

/-- The journal on disk, the attempt whose process holds the lock, and the attempts
that the pointer has named, newest first. -/
structure World where
  store : Store
  holder : Option String
  admitted : List String

inductive Call where
  | begin (context : EvaluationContext) (cut : Option Nat)
  | finish (outcome : Outcome) (cut : Option Nat)
  | release

def Call.operation : Call → Option String
  | .begin context _ => some context.operationId
  | .finish _ _ => none
  | .release => none

/-- The attempt that the pointer names. -/
def Store.current (s : Store) : Option String :=
  (((s.files .current).bind readJson).bind currentSerde.ofValue).map Current.operationId

def Store.started (s : Store) (id : String) : Option Started :=
  ((s.files (.receipt id .started)).bind readJson).bind startedSerde.ofValue

/-- What the terminal receipts of an attempt state, if there is just one. -/
def Store.disposition (s : Store) (id : String) : Option String :=
  match s.files (.receipt id .finished), s.files (.receipt id .invalidated) with
  | some text, none => ((readJson text).bind finishedSerde.ofValue).map (·.outcome.asStr)
  | none, some _ => some "invalidated"
  | _, _ => none

namespace World

/-- The states of the disk that a call passes through. A call waits for the lock. -/
def trail (w : World) : Call → List Store
  | .begin context cut => if w.holder.isSome then [] else ((begin context).run w.store).cut cut
  | .finish outcome cut => (w.holder.map fun id => ((finish id outcome).run w.store).cut cut).getD []
  | .release => []

/-- A process that is cut loses the lock. -/
def step (w : World) (call : Call) : World :=
  match call with
  | .begin context cut =>
    if w.holder.isSome then w
    else
      ⟨(w.trail call).getLastD w.store, if cut.isSome then none else ((begin context).run w.store).result.toOption,
        if ((w.trail call).getLastD w.store).current = some context.operationId then
          context.operationId :: w.admitted
        else w.admitted⟩
  | .finish _ cut => ⟨(w.trail call).getLastD w.store, if cut.isSome then none else w.holder, w.admitted⟩
  | .release => { w with holder := none }

def run (w : World) (calls : List Call) : World :=
  calls.foldl step w

def trails (w : World) : List Call → List Store
  | [] => []
  | call :: calls => w.trail call ++ (w.step call).trails calls

def fresh : World :=
  ⟨⟨false, fun _ => none⟩, none, []⟩

end World

def Keeps (s t : Store) : Prop :=
  ∀ id kind text, s.files (.receipt id kind) = some text → t.files (.receipt id kind) = some text

section Keeping

theorem Keeps.refl (s : Store) : Keeps s s :=
  fun _ _ _ h => h

theorem Keeps.trans {s t u : Store} (h : Keeps s t) (h' : Keeps t u) : Keeps s u :=
  fun id kind text hs => h' id kind text (h id kind text hs)

variable {j : Receipts} {id : String}

theorem keeps_put {s : Store} {file : JournalFile} {text : String} (h : s.files file = none ∨ file = .current) :
    Keeps s (s.put file text) := by
  intro id kind old hold
  have hne : JournalFile.receipt id kind ≠ file := by
    rintro rfl
    rcases h with h | h
    · rw [h] at hold
      cases hold
    · cases h
  show Function.update s.files file (some text) (.receipt id kind) = some old
  rw [Function.update_of_ne hne, hold]

theorem keeps_mkdir (j : Receipts) : Keeps j.store j.mkdir.store :=
  fun _ kind _ h => by cases kind <;> exact h

theorem keeps_publish (j : Receipts) (id : String) : Keeps j.store (j.publish id).store := by
  rw [← Receipts.put_publish]
  exact keeps_put (.inr rfl)

theorem keeps_start (h : j.started id = none) (s : Started) : Keeps j.store (j.start id s).store := by
  rw [← Receipts.put_start]
  exact keeps_put (.inl (by simp [Receipts.store, Receipts.file, h]))

theorem keeps_close (h : j.finished id = none) (outcome : Outcome) : Keeps j.store (j.close id outcome).store := by
  rw [← Receipts.put_close]
  exact keeps_put (.inl (by simp [Receipts.store, Receipts.file, h]))

theorem keeps_invalidate (h : j.invalidated id = false) : Keeps j.store (j.invalidate id).store := by
  rw [← Receipts.put_invalidate]
  exact keeps_put (.inl (by simp [Receipts.store, Receipts.file, h]))

end Keeping

/-- Newest first, each start receipt names the attempt before it, with the disposition
that the terminal receipt of that attempt states. -/
def Linked (started : String → Option Started) (disposition : String → Option String) : List String → Prop
  | [] => True
  | [id] => ∃ s, started id = some s ∧ s.previous = none
  | id :: before :: rest =>
    (∃ s d, started id = some s ∧ disposition before = some d ∧ s.previous = some ⟨before, d⟩) ∧
      Linked started disposition (before :: rest)

theorem Linked.congr {started started' : String → Option Started} {disposition disposition' : String → Option String}
    {ids : List String} (h : Linked started disposition ids) (hs : ∀ id ∈ ids, started' id = started id)
    (hd : ∀ id ∈ ids.tail, disposition' id = disposition id) : Linked started' disposition' ids := by
  induction ids with
  | nil => trivial
  | cons id ids ih =>
    cases ids with
    | nil =>
      obtain ⟨s, hstarted, hprevious⟩ := h
      exact ⟨s, by rw [hs id List.mem_cons_self, hstarted], hprevious⟩
    | cons before rest =>
      obtain ⟨⟨s, d, hstarted, hdisposition, hprevious⟩, hrest⟩ := h
      refine ⟨⟨s, d, ?_, ?_, hprevious⟩, ih hrest ?_ ?_⟩
      · rw [hs id List.mem_cons_self, hstarted]
      · rw [hd before List.mem_cons_self, hdisposition]
      · exact fun x hx => hs x (List.mem_cons_of_mem _ hx)
      · exact fun x hx => hd x (List.mem_cons_of_mem _ hx)

/-- What holds between any two writes. -/
structure History (j : Receipts) (holder : Option String) (admitted used : List String) : Prop where
  pointer : j.current = admitted.head?
  dir : j.current ≠ none → j.dir = true
  regular : ∀ id ∈ admitted, ∃ s, j.started id = some s ∧ s.Regular id
  linked : Linked j.started j.disposition admitted
  ended : ∀ id ∈ admitted.tail, j.disposition id ≠ none
  once : ∀ id, j.invalidated id = true → j.finished id = none
  held : ∀ id ∈ holder, j.current = some id ∧ j.invalidated id = false
  used : ∀ id, j.started id ≠ none ∨ j.finished id ≠ none ∨ j.invalidated id = true → id ∈ used
  distinct : admitted.Nodup

section Steps

variable {j : Receipts} {holder : Option String} {admitted used : List String} {id : String}

theorem disposition_close {other : String} (h : other ≠ id) (outcome : Outcome) :
    (j.close id outcome).disposition other = j.disposition other := by
  simp [Receipts.disposition, Receipts.close, h]

theorem disposition_invalidate {other : String} (h : other ≠ id) :
    (j.invalidate id).disposition other = j.disposition other := by
  simp [Receipts.disposition, Receipts.invalidate, h]

namespace History

theorem release (h : History j holder admitted used) : History j none admitted used :=
  { h with held := nofun }

theorem hold (h : History j none admitted used) (hcurrent : j.current = some id) (hi : j.invalidated id = false) :
    History j (some id) admitted used :=
  { h with held := by rintro _ ⟨⟩; exact ⟨hcurrent, hi⟩ }

theorem widen (h : History j none admitted used) (id : String) : History j none admitted (id :: used) :=
  { h with used := fun x hx => List.mem_cons_of_mem id (h.used x hx), held := nofun }

theorem mem_used (h : History j holder admitted used) (hid : id ∈ admitted) : id ∈ used := by
  obtain ⟨s, hs, -⟩ := h.regular id hid
  exact h.used id (.inl (by rw [hs]; nofun))

theorem ne_of_mem_tail (h : History j holder admitted used) (hcurrent : j.current = some id) :
    ∀ x ∈ admitted.tail, x ≠ id := by
  have hpointer := h.pointer
  have hdistinct := h.distinct
  cases admitted with
  | nil => nofun
  | cons first rest =>
    obtain rfl : id = first := by simpa [hcurrent] using hpointer
    rintro x hx rfl
    exact (List.nodup_cons.mp hdistinct).1 hx

theorem current_mem (h : History j holder admitted used) (hcurrent : j.current = some id) : id ∈ admitted :=
  List.mem_of_mem_head? (by rw [← h.pointer, hcurrent]; rfl)

theorem mkdir (h : History j none admitted used) : History j.mkdir none admitted used :=
  { h with dir := fun _ => rfl, held := nofun }

theorem invalidate (h : History j none admitted used) (hcurrent : j.current = some id) (hf : j.finished id = none) :
    History (j.invalidate id) none admitted used where
  pointer := h.pointer
  dir := h.dir
  regular := h.regular
  linked := h.linked.congr (fun _ _ => rfl) fun x hx => disposition_invalidate (h.ne_of_mem_tail hcurrent x hx)
  ended := fun x hx => by
    rw [disposition_invalidate (h.ne_of_mem_tail hcurrent x hx)]
    exact h.ended x hx
  once := by
    intro x hx
    by_cases hid : x = id
    · rw [hid]
      exact hf
    · exact h.once x (by simpa [Receipts.invalidate, hid] using hx)
  held := nofun
  used := by
    intro x hx
    by_cases hid : x = id
    · rw [hid]
      exact h.mem_used (h.current_mem hcurrent)
    · exact h.used x (by simpa [Receipts.invalidate, hid] using hx)
  distinct := h.distinct

theorem start (h : History j none admitted used) (hnew : id ∉ used) (s : Started) :
    History (j.start id s) none admitted (id :: used) where
  pointer := h.pointer
  dir := h.dir
  regular := by
    intro x hx
    have hne : x ≠ id := fun he => hnew (he ▸ h.mem_used hx)
    simpa [Receipts.start, hne] using h.regular x hx
  linked := by
    refine h.linked.congr (fun x hx => ?_) fun _ _ => rfl
    have hne : x ≠ id := fun he => hnew (he ▸ h.mem_used hx)
    simp [Receipts.start, hne]
  ended := h.ended
  once := h.once
  held := nofun
  used := by
    intro x hx
    by_cases hid : x = id
    · rw [hid]
      exact List.mem_cons_self
    · exact List.mem_cons_of_mem id (h.used x (by simpa [Receipts.start, hid] using hx))
  distinct := h.distinct

theorem publish (h : History j none admitted used) (hdir : j.dir = true) {s : Started} (hs : j.started id = some s)
    (hregular : s.Regular id) (hnot : id ∉ admitted)
    (hlink : j.current = none ∧ s.previous = none ∨
      ∃ before d, j.current = some before ∧ j.disposition before = some d ∧ s.previous = some ⟨before, d⟩) :
    History (j.publish id) none (id :: admitted) used where
  pointer := rfl
  dir := fun _ => hdir
  regular := by
    intro x hx
    rcases List.mem_cons.mp hx with rfl | hx
    · exact ⟨s, hs, hregular⟩
    · exact h.regular x hx
  linked := by
    have hpointer := h.pointer
    have hlinked := h.linked
    cases admitted with
    | nil =>
      rcases hlink with ⟨-, hprevious⟩ | ⟨before, d, hcurrent, -⟩
      · exact ⟨s, hs, hprevious⟩
      · simp [hcurrent] at hpointer
    | cons first rest =>
      rcases hlink with ⟨hcurrent, -⟩ | ⟨before, d, hcurrent, hd, hprevious⟩
      · simp [hcurrent] at hpointer
      · obtain rfl : before = first := by simpa [hcurrent] using hpointer
        exact ⟨⟨s, d, hs, hd, hprevious⟩, hlinked⟩
  ended := by
    have hpointer := h.pointer
    have hended := h.ended
    cases admitted with
    | nil => nofun
    | cons first rest =>
      intro x hx
      rcases List.mem_cons.mp hx with rfl | hx
      · rcases hlink with ⟨hcurrent, -⟩ | ⟨before, d, hcurrent, hd, -⟩
        · simp [hcurrent] at hpointer
        · obtain rfl : before = x := by simpa [hcurrent] using hpointer
          show j.disposition before ≠ none
          rw [hd]
          nofun
      · exact hended x hx
  once := h.once
  held := nofun
  used := h.used
  distinct := List.nodup_cons.mpr ⟨hnot, h.distinct⟩

theorem close (h : History j (some id) admitted used) (outcome : Outcome) :
    History (j.close id outcome) (some id) admitted used where
  pointer := h.pointer
  dir := h.dir
  regular := h.regular
  linked := h.linked.congr (fun _ _ => rfl) fun x hx =>
    disposition_close (h.ne_of_mem_tail (h.held id rfl).1 x hx) outcome
  ended := fun x hx => by
    rw [disposition_close (h.ne_of_mem_tail (h.held id rfl).1 x hx)]
    exact h.ended x hx
  once := by
    intro x hx
    have hne : x ≠ id := by
      rintro rfl
      exact absurd ((h.held x rfl).2.symm.trans hx) nofun
    simpa [Receipts.close, hne] using h.once x hx
  held := h.held
  used := by
    intro x hx
    by_cases hid : x = id
    · rw [hid]
      exact h.mem_used (h.current_mem (h.held id rfl).1)
    · exact h.used x (by simpa [Receipts.close, hid] using hx)
  distinct := h.distinct

end History

end Steps

section Runs

instance : IsTrans Store Keeps :=
  ⟨fun _ _ _ => Keeps.trans⟩

theorem keeps_getLastD {s : Store} {ts : List Store} (h : (s :: ts).Pairwise Keeps) :
    ∀ t ∈ s :: ts, Keeps t (ts.getLastD s) := by
  induction ts generalizing s with
  | nil =>
    intro t ht
    rw [List.mem_singleton.mp ht]
    exact .refl s
  | cons u ts ih =>
    intro t ht
    obtain ⟨hs, hrest⟩ := List.pairwise_cons.mp h
    rw [List.getLastD_cons]
    rcases List.mem_cons.mp ht with rfl | ht
    · exact (hs u List.mem_cons_self).trans (ih hrest u List.mem_cons_self)
    · exact ih hrest t ht

variable {j : Receipts} {admitted used : List String} {context : EvaluationContext}

def Left (j : Receipts) (admitted used : List String) (id : String) (t : Receipts) : Prop :=
  t.current = j.current ∧ History t none admitted (id :: used) ∨
    t.current = some id ∧ History t none (id :: admitted) (id :: used)

theorem left_of_start (h : History j none admitted used) (hdir : j.dir = true) (hlive : Live context = true)
    (hnew : context.operationId ∉ used) {previous : Option Previous}
    (hlink : j.current = none ∧ previous = none ∨
      ∃ before d, j.current = some before ∧ j.disposition before = some d ∧ previous = some ⟨before, d⟩) :
    History (j.start context.operationId (startOf context previous)) none admitted (context.operationId :: used) ∧
      History ((j.start context.operationId (startOf context previous)).publish context.operationId) none
        (context.operationId :: admitted) (context.operationId :: used) := by
  have hstart := h.start hnew (startOf context previous)
  refine ⟨hstart, hstart.publish hdir (by simp [Receipts.start]) (startOf_regular hlive ?_) ?_ hlink⟩
  · rintro p hp
    rcases hlink with ⟨-, rfl⟩ | ⟨before, d, hcurrent, hd, rfl⟩
    · cases hp
    · cases hp
      obtain ⟨s, -, hregular⟩ := h.regular before (h.current_mem hcurrent)
      exact ⟨hregular.named, disposition_size hd⟩
  · exact fun hmem => hnew (h.mem_used hmem)

theorem started_eq_none (h : History j none admitted used) {id : String} (hnew : id ∉ used) : j.started id = none := by
  by_contra hs
  exact hnew (h.used id (.inl hs))

theorem invalidated_eq_false (h : History j none admitted used) {id : String} (hnew : id ∉ used) :
    j.invalidated id = false := by
  by_contra hi
  exact hnew (h.used id (.inr (.inr (by simpa using hi))))

theorem open_of_disposition {id : String} (honce : ∀ id, j.invalidated id = true → j.finished id = none)
    (h : j.disposition id = none) : j.finished id = none ∧ j.invalidated id = false := by
  have hid := honce id
  unfold Receipts.disposition at h
  cases hf : j.finished id with
  | none =>
    cases hi : j.invalidated id with
    | true => simp [hf, hi] at h
    | false => exact ⟨rfl, rfl⟩
  | some outcome =>
    cases hi : j.invalidated id with
    | true => simp [hf, hi] at hid
    | false => simp [hf, hi] at h

theorem begin_history (h : History j none admitted used) (hnew : context.operationId ∉ used) :
    ∃ ts : List Receipts, ((begin context).run j.store).states = ts.map Receipts.store ∧
      (j.store :: ts.map Receipts.store).Pairwise Keeps ∧
      (∀ t ∈ j :: ts, Left j admitted used context.operationId t) ∧
      (((begin context).run j.store).result.toOption = none ∨
        ((begin context).run j.store).result = .ok context.operationId ∧
        History (ts.getLastD j) (some context.operationId) (context.operationId :: admitted)
          (context.operationId :: used)) := by
  have hstart := started_eq_none h hnew
  have hinvalid := invalidated_eq_false h hnew
  have hself : Left j admitted used context.operationId j := .inl ⟨rfl, h.widen _⟩
  by_cases hlive : Live context = true
  case neg =>
    refine ⟨[], by rw [begin_refused (by simpa using hlive)]; rfl, by simp, by simpa using hself, .inl ?_⟩
    rw [begin_refused (by simpa using hlive)]
    rfl
  cases hcurrent : j.current with
  | none =>
    cases hdir : j.dir with
    | true =>
      refine ⟨[], by rw [begin_stuck hlive hdir hcurrent]; rfl, by simp, by simpa using hself, .inl ?_⟩
      rw [begin_stuck hlive hdir hcurrent]
      rfl
    | false =>
      obtain ⟨hs, hp⟩ := left_of_start h.mkdir rfl hlive hnew (.inl ⟨hcurrent, rfl⟩)
      rw [begin_first hlive hdir hcurrent hstart]
      refine ⟨[_, _, _], rfl, ?_, ?_, .inr ⟨rfl, hp.hold rfl hinvalid⟩⟩
      · refine List.isChain_iff_pairwise.mp (.cons_cons (keeps_mkdir j) (.cons_cons ?_ (.cons_cons ?_ (.singleton _))))
        · exact keeps_start hstart _
        · exact keeps_publish _ _
      · simp only [List.forall_mem_cons, List.not_mem_nil, false_imp_iff, implies_true, and_true]
        exact ⟨hself, .inl ⟨rfl, h.mkdir.widen _⟩, .inl ⟨rfl, hs⟩, .inr ⟨rfl, hp⟩⟩
  | some before =>
    obtain ⟨s, hs, hregular⟩ := h.regular before (h.current_mem hcurrent)
    have hdir := h.dir (by rw [hcurrent]; nofun)
    have hother : before ≠ context.operationId := fun he => hnew (he ▸ h.mem_used (h.current_mem hcurrent))
    obtain ⟨hended, hopen⟩ := begin_next hlive hdir hcurrent hs hregular hother hstart
    cases hd : j.disposition before with
    | some d =>
      obtain ⟨hs, hp⟩ := left_of_start h hdir hlive hnew (.inr ⟨before, d, hcurrent, hd, rfl⟩)
      rw [hended d hd]
      refine ⟨[_, _], rfl, ?_, ?_, .inr ⟨rfl, hp.hold rfl hinvalid⟩⟩
      · exact List.isChain_iff_pairwise.mp
          (.cons_cons (keeps_start hstart _) (.cons_cons (keeps_publish _ _) (.singleton _)))
      · simp only [List.forall_mem_cons, List.not_mem_nil, false_imp_iff, implies_true, and_true]
        exact ⟨hself, .inl ⟨rfl, hs⟩, .inr ⟨rfl, hp⟩⟩
    | none =>
      obtain ⟨hf, hi⟩ := open_of_disposition h.once hd
      have hcut := h.invalidate hcurrent hf
      obtain ⟨hs, hp⟩ := left_of_start hcut hdir hlive hnew
        (.inr ⟨before, "invalidated", hcurrent, by simp [Receipts.disposition, Receipts.invalidate, hf], rfl⟩)
      rw [hopen hf hi]
      have hkept : (j.invalidate before).invalidated context.operationId = false := by
        simpa [Receipts.invalidate, hother.symm] using hinvalid
      refine ⟨[_, _, _], rfl, ?_, ?_, .inr ⟨rfl, hp.hold rfl hkept⟩⟩
      · refine List.isChain_iff_pairwise.mp
          (.cons_cons (keeps_invalidate hi) (.cons_cons ?_ (.cons_cons (keeps_publish _ _) (.singleton _))))
        exact @keeps_start (j.invalidate before) _ hstart _
      · simp only [List.forall_mem_cons, List.not_mem_nil, false_imp_iff, implies_true, and_true]
        exact ⟨hself, .inl ⟨rfl, hcut.widen _⟩, .inl ⟨rfl, hs⟩, .inr ⟨rfl, hp⟩⟩

theorem store_current (j : Receipts) : j.store.current = j.current := by
  have hread : ∀ id, (readJson (printJson (currentSerde.toValue ⟨schema, id⟩))).bind currentSerde.ofValue =
      some ⟨schema, id⟩ := by
    intro id
    rw [readJson_printJson (currentSerde_reads _).printable, Option.bind_some, (currentSerde_reads _).reads]
  cases h : j.current with
  | none => simp [Store.current, Receipts.store, Receipts.file, h]
  | some id => simp [Store.current, Receipts.store, Receipts.file, h, hread]

def Tracked (w : World) (used : List String) : Prop :=
  ∃ j : Receipts, w.store = j.store ∧ History j w.holder w.admitted used

theorem pairwise_cut {σ ε α : Type} {R : σ → σ → Prop} {t : Trace σ ε α} {s : σ} (h : (s :: t.states).Pairwise R)
    (cut : Option Nat) : (s :: t.cut cut).Pairwise R := by
  cases cut with
  | none => exact h
  | some n => exact h.sublist ((List.take_sublist n _).cons_cons s)

theorem Left.history (h : History j none admitted used) {id : String} (hnew : id ∉ used) {t : Receipts}
    (ht : Left j admitted used id t) :
    History t none (if t.store.current = some id then id :: admitted else admitted) (id :: used) := by
  rw [store_current]
  rcases ht with ⟨hcurrent, ht⟩ | ⟨hcurrent, ht⟩
  · have hother : t.current ≠ some id := fun he => hnew (h.mem_used (h.current_mem (hcurrent ▸ he)))
    rwa [if_neg hother]
  · rwa [if_pos hcurrent]

theorem finish_history {id : String} (h : History j (some id) admitted used) (outcome : Outcome) :
    ∃ ts : List Receipts, ((finish id outcome).run j.store).states = ts.map Receipts.store ∧
      (j.store :: ts.map Receipts.store).Pairwise Keeps ∧ ∀ t ∈ j :: ts, History t (some id) admitted used := by
  obtain ⟨s, -, hregular⟩ := h.regular id (h.current_mem (h.held id rfl).1)
  by_cases hf : j.finished id = none
  · rw [finish_open hregular.named hf]
    refine ⟨[j.close id outcome], rfl, ?_, ?_⟩
    · simpa using keeps_close hf outcome
    · simpa using ⟨h, h.close outcome⟩
  · rw [finish_twice hregular.named hf]
    exact ⟨[], rfl, by simp, by simpa using h⟩

theorem exists_last {ts : List Receipts} {t : Trace Store PorcelainError α} (h : t.states = ts.map Receipts.store)
    (cut : Option Nat) : ∃ last ∈ j :: ts, (t.cut cut).getLastD j.store = last.store := by
  have hmem := getLastD_cut_mem t cut j.store
  rw [h, ← List.map_cons, List.mem_map] at hmem
  obtain ⟨last, hlast, heq⟩ := hmem
  exact ⟨last, hlast, heq.symm⟩

theorem trail_finish (store : Store) (id : String) (admitted : List String) (outcome : Outcome) (cut : Option Nat) :
    World.trail ⟨store, some id, admitted⟩ (.finish outcome cut) = ((finish id outcome).run store).cut cut := by
  simp only [World.trail, Option.map_some, Option.getD_some]

theorem step_finish (w : World) (outcome : Outcome) (cut : Option Nat) : w.step (.finish outcome cut) =
    ⟨(w.trail (.finish outcome cut)).getLastD w.store, if cut.isSome then none else w.holder, w.admitted⟩ := rfl

theorem trail_begin (store : Store) (admitted : List String) (context : EvaluationContext) (cut : Option Nat) :
    World.trail ⟨store, none, admitted⟩ (.begin context cut) = ((begin context).run store).cut cut := rfl

theorem step_begin (store : Store) (admitted : List String) (context : EvaluationContext) (cut : Option Nat) :
    World.step ⟨store, none, admitted⟩ (.begin context cut) =
      ⟨(((begin context).run store).cut cut).getLastD store,
        if cut.isSome then none else ((begin context).run store).result.toOption,
        if ((((begin context).run store).cut cut).getLastD store).current = some context.operationId then
          context.operationId :: admitted
        else admitted⟩ := rfl

theorem finish_tracked {id : String} (h : History j (some id) admitted used) (outcome : Outcome) (cut : Option Nat) :
    Tracked (World.step ⟨j.store, some id, admitted⟩ (.finish outcome cut)) used ∧
      (j.store :: World.trail ⟨j.store, some id, admitted⟩ (.finish outcome cut)).Pairwise Keeps := by
  obtain ⟨ts, hstates, hkeeps, hts⟩ := finish_history h outcome
  rw [← hstates] at hkeeps
  rw [step_finish, trail_finish]
  generalize (finish id outcome).run j.store = t at hstates hkeeps
  obtain ⟨last, hlast, heq⟩ := exists_last (j := j) hstates cut
  refine ⟨⟨last, heq, ?_⟩, pairwise_cut hkeeps cut⟩
  cases cut with
  | none => exact hts last hlast
  | some n => exact (hts last hlast).release

theorem begin_tracked (h : History j none admitted used) (hnew : context.operationId ∉ used) (cut : Option Nat) :
    Tracked (World.step ⟨j.store, none, admitted⟩ (.begin context cut)) (context.operationId :: used) ∧
      (j.store :: World.trail ⟨j.store, none, admitted⟩ (.begin context cut)).Pairwise Keeps := by
  obtain ⟨ts, hstates, hkeeps, hts, hend⟩ := begin_history h hnew
  rw [← hstates] at hkeeps
  rw [step_begin, trail_begin]
  generalize (begin context).run j.store = t at hstates hkeeps hend
  refine ⟨?_, pairwise_cut hkeeps cut⟩
  cases cut with
  | some n =>
    obtain ⟨last, hlast, heq⟩ := exists_last (j := j) hstates (some n)
    refine ⟨last, heq, ?_⟩
    rw [heq]
    exact (hts last hlast).history h hnew
  | none =>
    have heq : (t.cut none).getLastD j.store = (ts.getLastD j).store := by
      rw [Trace.cut, hstates, List.getLastD_map]
    have hleft := (hts _ List.getLastD_mem_cons).history h hnew
    refine ⟨ts.getLastD j, heq, ?_⟩
    rw [heq]
    rcases hend with hnone | ⟨hok, hheld⟩
    · rw [hnone]
      exact hleft
    · have hcurrent : (ts.getLastD j).store.current = some context.operationId := by
        rw [store_current]
        exact (hheld.held _ rfl).1
      rw [if_pos hcurrent, hok]
      exact hheld

theorem step_tracked {w : World} (h : Tracked w used) (call : Call) (hnew : ∀ id ∈ call.operation, id ∉ used) :
    Tracked (w.step call) (call.operation.toList ++ used) ∧ (w.store :: w.trail call).Pairwise Keeps ∧
      (w.step call).store = (w.trail call).getLastD w.store := by
  obtain ⟨store, holder, admitted⟩ := w
  obtain ⟨j, rfl, hj⟩ := h
  cases call with
  | release => exact ⟨⟨j, rfl, hj.release⟩, List.pairwise_singleton _ _, rfl⟩
  | finish outcome cut =>
    cases holder with
    | none =>
      refine ⟨⟨j, rfl, ?_⟩, List.pairwise_singleton _ _, rfl⟩
      cases cut <;> exact hj
    | some id =>
      obtain ⟨htracked, hkeeps⟩ := finish_tracked hj outcome cut
      exact ⟨htracked, hkeeps, by rw [step_finish]⟩
  | begin context cut =>
    cases holder with
    | some id =>
      exact ⟨⟨j, rfl, { hj with used := fun x hx => List.mem_cons_of_mem _ (hj.used x hx) }⟩,
        List.pairwise_singleton _ _, rfl⟩
    | none =>
      obtain ⟨htracked, hkeeps⟩ := begin_tracked hj (hnew context.operationId rfl) cut
      exact ⟨htracked, hkeeps, by rw [step_begin, trail_begin]⟩

theorem run_tracked {w : World} {calls : List Call} (h : Tracked w used)
    (hdistinct : (calls.filterMap Call.operation).Nodup) (hnew : ∀ id ∈ calls.filterMap Call.operation, id ∉ used) :
    (∃ used', Tracked (w.run calls) used' ∧ ∀ id ∈ used', id ∈ used ∨ id ∈ calls.filterMap Call.operation) ∧
      (w.trails calls).Pairwise Keeps ∧ ∀ t ∈ w.trails calls, Keeps w.store t := by
  induction calls generalizing w used with
  | nil => exact ⟨⟨used, h, fun id hid => .inl hid⟩, .nil, nofun⟩
  | cons call calls ih =>
    have hsplit : (call :: calls).filterMap Call.operation =
        call.operation.toList ++ calls.filterMap Call.operation := by
      cases hop : call.operation <;> simp [hop]
    rw [hsplit] at hdistinct hnew ⊢
    obtain ⟨-, hrest, hapart⟩ := List.nodup_append.mp hdistinct
    obtain ⟨htracked, hkeeps, hstore⟩ := step_tracked h call fun id hid =>
      hnew id (List.mem_append_left _ (Option.mem_toList.mpr hid))
    obtain ⟨⟨used', hrun, hused⟩, hpair, hlater⟩ := ih htracked hrest fun id hid hmem => by
      rcases List.mem_append.mp hmem with hmem | hmem
      · exact hapart id hmem id hid rfl
      · exact hnew id (List.mem_append_right _ hid) hmem
    have hlast := keeps_getLastD hkeeps
    rw [← hstore] at hlast
    refine ⟨⟨used', hrun, fun id hid => ?_⟩, ?_, ?_⟩
    · rcases hused id hid with hmem | hmem
      · rcases List.mem_append.mp hmem with hmem | hmem
        · exact .inr (List.mem_append_left _ hmem)
        · exact .inl hmem
      · exact .inr (List.mem_append_right _ hmem)
    · refine List.pairwise_append.mpr ⟨(List.pairwise_cons.mp hkeeps).2, hpair, fun s hs t ht => ?_⟩
      exact (hlast s (List.mem_cons_of_mem _ hs)).trans (hlater t ht)
    · intro t ht
      rcases List.mem_append.mp ht with ht | ht
      · exact (List.pairwise_cons.mp hkeeps).1 t ht
      · exact (hlast w.store List.mem_cons_self).trans (hlater t ht)

def Receipts.empty : Receipts :=
  ⟨false, none, fun _ => none, fun _ => none, fun _ => false⟩

theorem fresh_store : World.fresh.store = Receipts.empty.store := by
  have hfile : (fun _ => none) = Receipts.empty.file := by
    funext file
    match file with
    | .current | .receipt _ .started | .receipt _ .finished | .receipt _ .invalidated => rfl
  rw [World.fresh, hfile]
  rfl

theorem fresh_tracked : Tracked World.fresh [] :=
  ⟨.empty, fresh_store, rfl, nofun, nofun, trivial, nofun, nofun, nofun, by simp [Receipts.empty], List.nodup_nil⟩

theorem store_started (j : Receipts) (id : String) : j.store.started id = j.started id := by
  cases h : j.started id with
  | none => simp [Store.started, Receipts.store, Receipts.file, h]
  | some s =>
    have hread := startedSerde_reads s
    simp [Store.started, Receipts.store, Receipts.file, h, readJson_printJson hread.printable, hread.reads]

theorem store_disposition (j : Receipts) (id : String) : j.store.disposition id = j.disposition id := by
  cases hf : j.finished id with
  | none =>
    cases hi : j.invalidated id <;>
      simp [Store.disposition, Receipts.disposition, Receipts.store, Receipts.file, hf, hi]
  | some outcome =>
    have hread := finishedSerde_reads ⟨schema, id, outcome⟩
    cases hi : j.invalidated id <;>
      simp [Store.disposition, Receipts.disposition, Receipts.store, Receipts.file, hf, hi,
        readJson_printJson hread.printable, hread.reads]

theorem xor_of_disposition {id : String} (h : j.disposition id ≠ none) :
    Xor (j.store.files (.receipt id .finished) ≠ none) (j.store.files (.receipt id .invalidated) ≠ none) := by
  unfold Receipts.disposition at h
  cases hf : j.finished id <;> cases hi : j.invalidated id <;>
    simp_all [Xor, Receipts.store, Receipts.file]

/-- Receipts are kept, an admitted attempt that is not the current one has one terminal
receipt, and the links lead from the current attempt through all the admitted ones. -/
structure ExactHistory (calls : List Call) : Prop where
  kept : (World.fresh.trails calls).Pairwise Keeps
  terminal : ∀ id ∈ (World.fresh.run calls).admitted, (World.fresh.run calls).store.current ≠ some id →
    Xor ((World.fresh.run calls).store.files (.receipt id .finished) ≠ none)
      ((World.fresh.run calls).store.files (.receipt id .invalidated) ≠ none)
  pointer : (World.fresh.run calls).store.current = (World.fresh.run calls).admitted.head?
  distinct : (World.fresh.run calls).admitted.Nodup
  linked : Linked (World.fresh.run calls).store.started (World.fresh.run calls).store.disposition
    (World.fresh.run calls).admitted

theorem attempts_form_history {calls : List Call} (hdistinct : (calls.filterMap Call.operation).Nodup) :
    ExactHistory calls := by
  obtain ⟨⟨used, ⟨j, hstore, h⟩, -⟩, hkeeps, -⟩ := run_tracked fresh_tracked hdistinct fun _ _ => List.not_mem_nil
  refine ⟨hkeeps, ?_, by rw [hstore, store_current, h.pointer], h.distinct, ?_⟩
  · intro id hid hother
    rw [hstore, store_current] at hother
    rw [hstore]
    refine xor_of_disposition ?_
    have hpointer := h.pointer
    have hended := h.ended
    generalize (World.fresh.run calls).admitted = admitted at hid hpointer hended
    cases admitted with
    | nil => cases hid
    | cons first rest =>
      rcases List.mem_cons.mp hid with rfl | hmem
      · exact absurd hpointer hother
      · exact hended id hmem
  · refine h.linked.congr (fun id _ => ?_) fun id _ => ?_
    · rw [hstore, store_started]
    · rw [hstore, store_disposition]

def liveContext (n : Char) : EvaluationContext where
  operationId := String.ofList ("queue-0000000000000000000000000000000".toList ++ [n])
  baseId := "event-log-sha256:input"
  configId := "simulation-config-sha256:config"
  scope := "simulation_only"

def interruptedCalls : List Call :=
  [.begin (liveContext '1') none, .release, .begin (liveContext '2') (some 2), .begin (liveContext '3') none,
    .finish .applied none]

theorem interrupted_attempts_linked :
    (interruptedCalls.filterMap Call.operation).Nodup ∧ ExactHistory interruptedCalls := by
  have hdistinct : (interruptedCalls.filterMap Call.operation).Nodup := by decide +kernel
  exact ⟨hdistinct, attempts_form_history hdistinct⟩

end Runs

end Hugit.Attempts

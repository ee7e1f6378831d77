import Hugit.LastWrite
import Hugit.Text

/-! Session journals in the journal store, and the sessions resumed from them. The
store keeps a journal under one text made of the three ids of its key. -/

namespace Hugit.Session

open Std

structure JournalKey where
  tenantId : String
  workspaceId : String
  intentId : String
  deriving DecidableEq

structure JournalEntry where
  seq : Nat
  recordedAt : Nat
  principal : String
  note : String
  deriving DecidableEq

structure Journal where
  key : JournalKey
  entries : List JournalEntry
  deriving DecidableEq

inductive JournalError where
  | tenantMismatch (expected found : String)
  | notFound (key : JournalKey)
  deriving DecidableEq

def defaultHorizonMs : Nat := 7 * 24 * 60 * 60 * 1000

inductive HorizonResult where
  | withinHorizon
  | beyondHorizon (ageMs horizonMs : Nat)
  deriving DecidableEq

structure ReconstructedContext where
  tenantId : String
  workspaceId : String
  intentId : String
  entries : List JournalEntry
  lastRecordedAt : Nat
  horizonMs : Nat
  deriving DecidableEq

inductive ResumeError where
  | notFound (e : JournalError)
  | beyondHorizon (ageMs horizonMs : Nat)
  | emptyJournal
  deriving DecidableEq

def checkHorizon (lastRecordedAt nowMs horizonMs : Nat) : HorizonResult :=
  let ageMs := nowMs - lastRecordedAt
  if ageMs ≤ horizonMs then .withinHorizon else .beyondHorizon ageMs horizonMs

def Journal.lastRecordedAt (journal : Journal) : Option Nat :=
  journal.entries.getLast?.map (·.recordedAt)

abbrev JournalStore := ExtTreeMap String Journal

namespace JournalStore

def storageKey (key : JournalKey) : String :=
  key.tenantId ++ ":" ++ key.workspaceId ++ ":" ++ key.intentId

def put (store : JournalStore) (journal : Journal) : JournalStore :=
  store.insert (storageKey journal.key) journal

def opened (store : JournalStore) (tenantId workspaceId intentId : String) : Except JournalError Journal :=
  let key := ⟨tenantId, workspaceId, intentId⟩
  match store[storageKey key]? with
  | none => .error (.notFound key)
  | some journal =>
    if journal.key.tenantId ≠ tenantId then .error (.tenantMismatch tenantId journal.key.tenantId)
    else .ok journal

def ofPuts (puts : List Journal) : JournalStore :=
  puts.foldl put ∅

end JournalStore

def ctxResumeFromJournal (journal : Journal) (nowMs : Nat) : Except ResumeError ReconstructedContext :=
  match journal.lastRecordedAt with
  | none => .error .emptyJournal
  | some lastRecordedAt =>
    match checkHorizon lastRecordedAt nowMs defaultHorizonMs with
    | .beyondHorizon ageMs horizonMs => .error (.beyondHorizon ageMs horizonMs)
    | .withinHorizon =>
      .ok ⟨journal.key.tenantId, journal.key.workspaceId, journal.key.intentId, journal.entries, lastRecordedAt,
        defaultHorizonMs⟩

def ctxResume (store : JournalStore) (tenantId workspaceId intentId : String) (nowMs : Nat) :
    Except ResumeError ReconstructedContext :=
  match store.opened tenantId workspaceId intentId with
  | .error e => .error (.notFound e)
  | .ok journal => ctxResumeFromJournal journal nowMs

theorem ctxResumeFromJournal_eq_ok {journal : Journal} {nowMs : Nat} {context : ReconstructedContext}
    (h : ctxResumeFromJournal journal nowMs = .ok context) :
    (⟨context.tenantId, context.workspaceId, context.intentId⟩ : JournalKey) = journal.key ∧
      context.entries = journal.entries := by
  rw [ctxResumeFromJournal] at h
  split at h
  · cases h
  split at h
  · cases h
  · obtain rfl := Except.ok.inj h
    exact ⟨rfl, rfl⟩

namespace JournalKey

/-- Neither the workspace id nor the intent id has a colon. -/
def Plain (key : JournalKey) : Prop :=
  ':' ∉ key.workspaceId.toList ∧ ':' ∉ key.intentId.toList

instance (key : JournalKey) : Decidable key.Plain :=
  inferInstanceAs (Decidable (_ ∧ _))

theorem toList_storageKey (key : JournalKey) : (JournalStore.storageKey key).toList =
    key.tenantId.toList ++ ':' :: (key.workspaceId.toList ++ ':' :: key.intentId.toList) := by
  simp [JournalStore.storageKey]

theorem storageKey_inj {k l : JournalKey} (hk : k.Plain) (hl : l.Plain)
    (h : JournalStore.storageKey k = JournalStore.storageKey l) : k = l := by
  have hlists : (k.tenantId.toList ++ ':' :: k.workspaceId.toList) ++ ':' :: k.intentId.toList =
      (l.tenantId.toList ++ ':' :: l.workspaceId.toList) ++ ':' :: l.intentId.toList := by
    have htext := congrArg String.toList h
    simpa only [toList_storageKey, List.append_assoc, List.cons_append] using htext
  obtain ⟨hfront, hintent⟩ := append_separator_inj hk.2 hl.2 hlists
  obtain ⟨htenant, hworkspace⟩ := append_separator_inj hk.1 hl.1 hfront
  cases k
  cases l
  simp_all [String.toList_inj]

theorem eq_of_storageKey {k l : JournalKey} (hk : k.Plain) (htenant : k.tenantId = l.tenantId)
    (h : JournalStore.storageKey k = JournalStore.storageKey l) : k = l := by
  refine storageKey_inj hk ?_ h
  have hlists : k.workspaceId.toList ++ ':' :: k.intentId.toList =
      l.workspaceId.toList ++ ':' :: l.intentId.toList := by
    have htext := congrArg String.toList h
    rw [toList_storageKey, toList_storageKey, htenant] at htext
    exact (List.cons.inj (List.append_cancel_left htext)).2
  have hcount := congrArg (List.count ':') hlists
  simp only [List.count_append, List.count_cons_self, List.count_eq_zero.mpr hk.1, List.count_eq_zero.mpr hk.2]
    at hcount
  exact ⟨List.count_eq_zero.mp (by omega), List.count_eq_zero.mp (by omega)⟩

/-- A colon in one of the two ids can be read as the one between them. -/
theorem exists_other_of_not_plain {k : JournalKey} (h : ¬ k.Plain) :
    ∃ l, l ≠ k ∧ k.tenantId = l.tenantId ∧ JournalStore.storageKey k = JournalStore.storageKey l := by
  obtain ⟨tenantId, workspaceId, intentId⟩ := k
  by_cases hw : ':' ∈ workspaceId.toList
  · obtain ⟨front, back, hsplit⟩ := List.append_of_mem hw
    refine ⟨⟨tenantId, .ofList front, .ofList back ++ ":" ++ intentId⟩, ?_, rfl, ?_⟩
    · intro he
      have hlen := congrArg (fun key => key.intentId.toList.length) he
      simp only [String.toList_append, List.length_append] at hlen
      have hcolon : ":".toList.length = 1 := rfl
      omega
    · rw [← String.toList_inj, toList_storageKey, toList_storageKey]
      simp [hsplit]
  · have hi : ':' ∈ intentId.toList := by
      by_contra hi
      exact h ⟨hw, hi⟩
    obtain ⟨front, back, hsplit⟩ := List.append_of_mem hi
    refine ⟨⟨tenantId, workspaceId ++ ":" ++ .ofList front, .ofList back⟩, ?_, rfl, ?_⟩
    · intro he
      have hlen := congrArg (fun key => key.workspaceId.toList.length) he
      simp only [String.toList_append, List.length_append] at hlen
      have hcolon : ":".toList.length = 1 := rfl
      omega
    · rw [← String.toList_inj, toList_storageKey, toList_storageKey]
      simp [hsplit]

end JournalKey

namespace JournalStore

variable {puts : List Journal} {journal : Journal}

theorem ofPuts_concat (puts : List Journal) (journal : Journal) :
    ofPuts (puts ++ [journal]) = (ofPuts puts).put journal := by
  simp [ofPuts]

theorem toOption_opened (store : JournalStore) (k : JournalKey) :
    (store.opened k.tenantId k.workspaceId k.intentId).toOption =
      store[storageKey k]?.filter (·.key.tenantId = k.tenantId) := by
  rw [opened]
  cases h : store[storageKey k]? with
  | none => simp [Except.toOption]
  | some journal =>
    by_cases htenant : journal.key.tenantId = k.tenantId <;> simp [htenant, Except.toOption, Option.filter]

/-- What the store is for: the last journal put under the key. -/
def lastPut (puts : List Journal) (k : JournalKey) : Option Journal :=
  lastWrite k (puts.map fun journal => (journal.key, journal))

theorem lastPut_concat (puts : List Journal) (journal : Journal) (k : JournalKey) :
    lastPut (puts ++ [journal]) k = if journal.key = k then some journal else lastPut puts k := by
  rw [lastPut, List.map_append, List.map_singleton, lastWrite_concat]
  rfl

theorem mem_of_lastPut {k : JournalKey} (h : lastPut puts k = some journal) : journal ∈ puts ∧ journal.key = k := by
  obtain ⟨j, hj, he⟩ := List.mem_map.mp (mem_of_lastWrite h)
  obtain ⟨rfl, rfl⟩ := Prod.mk.inj he
  exact ⟨hj, rfl⟩

theorem lastPut_eq_none {k : JournalKey} : lastPut puts k = none ↔ ∀ journal ∈ puts, journal.key ≠ k := by
  simp [lastPut, lastWrite_eq_none]

theorem toOption_opened_ofPuts (hplain : ∀ journal ∈ puts, journal.key.Plain) (k : JournalKey) :
    ((ofPuts puts).opened k.tenantId k.workspaceId k.intentId).toOption = lastPut puts k := by
  induction puts using List.reverseRecOn with
  | nil => simp [toOption_opened, ofPuts, lastPut]
  | append_singleton puts journal ih =>
    obtain ⟨hbefore, hjournal⟩ := List.forall_mem_append.mp hplain
    have hplainJournal := hjournal journal (List.mem_singleton_self _)
    rw [ofPuts_concat, lastPut_concat, toOption_opened, put, ExtTreeMap.getElem?_insert]
    by_cases hslot : storageKey journal.key = storageKey k
    · by_cases hk : journal.key = k
      · simp [hk]
      · -- the slot goes to another tenant, and no journal of this key was in it
        have htenant : journal.key.tenantId ≠ k.tenantId := fun ht =>
          hk (JournalKey.eq_of_storageKey hplainJournal ht hslot)
        have hnone : lastPut puts k = none := lastPut_eq_none.mpr fun j hj he =>
          hk (JournalKey.storageKey_inj hplainJournal (he ▸ hbefore j hj) hslot)
        simp [hslot, htenant, hk, hnone]
    · have hk : journal.key ≠ k := fun he => hslot (congrArg storageKey he)
      rw [if_neg (by simpa using hslot), if_neg hk, ← toOption_opened]
      exact ih hbefore

theorem plain_of_exact (hexact : ∀ k : JournalKey,
      ((ofPuts puts).opened k.tenantId k.workspaceId k.intentId).toOption = lastPut puts k)
    (hput : journal ∈ puts) : journal.key.Plain := by
  by_contra hcolon
  obtain ⟨l, hne, htenant, hslot⟩ := JournalKey.exists_other_of_not_plain hcolon
  cases hlast : lastPut puts journal.key with
  | none => exact lastPut_eq_none.mp hlast journal hput rfl
  | some found =>
    -- the journal found under the put key is found under the other one as well
    have hopened := hexact journal.key
    have hother := hexact l
    rw [toOption_opened, hlast] at hopened
    rw [toOption_opened, ← hslot, ← htenant, hopened] at hother
    exact hne ((mem_of_lastPut hother.symm).2.symm.trans (mem_of_lastPut hlast).2)

end JournalStore

theorem ctxResume_eq_ok {store : JournalStore} {tenantId workspaceId intentId : String} {nowMs : Nat}
    {context : ReconstructedContext} (h : ctxResume store tenantId workspaceId intentId nowMs = .ok context) :
    ∃ journal, (store.opened tenantId workspaceId intentId).toOption = some journal ∧
      (⟨context.tenantId, context.workspaceId, context.intentId⟩ : JournalKey) = journal.key ∧
      context.entries = journal.entries := by
  rw [ctxResume] at h
  split at h
  · cases h
  · next journal hopened => exact ⟨journal, by rw [hopened]; rfl, ctxResumeFromJournal_eq_ok h⟩

/-- The store opens the last journal put under the asked key and no other, and only
sessions of the asked key are resumed, exactly when no workspace or intent id of a
stored journal has a colon. -/
theorem journals_addressed_exactly_iff (puts : List Journal) :
    (∀ tenantId workspaceId intentId : String,
      ((JournalStore.ofPuts puts).opened tenantId workspaceId intentId).toOption =
          JournalStore.lastPut puts ⟨tenantId, workspaceId, intentId⟩ ∧
        ∀ nowMs context, ctxResume (.ofPuts puts) tenantId workspaceId intentId nowMs = .ok context →
          ∃ journal ∈ puts, journal.key = ⟨tenantId, workspaceId, intentId⟩ ∧
            journal.key = ⟨context.tenantId, context.workspaceId, context.intentId⟩ ∧
            context.entries = journal.entries) ↔
      ∀ journal ∈ puts, ':' ∉ journal.key.workspaceId.toList ∧ ':' ∉ journal.key.intentId.toList := by
  constructor
  · intro h journal hput
    exact JournalStore.plain_of_exact (fun k => (h k.tenantId k.workspaceId k.intentId).1) hput
  · intro hplain tenantId workspaceId intentId
    have hexact := JournalStore.toOption_opened_ofPuts hplain ⟨tenantId, workspaceId, intentId⟩
    refine ⟨hexact, fun nowMs context hresumed => ?_⟩
    obtain ⟨journal, hopened, hkey, hentries⟩ := ctxResume_eq_ok hresumed
    obtain ⟨hput, hasked⟩ := JournalStore.mem_of_lastPut (hexact.symm.trans hopened)
    exact ⟨journal, hput, hasked, hkey.symm, hentries⟩

def colonJournal : Journal where
  key := ⟨"acme", "ws:1", "fix"⟩
  entries := [⟨1, 5, "agent", "started"⟩]

/-- The session of one intent is resumed from the journal of another. -/
theorem resumed_from_other_intent : JournalStore.lastPut [colonJournal] ⟨"acme", "ws", "1:fix"⟩ = none ∧
    (JournalStore.ofPuts [colonJournal]).opened "acme" "ws" "1:fix" = .ok colonJournal ∧
    ctxResume (.ofPuts [colonJournal]) "acme" "ws" "1:fix" 6 =
      .ok ⟨"acme", "ws:1", "fix", colonJournal.entries, 5, defaultHorizonMs⟩ := by
  decide +kernel

end Hugit.Session

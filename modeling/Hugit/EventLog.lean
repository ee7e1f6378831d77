import Hugit.EventRecord

/-! The append-only event log. Its one primitive appends a record chained to
the hash of its predecessor. -/

namespace Hugit

structure EventLog where
  records : List EventRecord
  deriving DecidableEq

def headHash (records : List EventRecord) : String :=
  (records.getLast?.map EventRecord.thisHash).getD genesisPrevHash

@[simp] theorem headHash_concat (records : List EventRecord) (r : EventRecord) :
    headHash (records ++ [r]) = r.thisHash := by
  simp [headHash]

def GapFree (records : List EventRecord) : Prop :=
  ∀ (i : Nat) (r : EventRecord), records[i]? = some r → r.seq = i

theorem GapFree.take {records : List EventRecord} (h : GapFree records) (n : Nat) :
    GapFree (records.take n) := by
  intro i r hi
  rw [List.getElem?_take] at hi
  split_ifs at hi
  exact h i r hi

theorem GapFree.concat {records : List EventRecord} (h : GapFree records) {r : EventRecord}
    (hr : r.seq = records.length) : GapFree (records ++ [r]) := by
  intro i x hi
  rcases Nat.lt_or_ge i records.length with hlt | hge
  · exact h i x (by rwa [List.getElem?_append_left hlt] at hi)
  · have hl := (List.getElem?_eq_some_iff.mp hi).1
    rw [List.length_append, List.length_singleton] at hl
    obtain rfl : i = records.length := by omega
    obtain rfl : r = x := by simpa using hi
    exact hr

namespace EventLog

def empty : EventLog := ⟨[]⟩

def len (log : EventLog) : Nat :=
  log.records.length

def nextRecord (c : Crates) (records : List EventRecord) (kind : String)
    (principalChain : List String) (payload : String) (recordedAt : Nat) : EventRecord :=
  { seq := records.length
    prevHash := headHash records
    thisHash := computeThisHash c (headHash records) kind principalChain payload records.length
    kind := kind
    principalChain := principalChain
    payload := payload
    recordedAt := recordedAt }

def append (c : Crates) (log : EventLog) (kind : String) (principalChain : List String)
    (payload : String) (recordedAt : Nat) : EventRecord × EventLog :=
  let record := nextRecord c log.records kind principalChain payload recordedAt
  (record, ⟨log.records ++ [record]⟩)

inductive Extended (c : Crates) (log : EventLog) : EventLog → Prop
  | same : Extended c log log
  | appended (kind : String) (principalChain : List String) (payload : String) (recordedAt : Nat) :
      Extended c log (log.append c kind principalChain payload recordedAt).2

@[simp] theorem append_fst (c : Crates) (log : EventLog) (kind : String)
    (principalChain : List String) (payload : String) (recordedAt : Nat) :
    (append c log kind principalChain payload recordedAt).1 =
      nextRecord c log.records kind principalChain payload recordedAt := rfl

@[simp] theorem append_snd_records (c : Crates) (log : EventLog) (kind : String)
    (principalChain : List String) (payload : String) (recordedAt : Nat) :
    (append c log kind principalChain payload recordedAt).2.records =
      log.records ++ [nextRecord c log.records kind principalChain payload recordedAt] := rfl

end EventLog

inductive ExternalChangeKind where
  | refUpdate
  | refDelete
  deriving DecidableEq

def ExternalChangeKind.asKind : ExternalChangeKind → String
  | refUpdate => "ref.update"
  | refDelete => "ref.delete"

namespace EventLog

def appendExternalChange (c : Crates) (log : EventLog) (kind : ExternalChangeKind)
    (principalChain : List String) (payload : String) (recordedAt : Nat) :
    EventRecord × EventLog :=
  log.append c kind.asKind principalChain payload recordedAt

end EventLog

end Hugit

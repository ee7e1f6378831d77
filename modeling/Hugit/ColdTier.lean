import Hugit.EventLog
import Hugit.Text

/-! The cold tier: sealed runs of records under keys that sort by the interval
they cover. -/

namespace Hugit

open Std

structure ColdRange where
  startSeq : Nat
  endSeq : Nat
  records : List EventRecord
  deriving DecidableEq

namespace ColdRange

/-- Sequence numbers are 64-bit, and so is the end of the interval. -/
def fromRecords (records : List EventRecord) : ColdRange :=
  let startSeq := (records.head?.map EventRecord.seq).getD 0
  { startSeq
    endSeq := (records.getLast?.map fun r => (r.seq + 1) % 2 ^ 64).getD startSeq
    records }

def keyRoot : String := "coldrange/"

def keyText (startSeq endSeq : Nat) (head : String) : String :=
  String.ofList (keyRoot.toList ++ zeroPadded 20 startSeq ++ ['-'] ++ zeroPadded 20 endSeq ++
    ['/'] ++ head.toList)

def key (range : ColdRange) : String :=
  keyText range.startSeq range.endSeq
    ((range.records.getLast?.map EventRecord.thisHash).getD "genesis")

end ColdRange

class ColdStore (S : Type) where
  put : S → ColdRange → S
  get : S → String → Option ColdRange
  list : S → List String

structure InMemoryColdStore where
  objects : ExtTreeMap String ColdRange

instance : ColdStore InMemoryColdStore where
  put cold range := ⟨cold.objects.insert range.key range⟩
  get cold key := cold.objects[key]?
  list cold := cold.objects.keys

def InMemoryColdStore.new : InMemoryColdStore := ⟨∅⟩

@[simp] theorem ColdRange.fromRecords_records (records : List EventRecord) :
    (fromRecords records).records = records := rfl

theorem ColdRange.fromRecords_bounds {records : List EventRecord} (hne : records ≠ [])
    (hg : GapFree records) (hl : records.length < 2 ^ 64) :
    (fromRecords records).startSeq = 0 ∧ (fromRecords records).endSeq = records.length := by
  obtain ⟨init, last, rfl⟩ := (records.eq_nil_or_concat').resolve_left hne
  have hlast : last.seq = init.length := hg init.length last (by simp)
  constructor
  · cases init with
    | nil => simpa [fromRecords] using hlast
    | cons first init =>
      have hfirst : first.seq = 0 := hg 0 first rfl
      simp [fromRecords, hfirst]
  · simp only [List.length_append, List.length_singleton] at hl
    simp only [fromRecords, List.getLast?_append, List.getLast?_singleton, Option.some_or, Option.map_some,
      Option.getD_some, hlast, List.length_append, List.length_singleton]
    exact Nat.mod_eq_of_lt hl

theorem ColdRange.keyText_lt {startSeq m n : Nat} (h : m < n) (hn : n < 2 ^ 64) (head head' : String) :
    keyText startSeq m head < keyText startSeq n head' := by
  have hpad : zeroPadded 20 m < zeroPadded 20 n := zeroPadded_lt h (hn.trans (by norm_num))
  rw [String.lt_iff]
  simp only [keyText, String.toList_ofList, List.append_assoc]
  refine List.append_left_lt (List.append_left_lt (List.append_left_lt ?_))
  exact append_lt_append_of_length_eq hpad (by simp) _ _

theorem ColdRange.key_lt_key {xs ys : List EventRecord} (hx : xs ≠ []) (hgx : GapFree xs)
    (hgy : GapFree ys) (hlt : xs.length < ys.length) (hl : ys.length < 2 ^ 64) :
    (fromRecords xs).key < (fromRecords ys).key := by
  have hy : ys ≠ [] := by
    rintro rfl
    simp at hlt
  obtain ⟨hsx, hex⟩ := fromRecords_bounds hx hgx (hlt.trans hl)
  obtain ⟨hsy, hey⟩ := fromRecords_bounds hy hgy hl
  rw [key, key, hsx, hsy, hex, hey]
  exact keyText_lt hlt hl _ _

theorem ColdRange.key_congr {xs ys : List EventRecord} (hx : xs ≠ []) (hgx : GapFree xs)
    (hgy : GapFree ys) (hl : ys.length < 2 ^ 64)
    (hh : xs.map EventRecord.thisHash = ys.map EventRecord.thisHash) :
    (fromRecords xs).key = (fromRecords ys).key := by
  have hlen : xs.length = ys.length := by simpa using congrArg List.length hh
  have hy : ys ≠ [] := by
    rintro rfl
    exact hx (List.length_eq_zero_iff.mp hlen)
  obtain ⟨hsx, hex⟩ := fromRecords_bounds hx hgx (hlen ▸ hl)
  obtain ⟨hsy, hey⟩ := fromRecords_bounds hy hgy hl
  have hlast : xs.getLast?.map EventRecord.thisHash = ys.getLast?.map EventRecord.thisHash := by
    rw [← List.getLast?_map, ← List.getLast?_map, hh]
  rw [key, key, hsx, hsy, hex, hey, hlen, fromRecords_records, fromRecords_records, hlast]

end Hugit

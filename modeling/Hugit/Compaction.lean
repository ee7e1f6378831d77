import Hugit.ColdTier
import Hugit.Tamper

/-! Compaction: a verified prefix of the log moves to the cold tier and the most
recent records stay hot. -/

namespace Hugit

structure HotRemainder where
  records : List EventRecord
  deriving DecidableEq

structure CompactionReport where
  sealedStartSeq : Nat
  sealedEndSeq : Nat
  sealedCount : Nat
  hot : HotRemainder
  deriving DecidableEq

inductive CompactionError where
  | tamper (e : TamperError)
  deriving DecidableEq

/-- A pass that seals nothing reports the empty interval at the tail of the log. -/
def compact {S : Type} [ColdStore S] (c : Crates) (log : EventLog) (hotBound : Nat) (cold : S) :
    Except CompactionError CompactionReport × S :=
  match verifyChain c log.records with
  | .error e => (.error (.tamper e), cold)
  | .ok () =>
    let total := log.len
    if total ≤ hotBound then (.ok ⟨total, total, 0, ⟨log.records⟩⟩, cold)
    else
      let sealCount := total - hotBound
      let range := ColdRange.fromRecords (log.records.take sealCount)
      (.ok ⟨range.startSeq, range.endSeq, sealCount, ⟨log.records.drop sealCount⟩⟩,
        ColdStore.put cold range)

theorem compact_eq_ok {S : Type} [ColdStore S] {c : Crates} {log : EventLog} {hotBound : Nat}
    {cold cold' : S} {report : CompactionReport}
    (h : compact c log hotBound cold = (.ok report, cold')) :
    verifyChain c log.records = .ok () ∧
      report.hot.records = log.records.drop (log.len - hotBound) ∧
      cold' = if log.len - hotBound = 0 then cold
        else ColdStore.put cold (.fromRecords (log.records.take (log.len - hotBound))) := by
  unfold compact at h
  cases hv : verifyChain c log.records with
  | error e => simp [hv] at h
  | ok u =>
    simp only [hv] at h
    split_ifs at h with hb
    · obtain ⟨hr, rfl⟩ := Prod.mk.inj h
      obtain rfl := Except.ok.inj hr
      have hz : log.len - hotBound = 0 := by omega
      simp [hz]
    · obtain ⟨hr, rfl⟩ := Prod.mk.inj h
      obtain rfl := Except.ok.inj hr
      have hz : log.len - hotBound ≠ 0 := by omega
      simp [hz]

end Hugit

import Hugit.Framing

/-! Little-endian base-128 numbers: seven bits a byte, the last byte below 128. -/

namespace Hugit

/-- The number at the front of the bytes and how many of them it takes. -/
def base128 : Bytes → Option (Nat × Nat)
  | [] => none
  | b :: rest =>
    if b.toNat < 128 then some (b.toNat, 1)
    else (base128 rest).map fun r => (b.toNat - 128 + 128 * r.1, r.2 + 1)

theorem base128_last {b : UInt8} (h : b.toNat < 128) (rest : Bytes) :
    base128 (b :: rest) = some (b.toNat, 1) := if_pos h

theorem base128_more {b : UInt8} (h : 128 ≤ b.toNat) (rest : Bytes) :
    base128 (b :: rest) = (base128 rest).map fun r => (b.toNat - 128 + 128 * r.1, r.2 + 1) :=
  if_neg (Nat.not_lt.mpr h)

theorem base128_length_pos {bytes : Bytes} {v n : Nat} (h : base128 bytes = some (v, n)) : 0 < n := by
  cases bytes with
  | nil => cases h
  | cons b rest =>
    by_cases hb : b.toNat < 128
    · rw [base128_last hb, Option.some.injEq, Prod.mk.injEq] at h
      omega
    · rw [base128_more (Nat.not_lt.mp hb)] at h
      obtain ⟨r, -, heq⟩ := Option.map_eq_some_iff.mp h
      obtain ⟨-, rfl⟩ := Prod.mk.inj heq
      omega

theorem base128_top {bytes : Bytes} {v n : Nat} (h : base128 bytes = some (v, n)) :
    ∃ b, bytes[n - 1]? = some b ∧ b.toNat < 128 ∧ (∀ c ∈ bytes.take (n - 1), 128 ≤ c.toNat) ∧
      b.toNat * 128 ^ (n - 1) ≤ v ∧ v < (b.toNat + 1) * 128 ^ (n - 1) := by
  induction bytes generalizing v n with
  | nil => cases h
  | cons c rest ih =>
    by_cases hc : c.toNat < 128
    · rw [base128_last hc, Option.some.injEq, Prod.mk.injEq] at h
      obtain ⟨rfl, rfl⟩ := h
      exact ⟨c, rfl, hc, by simp, by simp, by simp⟩
    · rw [base128_more (Nat.not_lt.mp hc)] at h
      obtain ⟨⟨w, k⟩, hr, heq⟩ := Option.map_eq_some_iff.mp h
      obtain ⟨rfl, rfl⟩ := Prod.mk.inj heq
      obtain ⟨b, hb, hlast, hmore, hlow, hhigh⟩ := ih hr
      obtain ⟨k, rfl⟩ := Nat.exists_eq_succ_of_ne_zero (base128_length_pos hr).ne'
      have hbyte := c.toNat_lt
      simp only [Nat.succ_eq_add_one, Nat.add_sub_cancel] at hb hmore hlow hhigh ⊢
      refine ⟨b, hb, hlast, ?_, ?_, ?_⟩
      · rw [List.take_succ_cons]
        exact List.forall_mem_cons.mpr ⟨Nat.not_lt.mp hc, hmore⟩
      · rw [Nat.pow_succ, ← Nat.mul_assoc]
        omega
      · rw [Nat.pow_succ, ← Nat.mul_assoc]
        omega

theorem base128_of_top {bytes : Bytes} {k : Nat} {b : UInt8} (hb : bytes[k]? = some b) (hlast : b.toNat < 128)
    (hmore : ∀ c ∈ bytes.take k, 128 ≤ c.toNat) : ∃ v, base128 bytes = some (v, k + 1) := by
  induction k generalizing bytes with
  | zero =>
    cases bytes with
    | nil => cases hb
    | cons c rest =>
      obtain rfl : c = b := by simpa using hb
      exact ⟨_, base128_last hlast rest⟩
  | succ k ih =>
    cases bytes with
    | nil => cases hb
    | cons c rest =>
      rw [List.take_succ_cons] at hmore
      obtain ⟨hc, hrest⟩ := List.forall_mem_cons.mp hmore
      obtain ⟨v, hv⟩ := ih (by simpa using hb) hrest
      exact ⟨_, by rw [base128_more hc, hv]; rfl⟩

end Hugit

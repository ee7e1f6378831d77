import Hugit.Base128
import Hugit.PackDelta

/-! The sizes in a delta's header. The accumulator is one 64-bit word, and of a
tenth byte only the lowest bit still fits into it. -/

namespace Hugit

theorem and_continuation {n : Nat} (h : n < 256) : n &&& 0x80 = 0 ↔ n < 128 := by
  have hall : ∀ n < 256, n &&& 0x80 = 0 ↔ n < 128 := by decide +kernel
  exact hall n h

theorem and_payload (n : Nat) : n &&& 0x7f = n % 128 :=
  Nat.and_two_pow_sub_one_eq_mod n 7

theorem or_shifted {size shift : Nat} (hs : size < 2 ^ shift) (hshift : shift ≤ 64) (x : Nat) :
    size ||| (x <<< shift) % 2 ^ 64 = (size + x * 2 ^ shift) % 2 ^ 64 := by
  have hpow : 2 ^ 64 = 2 ^ shift * 2 ^ (64 - shift) := by rw [← Nat.pow_add, Nat.add_sub_cancel' hshift]
  have hlow : (x <<< shift) % 2 ^ 64 = 2 ^ shift * (x % 2 ^ (64 - shift)) := by
    rw [Nat.shiftLeft_eq, Nat.mul_comm, hpow, Nat.mul_mod_mul_left]
  have hfit : 2 ^ shift * (x % 2 ^ (64 - shift)) + size < 2 ^ 64 := by
    have hx : x % 2 ^ (64 - shift) + 1 ≤ 2 ^ (64 - shift) := Nat.mod_lt _ (Nat.two_pow_pos _)
    have hmul := Nat.mul_le_mul_left (2 ^ shift) hx
    rw [← hpow, Nat.mul_add] at hmul
    omega
  rw [hlow, Nat.or_comm, ← Nat.two_pow_add_eq_or_of_lt hs, ← Nat.mod_eq_of_lt hfit, ← hlow, Nat.shiftLeft_eq,
    Nat.mod_add_mod, Nat.add_comm]

theorem readDeltaSize_eq_ok {bytes : Bytes} {size k consumed r c : Nat} (hk : k ≤ 9)
    (hs : size < 2 ^ (7 * k)) :
    readDeltaSize bytes size (7 * k) consumed = .ok (r, c) ↔
      ∃ v n, base128 bytes = some (v, n) ∧ k + n ≤ 10 ∧ r = (size + v * 2 ^ (7 * k)) % 2 ^ 64 ∧
        c = consumed + n := by
  induction bytes generalizing size k consumed with
  | nil => simp [readDeltaSize, base128]
  | cons b rest ih =>
    have hbyte := b.toNat_lt
    rw [readDeltaSize, and_payload, or_shifted hs (by omega)]
    by_cases hb : b.toNat < 128
    · rw [if_pos ((and_continuation hbyte).mpr hb), base128_last hb, Nat.mod_eq_of_lt hb]
      simp only [Except.ok.injEq, Prod.mk.injEq, Option.some.injEq]
      constructor
      · rintro ⟨rfl, rfl⟩
        exact ⟨_, _, ⟨rfl, rfl⟩, by omega, rfl, rfl⟩
      · rintro ⟨v, n, ⟨rfl, rfl⟩, -, rfl, rfl⟩
        exact ⟨rfl, rfl⟩
    · have hpay : b.toNat % 128 = b.toNat - 128 := by omega
      rw [if_neg fun hz => hb ((and_continuation hbyte).mp hz), base128_more (Nat.not_lt.mp hb), hpay]
      by_cases hlast : 64 ≤ 7 * k + 7
      · -- the word is full: nothing that goes on here is accepted
        rw [if_pos hlast]
        constructor
        · intro h
          cases h
        · rintro ⟨v, n, hv, hn, -⟩
          obtain ⟨⟨w, m⟩, hw, heq⟩ := Option.map_eq_some_iff.mp hv
          obtain ⟨-, rfl⟩ := Prod.mk.inj heq
          have hpos := base128_length_pos hw
          dsimp only at hn
          omega
      · have hnext : size + (b.toNat - 128) * 2 ^ (7 * k) < 2 ^ (7 * (k + 1)) := by
          have hle := Nat.mul_le_mul_right (2 ^ (7 * k)) (show b.toNat - 128 + 1 ≤ 128 by omega)
          rw [Nat.mul_add, Nat.pow_add]
          rw [Nat.add_mul] at hle
          omega
        have hword : 2 ^ (7 * (k + 1)) ≤ 2 ^ 64 := Nat.pow_le_pow_right (by omega) (by omega)
        rw [if_neg hlast, Nat.mod_eq_of_lt (Nat.lt_of_lt_of_le hnext hword), show 7 * k + 7 = 7 * (k + 1) by omega,
          ih (by omega) hnext]
        have hval (w : Nat) : size + (b.toNat - 128) * 2 ^ (7 * k) + w * 2 ^ (7 * (k + 1)) =
            size + (b.toNat - 128 + 128 * w) * 2 ^ (7 * k) := by
          rw [Nat.mul_add 7 k 1, Nat.pow_add]
          ring
        constructor
        · rintro ⟨w, m, hw, hm, rfl, rfl⟩
          exact ⟨_, _, by rw [hw]; rfl, by omega, by rw [hval], by omega⟩
        · rintro ⟨v, n, hv, hn, rfl, rfl⟩
          obtain ⟨⟨w, m⟩, hw, heq⟩ := Option.map_eq_some_iff.mp hv
          obtain ⟨rfl, rfl⟩ := Prod.mk.inj heq
          exact ⟨w, m, hw, by omega, by rw [hval], by omega⟩

theorem decodeDeltaSize_eq_ok {d : Bytes} {start r c : Nat} :
    decodeDeltaSize d start = .ok (r, c) ↔
      ∃ v, base128 (d.drop start) = some (v, c) ∧ c ≤ 10 ∧ r = v % 2 ^ 64 := by
  have h : readDeltaSize (d.drop start) 0 (7 * 0) 0 = .ok (r, c) ↔ _ :=
    readDeltaSize_eq_ok (Nat.zero_le 9) Nat.one_pos
  rw [decodeDeltaSize, ← Nat.mul_zero 7, h]
  constructor
  · rintro ⟨v, n, hv, hn, rfl, rfl⟩
    exact ⟨v, by simpa using hv, by omega, by simp⟩
  · rintro ⟨v, hv, hn, rfl⟩
    exact ⟨v, c, hv, by omega, by simp, by omega⟩

/-- A number of ten bytes ends in 0 or 1. -/
def TenthByteFits (bytes : Bytes) : Prop :=
  ∀ b, bytes[9]? = some b → b.toNat < 128 → (∀ c ∈ bytes.take 9, 128 ≤ c.toNat) → b.toNat ≤ 1

instance (bytes : Bytes) : Decidable (TenthByteFits bytes) :=
  match h : bytes[9]? with
  | none => isTrue fun b hb => by simp [h] at hb
  | some b => decidable_of_iff (b.toNat < 128 → ((bytes.take 9).all fun c => 128 ≤ c.toNat) = true → b.toNat ≤ 1) (by
      unfold TenthByteFits
      simp [h])

theorem base128_lt_of_tenthByteFits {bytes : Bytes} (h : TenthByteFits bytes) {v n : Nat}
    (hv : base128 bytes = some (v, n)) (hn : n ≤ 10) : v < 2 ^ 64 := by
  obtain ⟨b, hb, hlast, hmore, -, hhigh⟩ := base128_top hv
  refine Nat.lt_of_lt_of_le hhigh ?_
  by_cases hten : n = 10
  · subst hten
    have hfit := h b hb hlast hmore
    calc (b.toNat + 1) * 128 ^ 9 ≤ 2 * 128 ^ 9 := Nat.mul_le_mul_right _ (by omega)
      _ = 2 ^ 64 := by norm_num
  · calc (b.toNat + 1) * 128 ^ (n - 1) ≤ 128 * 128 ^ 8 :=
          Nat.mul_le_mul (by omega) (Nat.pow_le_pow_right (by omega) (by omega))
      _ ≤ 2 ^ 64 := by norm_num

def DecodesExactly (d : Bytes) (start : Nat) : Prop :=
  ∀ size consumed, decodeDeltaSize d start = .ok (size, consumed) →
    base128 (d.drop start) = some (size, consumed) ∧ size < 2 ^ 64

/-- The sizes are exact except for ten-byte numbers with a tenth byte above 1,
which are accepted without their top bits. -/
theorem decodesExactly_iff (d : Bytes) (start : Nat) :
    DecodesExactly d start ↔ TenthByteFits (d.drop start) := by
  constructor
  · intro h b hb hlast hmore
    obtain ⟨v, hv⟩ := base128_of_top hb hlast hmore
    obtain ⟨hexact, hlt⟩ := h (v % 2 ^ 64) 10 (decodeDeltaSize_eq_ok.mpr ⟨v, hv, Nat.le_refl _, rfl⟩)
    rw [hv, Option.some.injEq, Prod.mk.injEq] at hexact
    obtain ⟨b', hb', -, -, hlow, -⟩ := base128_top hv
    obtain rfl : b = b' := Option.some.inj (hb.symm.trans hb')
    have hbound : b.toNat * 128 ^ 9 < 2 ^ 64 := by
      rw [← hexact.1] at hlt
      exact Nat.lt_of_le_of_lt hlow hlt
    norm_num at hbound
    omega
  · intro h size consumed hok
    obtain ⟨v, hv, hc, rfl⟩ := decodeDeltaSize_eq_ok.mp hok
    rw [Nat.mod_eq_of_lt (base128_lt_of_tenthByteFits h hv hc)]
    exact ⟨hv, base128_lt_of_tenthByteFits h hv hc⟩

/-- The largest 64-bit number takes all ten bytes. -/
theorem largest_size_exact :
    DecodesExactly [255, 255, 255, 255, 255, 255, 255, 255, 255, 1] 0 ∧
      decodeDeltaSize [255, 255, 255, 255, 255, 255, 255, 255, 255, 1] 0 = .ok (2 ^ 64 - 1, 10) :=
  ⟨(decodesExactly_iff _ 0).mpr (by decide +kernel), by decide +kernel⟩

/-- Nine bytes that go on and a tenth one of 2 are the number 2 ^ 64. -/
theorem overlong_size_accepted :
    base128 [128, 128, 128, 128, 128, 128, 128, 128, 128, 2] = some (2 ^ 64, 10) ∧
      decodeDeltaSize [128, 128, 128, 128, 128, 128, 128, 128, 128, 2] 0 = .ok (0, 10) ∧
      ¬ DecodesExactly [128, 128, 128, 128, 128, 128, 128, 128, 128, 2] 0 := by
  have hvalue : base128 [128, 128, 128, 128, 128, 128, 128, 128, 128, 2] = some (2 ^ 64, 10) := by
    decide +kernel
  have hok : decodeDeltaSize [128, 128, 128, 128, 128, 128, 128, 128, 128, 2] 0 = .ok (0, 10) := by
    decide +kernel
  refine ⟨hvalue, hok, fun h => ?_⟩
  have hexact := (h 0 10 hok).1
  rw [List.drop_zero, hvalue] at hexact
  cases hexact

end Hugit

import Mathlib.Data.List.Basic
import Mathlib.Tactic

/-! Byte framing: fixed-width big-endian integers, length-prefixed fields and
counted sequences of fields. Concatenations of frames are read back uniquely
as long as every length fits in its four-byte prefix. -/

namespace Hugit

abbrev Bytes := List UInt8

def saturatingAdd (m n : Nat) : Nat :=
  min (m + n) (2 ^ 64 - 1)

def beBytes : Nat → Nat → Bytes
  | 0, _ => []
  | width + 1, n => beBytes width (n / 256) ++ [UInt8.ofNat n]

@[simp] theorem beBytes_length (width n : Nat) : (beBytes width n).length = width := by
  induction width generalizing n with
  | zero => rfl
  | succ width ih => simp [beBytes, ih]

theorem beBytes_inj {width m n : Nat} (hm : m < 256 ^ width) (hn : n < 256 ^ width)
    (h : beBytes width m = beBytes width n) : m = n := by
  induction width generalizing m n with
  | zero => simp at hm hn; omega
  | succ width ih =>
    simp only [beBytes] at h
    obtain ⟨hhi, hlo⟩ := List.append_inj h (by simp)
    rw [pow_succ] at hm hn
    have he := ih (by omega) (by omega) hhi
    have hmod := congrArg UInt8.toNat (List.cons.inj hlo).1
    simp only [UInt8.toNat_ofNat'] at hmod
    omega

def utf8 (s : String) : Bytes :=
  s.toByteArray.data.toList

theorem utf8_append (s t : String) : utf8 (s ++ t) = utf8 s ++ utf8 t := by
  simp [utf8]

theorem utf8_injective : Function.Injective utf8 := by
  intro s t h
  exact String.toByteArray_inj.mp (ByteArray.ext (Array.ext' h))

theorem utf8_ofList (cs : List Char) : utf8 (String.ofList cs) = cs.flatMap String.utf8EncodeChar := by
  rw [utf8, String.toByteArray_ofList, List.utf8Encode]
  simp

def readUtf8 (bytes : Bytes) : Option String :=
  String.fromUTF8? ⟨bytes.toArray⟩

theorem readUtf8_utf8 (s : String) : readUtf8 (utf8 s) = some s := by
  have hb : (⟨(utf8 s).toArray⟩ : ByteArray) = s.toByteArray := by simp [utf8]
  rw [readUtf8, hb, String.fromUTF8?, dif_pos s.isValidUTF8]
  rfl

theorem utf8_of_readUtf8 {bytes : Bytes} {s : String} (h : readUtf8 bytes = some s) : utf8 s = bytes := by
  rw [readUtf8, String.fromUTF8?] at h
  split at h
  · obtain rfl := Option.some.inj h
    rfl
  · cases h

/-- A field behind a four-byte length prefix. The prefix keeps only the low 32
bits of the length. -/
def frame (field : Bytes) : Bytes :=
  beBytes 4 field.length ++ field

def frames (fields : List Bytes) : Bytes :=
  beBytes 4 fields.length ++ fields.flatMap frame

theorem beBytes_append_inj {width m n : Nat} {r s : Bytes}
    (hm : m < 256 ^ width) (hn : n < 256 ^ width)
    (h : beBytes width m ++ r = beBytes width n ++ s) : m = n ∧ r = s := by
  obtain ⟨hb, hr⟩ := List.append_inj h (by simp)
  exact ⟨beBytes_inj hm hn hb, hr⟩

theorem frame_append_inj {a b r s : Bytes} (ha : a.length < 2 ^ 32) (hb : b.length < 2 ^ 32)
    (h : frame a ++ r = frame b ++ s) : a = b ∧ r = s := by
  simp only [frame, List.append_assoc] at h
  obtain ⟨hl, hr⟩ := beBytes_append_inj (by simpa using ha) (by simpa using hb) h
  exact List.append_inj hr hl

theorem flatMap_append_inj {α : Type*} {code : α → Bytes} {as bs : List α} {r s : Bytes}
    (hitem : ∀ a ∈ as, ∀ b ∈ bs, ∀ r s : Bytes, code a ++ r = code b ++ s → a = b ∧ r = s)
    (hlen : as.length = bs.length) (h : as.flatMap code ++ r = bs.flatMap code ++ s) : as = bs ∧ r = s := by
  induction as generalizing bs with
  | nil =>
    obtain rfl : bs = [] := List.length_eq_zero_iff.mp hlen.symm
    exact ⟨rfl, by simpa using h⟩
  | cons a as ih =>
    cases bs with
    | nil => simp at hlen
    | cons b bs =>
      simp only [List.flatMap_cons, List.append_assoc] at h
      obtain ⟨rfl, hr⟩ := hitem a (by simp) b (by simp) _ _ h
      obtain ⟨rfl, hs⟩ := ih (fun x hx y hy => hitem x (by simp [hx]) y (by simp [hy])) (by simpa using hlen) hr
      exact ⟨rfl, hs⟩

theorem frames_append_inj {as bs : List Bytes} {r s : Bytes}
    (hna : as.length < 2 ^ 32) (hnb : bs.length < 2 ^ 32)
    (ha : ∀ a ∈ as, a.length < 2 ^ 32) (hb : ∀ b ∈ bs, b.length < 2 ^ 32)
    (h : frames as ++ r = frames bs ++ s) : as = bs ∧ r = s := by
  simp only [frames, List.append_assoc] at h
  obtain ⟨hl, hr⟩ := beBytes_append_inj (by simpa using hna) (by simpa using hnb) h
  exact flatMap_append_inj (fun a hm b hn _ _ => frame_append_inj (ha a hm) (hb b hn)) hl hr

def hexDigit (n : Nat) : Char :=
  ['0', '1', '2', '3', '4', '5', '6', '7', '8', '9', 'a', 'b', 'c', 'd', 'e', 'f'].getD n '0'

theorem hexDigit_inj : ∀ m < 16, ∀ n < 16, hexDigit m = hexDigit n → m = n := by decide

def hexEncode (bytes : Bytes) : String :=
  String.ofList (bytes.flatMap fun b => [hexDigit (b.toNat / 16), hexDigit (b.toNat % 16)])

theorem hexEncode_injective : Function.Injective hexEncode := by
  intro as bs h
  have hl := String.ofList_inj.mp h
  clear h
  induction as generalizing bs with
  | nil => cases bs with
    | nil => rfl
    | cons b bs => simp at hl
  | cons a as ih => cases bs with
    | nil => simp at hl
    | cons b bs =>
      simp only [List.flatMap_cons, List.cons_append, List.nil_append, List.cons.injEq] at hl
      have ha := a.toNat_lt
      have hb := b.toNat_lt
      have hhi := hexDigit_inj _ (by omega) _ (by omega) hl.1
      have hlo := hexDigit_inj _ (by omega) _ (by omega) hl.2.1
      have hab : a = b := UInt8.toNat_inj.mp (by omega)
      rw [hab, ih hl.2.2]

theorem hexEncode_length (bytes : Bytes) : (hexEncode bytes).length = 2 * bytes.length := by
  rw [hexEncode, ← String.length_toList, String.toList_ofList]
  induction bytes with
  | nil => rfl
  | cons b bytes ih =>
    simp only [List.flatMap_cons, List.length_append, List.length_cons, List.length_nil, ih]
    omega

theorem mem_hexEncode {bytes : Bytes} {c : Char} (h : c ∈ (hexEncode bytes).toList) : ∃ n < 16, c = hexDigit n := by
  rw [hexEncode, String.toList_ofList] at h
  obtain ⟨b, -, hb⟩ := List.mem_flatMap.mp h
  have hlt := b.toNat_lt
  rcases List.mem_cons.mp hb with rfl | hb
  · exact ⟨_, by omega, rfl⟩
  · obtain rfl := List.mem_singleton.mp hb
    exact ⟨_, by omega, rfl⟩

end Hugit

import Hugit.Framing

/-! UTF-8 as a code of characters by bytes, and how long it is. -/

namespace Hugit

def utf8List (cs : List Char) : Bytes :=
  cs.flatMap String.utf8EncodeChar

@[simp] theorem utf8List_nil : utf8List [] = [] := rfl

@[simp] theorem utf8List_cons (ch : Char) (cs : List Char) :
    utf8List (ch :: cs) = String.utf8EncodeChar ch ++ utf8List cs := rfl

@[simp] theorem utf8List_append (cs ds : List Char) : utf8List (cs ++ ds) = utf8List cs ++ utf8List ds :=
  List.flatMap_append

variable {ch : Char} {cs : List Char}

theorem length_utf8List_le (cs : List Char) : cs.length ≤ (utf8List cs).length := by
  induction cs with
  | nil => exact Nat.le_refl 0
  | cons ch cs ih =>
    rw [utf8List_cons, List.length_append, String.length_utf8EncodeChar, List.length_cons]
    have hpos := ch.utf8Size_pos
    omega

theorem length_utf8List_eq_iff : (utf8List cs).length = cs.length ↔ ∀ ch ∈ cs, ch.utf8Size = 1 := by
  induction cs with
  | nil => simp
  | cons ch cs ih =>
    rw [utf8List_cons, List.length_append, String.length_utf8EncodeChar, List.length_cons, List.forall_mem_cons, ← ih]
    have hpos := ch.utf8Size_pos
    have hle := length_utf8List_le cs
    omega

theorem utf8Size_eq_one : ch.utf8Size = 1 ↔ ch.toNat < 128 := by
  rw [Char.utf8Size_eq_one_iff, UInt32.le_iff_toNat_le]
  exact Nat.lt_succ_iff.symm

end Hugit

import Hugit.JsonText

/-! The values a JSON printer can write and its reader reads back. Printing and
reading are inverse on them, and the reader returns no others. -/

namespace Hugit

namespace JsonText

def EndsNumber : List Char → Prop
  | [] => True
  | c :: _ => c = ',' ∨ c = ']' ∨ c = '}'

theorem span_append {p : Char → Bool} (hp : p ',' = false ∧ p ']' = false ∧ p '}' = false)
    (cs : List Char) {rest : List Char} (hr : EndsNumber rest) :
    (cs ++ rest).takeWhile p = cs.takeWhile p ∧ (cs ++ rest).dropWhile p = cs.dropWhile p ++ rest := by
  induction cs with
  | nil =>
    cases rest with
    | nil => simp
    | cons c rest => rcases hr with rfl | rfl | rfl <;> simp [hp]
  | cons c cs ih =>
    cases hc : p c
    · simp [hc]
    · simp [hc, ih]

theorem readFraction_of_ne {c : Char} (hc : c ≠ '.') (cs : List Char) :
    readFraction (c :: cs) = some ([], c :: cs) := by
  unfold readFraction
  split
  · rename_i h
    exact absurd (List.cons.inj h).1 hc
  · rfl

theorem readFraction_append {cs fraction tail rest : List Char} (hr : EndsNumber rest)
    (h : readFraction cs = some (fraction, tail)) : readFraction (cs ++ rest) = some (fraction, tail ++ rest) := by
  cases cs with
  | nil =>
    obtain ⟨rfl, rfl⟩ : fraction = [] ∧ tail = [] := by simpa [readFraction, eq_comm] using h
    cases rest with
    | nil => rfl
    | cons c rest => rcases hr with rfl | rfl | rfl <;> rfl
  | cons c cs =>
    by_cases hc : c = '.'
    · subst hc
      obtain ⟨ht, hd⟩ := span_append (p := Char.isDigit) (by decide) cs hr
      simp only [readFraction, List.cons_append, ht, hd] at h ⊢
      split_ifs at h ⊢ with hnil
      simp only [Option.some.injEq, Prod.mk.injEq] at h ⊢
      exact ⟨h.1, by rw [h.2]⟩
    · rw [readFraction_of_ne hc] at h
      rw [List.cons_append, readFraction_of_ne hc]
      simp only [Option.some.injEq, Prod.mk.injEq] at h ⊢
      exact ⟨h.1, by rw [← h.2, List.cons_append]⟩

theorem readExponent_append {cs exponent tail rest : List Char} (hr : EndsNumber rest)
    (h : readExponent cs = some (exponent, tail)) : readExponent (cs ++ rest) = some (exponent, tail ++ rest) := by
  cases cs with
  | nil =>
    obtain ⟨rfl, rfl⟩ : exponent = [] ∧ tail = [] := by simpa [readExponent, eq_comm] using h
    cases rest with
    | nil => rfl
    | cons c rest => rcases hr with rfl | rfl | rfl <;> rfl
  | cons c cs =>
    by_cases hc : c = 'e' ∨ c = 'E'
    · obtain ⟨hs, hds⟩ := span_append (p := fun c => decide (c = '+' ∨ c = '-')) (by decide) cs hr
      obtain ⟨ht, hd⟩ := span_append (p := Char.isDigit) (by decide)
        (cs.dropWhile fun c => decide (c = '+' ∨ c = '-')) hr
      simp only [readExponent, hc, if_true, List.cons_append, hs, hds, ht, hd] at h ⊢
      split_ifs at h ⊢ with hbad
      simp only [Option.some.injEq, Prod.mk.injEq] at h ⊢
      exact ⟨h.1, by rw [h.2]⟩
    · simp only [readExponent, hc, if_false, List.cons_append, Option.some.injEq, Prod.mk.injEq] at h ⊢
      exact ⟨h.1, by rw [← h.2, List.cons_append]⟩

def signOf (negative : Bool) : List Char :=
  if negative then ['-'] else []

def classify (negative : Bool) (digits fraction exponent : List Char) : Number :=
  let n := Nat.ofDigitChars 10 digits 0
  if fraction = [] ∧ exponent = [] ∧ negative = false ∧ n < 2 ^ 64 then .posInt n
  else if fraction = [] ∧ exponent = [] ∧ negative = true ∧ 0 < n ∧ n ≤ 2 ^ 63 then .negInt n
  else .float (String.ofList (signOf negative ++ digits ++ fraction ++ exponent))

theorem readNumber_eq_some {negative : Bool} {cs tail : List Char} {n : Number} :
    readNumber negative cs = some (n, tail) ↔
      ¬ (cs.takeWhile Char.isDigit = [] ∨
        (cs.takeWhile Char.isDigit).head? = some '0' ∧ 1 < (cs.takeWhile Char.isDigit).length) ∧
      ∃ fraction mid exponent, readFraction (cs.dropWhile Char.isDigit) = some (fraction, mid) ∧
        readExponent mid = some (exponent, tail) ∧
        n = classify negative (cs.takeWhile Char.isDigit) fraction exponent := by
  unfold readNumber
  by_cases hbad : cs.takeWhile Char.isDigit = [] ∨
      (cs.takeWhile Char.isDigit).head? = some '0' ∧ 1 < (cs.takeWhile Char.isDigit).length
  · rw [if_pos hbad]
    exact iff_of_false nofun fun h => h.1 hbad
  · simp only [if_neg hbad]
    cases hf : readFraction (cs.dropWhile Char.isDigit) with
    | none => simp
    | some f =>
      obtain ⟨fraction, mid⟩ := f
      cases he : readExponent mid with
      | none => simp [he]
      | some e =>
        obtain ⟨exponent, left⟩ := e
        simp only [Option.bind_eq_bind, Option.bind_some, he, Option.some.injEq, Prod.mk.injEq, classify,
          signOf]
        split_ifs <;> aesop

theorem readNumber_append {negative : Bool} {cs tail rest : List Char} {n : Number} (hr : EndsNumber rest)
    (h : readNumber negative cs = some (n, tail)) :
    readNumber negative (cs ++ rest) = some (n, tail ++ rest) := by
  obtain ⟨ht, hd⟩ := span_append (p := Char.isDigit) (by decide) cs hr
  obtain ⟨hgood, fraction, mid, exponent, hf, he, hn⟩ := readNumber_eq_some.mp h
  rw [readNumber_eq_some, ht, hd]
  exact ⟨hgood, fraction, _, exponent, readFraction_append hr hf, readExponent_append hr he, hn⟩

theorem span_of_forall {p : Char → Bool} {ds rest : List Char} (hd : ∀ c ∈ ds, p c = true)
    (hr : ∀ c ∈ rest.head?, p c = false) :
    (ds ++ rest).takeWhile p = ds ∧ (ds ++ rest).dropWhile p = rest := by
  rw [List.takeWhile_append_of_pos hd, List.dropWhile_append_of_pos hd]
  cases rest with
  | nil => simp
  | cons c rest =>
    have hc := hr c rfl
    simp [hc]

theorem of_mem_takeWhile {p : Char → Bool} {c : Char} {cs : List Char} (h : c ∈ cs.takeWhile p) :
    p c = true :=
  List.all_eq_true.mp List.all_takeWhile c h

theorem readFraction_part {cs fraction mid rest : List Char} (h : readFraction cs = some (fraction, mid))
    (hr : ∀ c ∈ rest.head?, c ≠ '.' ∧ c.isDigit = false) :
    (∀ c ∈ fraction.head?, c.isDigit = false) ∧ readFraction (fraction ++ rest) = some (fraction, rest) := by
  by_cases hdot : ∃ ds, cs = '.' :: ds
  · obtain ⟨ds, rfl⟩ := hdot
    simp only [readFraction] at h
    split_ifs at h with hnil
    obtain ⟨rfl, -⟩ := by simpa using h
    have hdigits : ∀ c ∈ ds.takeWhile Char.isDigit, c.isDigit = true := fun c => of_mem_takeWhile
    obtain ⟨ht, hd⟩ := span_of_forall hdigits fun c hc => (hr c hc).2
    refine ⟨by simp, ?_⟩
    simp only [readFraction, List.cons_append, ht, hd, if_neg hnil]
  · have hnil : fraction = [] := by
      cases cs with
      | nil => simpa [readFraction, eq_comm] using congrArg (Option.map Prod.fst) h
      | cons c cs =>
        rw [readFraction_of_ne (fun hc => hdot ⟨cs, by rw [hc]⟩)] at h
        simpa [eq_comm] using congrArg (Option.map Prod.fst) h
    subst hnil
    refine ⟨by simp, ?_⟩
    cases rest with
    | nil => rfl
    | cons c rest => rw [List.nil_append, readFraction_of_ne (hr c (by simp)).1]

theorem readExponent_part {cs exponent tail : List Char} (h : readExponent cs = some (exponent, tail)) :
    (∀ c ∈ exponent.head?, c ≠ '.' ∧ c.isDigit = false) ∧ readExponent exponent = some (exponent, []) := by
  cases cs with
  | nil =>
    obtain rfl : exponent = [] := by simpa [readExponent, eq_comm] using congrArg (Option.map Prod.fst) h
    exact ⟨by simp, rfl⟩
  | cons e cs =>
    by_cases he : e = 'e' ∨ e = 'E'
    · simp only [readExponent, he, if_true] at h
      split_ifs at h with hbad
      have hsigns : ∀ c ∈ cs.takeWhile (fun c => decide (c = '+' ∨ c = '-')),
          decide (c = '+' ∨ c = '-') = true := fun c => of_mem_takeWhile
      have hdigits : ∀ c ∈ (cs.dropWhile fun c => decide (c = '+' ∨ c = '-')).takeWhile Char.isDigit,
          c.isDigit = true := fun c => of_mem_takeWhile
      generalize cs.takeWhile (fun c => decide (c = '+' ∨ c = '-')) = signs at *
      generalize (cs.dropWhile fun c => decide (c = '+' ∨ c = '-')).takeWhile Char.isDigit = digits at *
      obtain ⟨rfl, -⟩ := by simpa only [Option.some.injEq, Prod.mk.injEq] using h
      have hhead : ∀ c ∈ digits.head?, decide (c = '+' ∨ c = '-') = false := by
        intro c hc
        have hdig := hdigits c (List.mem_of_mem_head? hc)
        have h1 : c ≠ '+' := fun h => by simp [h] at hdig
        have h2 : c ≠ '-' := fun h => by simp [h] at hdig
        simp [h1, h2]
      obtain ⟨hs, hds⟩ := span_of_forall hsigns hhead
      have hend : ∀ c ∈ ([] : List Char).head?, c.isDigit = false := by simp
      obtain ⟨ht, hd⟩ := span_of_forall hdigits hend
      rw [List.append_nil] at ht hd
      refine ⟨by rcases he with rfl | rfl <;> simp, ?_⟩
      simp only [List.cons_append, readExponent, he, if_true, hs, hds, ht, hd, if_neg hbad]
    · simp only [readExponent, he, if_false] at h
      obtain ⟨rfl, -⟩ := by simpa using h
      exact ⟨by simp, rfl⟩

theorem toDigits_head_ne_zero {n : Nat} (hn : 0 < n) : (Nat.toDigits 10 n).head? ≠ some '0' := by
  induction n using Nat.strongRecOn with
  | ind n ih =>
    rw [Nat.toDigits_eq_if (by decide)]
    split_ifs with h
    · interval_cases n <;> decide
    · have hh := ih (n / 10) (by omega) (by omega)
      cases hd : Nat.toDigits 10 (n / 10) with
      | nil => exact absurd hd Nat.toDigits_ne_nil
      | cons c cs => simpa [hd] using hh

theorem toDigits_no_leading_zero (n : Nat) :
    ¬ ((Nat.toDigits 10 n).head? = some '0' ∧ 1 < (Nat.toDigits 10 n).length) := by
  rintro ⟨hh, hl⟩
  rcases Nat.eq_zero_or_pos n with rfl | hn
  · simp at hl
  · exact toDigits_head_ne_zero hn hh

end JsonText

open JsonText

/-- The numbers a reader returns. A literal of its own is read back as it stands. -/
def Number.Printable : Number → Prop
  | posInt n => n < 2 ^ 64
  | negInt n => 0 < n ∧ n ≤ 2 ^ 63
  | float literal => ∃ negative cs, literal.toList = signOf negative ++ cs ∧
      readNumber negative cs = some (.float literal, [])

theorem Number.Printable.reads {n : Number} (hn : n.Printable) :
    ∃ negative cs, printNumber n = signOf negative ++ cs ∧ readNumber negative cs = some (n, []) := by
  have hdigits (m : Nat) : (Nat.toDigits 10 m).takeWhile Char.isDigit = Nat.toDigits 10 m ∧
      (Nat.toDigits 10 m).dropWhile Char.isDigit = [] := by
    have hd : ∀ c ∈ Nat.toDigits 10 m, c.isDigit = true :=
      fun c hc => Nat.isDigit_of_mem_toDigits (by decide) (by decide) hc
    have hend : ∀ c ∈ ([] : List Char).head?, c.isDigit = false := by simp
    simpa using span_of_forall hd hend
  have hread (m : Nat) (negative : Bool) : readNumber negative (Nat.toDigits 10 m) =
      some (classify negative (Nat.toDigits 10 m) [] [], []) := by
    rw [readNumber_eq_some, (hdigits m).1, (hdigits m).2]
    have hgood : ¬ (Nat.toDigits 10 m = [] ∨
        (Nat.toDigits 10 m).head? = some '0' ∧ 1 < (Nat.toDigits 10 m).length) := by
      simp only [Nat.toDigits_ne_nil, false_or]
      exact toDigits_no_leading_zero m
    exact ⟨hgood, [], [], [], rfl, rfl, rfl⟩
  cases n with
  | posInt m =>
    refine ⟨false, Nat.toDigits 10 m, rfl, ?_⟩
    have hm : m < 2 ^ 64 := hn
    rw [hread, classify, Nat.ofDigitChars_ten_toDigits, if_pos ⟨rfl, rfl, rfl, hm⟩]
  | negInt m =>
    refine ⟨true, Nat.toDigits 10 m, rfl, ?_⟩
    have hm : 0 < m ∧ m ≤ 2 ^ 63 := hn
    rw [hread, classify, Nat.ofDigitChars_ten_toDigits, if_neg (by simp), if_pos ⟨rfl, rfl, rfl, hm⟩]
  | float literal => exact hn

theorem JsonText.readNumber_printable {negative : Bool} {cs tail : List Char} {n : Number}
    (h : readNumber negative cs = some (n, tail)) : n.Printable := by
  obtain ⟨hgood, fraction, mid, exponent, hf, he, rfl⟩ := readNumber_eq_some.mp h
  have hdigits : ∀ c ∈ cs.takeWhile Char.isDigit, c.isDigit = true := fun c => of_mem_takeWhile
  generalize cs.takeWhile Char.isDigit = digits at *
  obtain ⟨heh, her⟩ := readExponent_part he
  obtain ⟨hfh, hfr⟩ := readFraction_part hf heh
  have hhead : ∀ c ∈ (fraction ++ exponent).head?, c.isDigit = false := by
    intro c hc
    cases fraction with
    | nil => exact (heh c hc).2
    | cons d fraction => exact hfh c hc
  obtain ⟨ht, hd⟩ := span_of_forall hdigits hhead
  simp only [classify]
  split_ifs with h1 h2
  · exact h1.2.2.2
  · exact h2.2.2.2
  · refine ⟨negative, digits ++ (fraction ++ exponent), by simp [signOf], ?_⟩
    rw [readNumber_eq_some, ht, hd]
    refine ⟨hgood, fraction, exponent, exponent, hfr, her, ?_⟩
    rw [classify, if_neg h1, if_neg h2]

/-- The values of at most the given nesting that a reader can return: every
object has distinct keys. -/
inductive Value.Printable : Nat → Value → Prop
  | null {depth : Nat} : Printable depth .null
  | bool {depth : Nat} (b : Bool) : Printable depth (.bool b)
  | number {depth : Nat} {n : Number} (hn : n.Printable) : Printable depth (.number n)
  | string {depth : Nat} (s : String) : Printable depth (.string s)
  | array {depth : Nat} {items : List Value} (h : ∀ v ∈ items, Printable depth v) :
      Printable (depth + 1) (.array items)
  | object {depth : Nat} {fields : List (String × Value)} (hnd : (fields.map Prod.fst).Nodup)
      (h : ∀ f ∈ fields, Printable depth f.2) : Printable (depth + 1) (.object fields)

theorem Value.Printable.mono {depth depth' : Nat} {v : Value} (h : v.Printable depth)
    (hle : depth ≤ depth') : v.Printable depth' := by
  induction h generalizing depth' with
  | null => exact .null
  | bool b => exact .bool b
  | number hn => exact .number hn
  | string s => exact .string s
  | array h ih =>
    obtain ⟨k, rfl⟩ : ∃ k, depth' = k + 1 := ⟨depth' - 1, by omega⟩
    exact .array fun v hv => ih v hv (by omega)
  | object hnd h ih =>
    obtain ⟨k, rfl⟩ : ∃ k, depth' = k + 1 := ⟨depth' - 1, by omega⟩
    exact .object hnd fun f hf => ih f hf (by omega)

namespace JsonText

theorem skipBlank_cons {c : Char} (hc : c ≠ ' ' ∧ c ≠ '\n' ∧ c ≠ '\t' ∧ c ≠ '\r') (cs : List Char) :
    skipBlank (c :: cs) = c :: cs := by
  simp [skipBlank, hc]

/-- A reader at the value `v` returns it and leaves what follows. -/
def Reads (depth : Nat) (v : Value) : Prop :=
  ∀ fuel rest, EndsNumber rest → 2 * (printValue v).length < fuel →
    readValue fuel depth (printValue v ++ rest) = some (v, rest)

theorem ne_of_isDigit {c d : Char} (hc : c.isDigit = true) (hd : d.isDigit = false) : c ≠ d :=
  fun h => by simp [h, hd] at hc

theorem readValue_digit {c : Char} (hc : c.isDigit = true) (fuel depth : Nat) (cs : List Char) :
    readValue (fuel + 1) depth (c :: cs) =
      (readNumber false (c :: cs)).map fun r => (.number r.1, r.2) := by
  have hb : skipBlank (c :: cs) = c :: cs :=
    skipBlank_cons ⟨ne_of_isDigit hc rfl, ne_of_isDigit hc rfl, ne_of_isDigit hc rfl, ne_of_isDigit hc rfl⟩ cs
  rw [readValue, hb]
  split <;> first | rfl | (rename_i h; exact absurd (List.cons.inj h).1 (ne_of_isDigit hc rfl))

theorem digit_of_readNumber {negative : Bool} {cs tail : List Char} {n : Number}
    (h : readNumber negative cs = some (n, tail)) : ∃ c ds, cs = c :: ds ∧ c.isDigit = true := by
  obtain ⟨hgood, -⟩ := readNumber_eq_some.mp h
  cases cs with
  | nil => simp at hgood
  | cons c ds =>
    refine ⟨c, ds, rfl, ?_⟩
    cases hc : c.isDigit with
    | true => rfl
    | false => simp [hc] at hgood

theorem reads_number {n : Number} (hn : n.Printable) (depth : Nat) : Reads depth (.number n) := by
  intro fuel rest hr hf
  obtain ⟨fuel, rfl⟩ : ∃ k, fuel = k + 1 := ⟨fuel - 1, by omega⟩
  obtain ⟨negative, cs, hp, hread⟩ := hn.reads
  have hh := readNumber_append hr hread
  obtain ⟨c, ds, rfl, hc⟩ := digit_of_readNumber hread
  rw [printValue, hp]
  cases negative with
  | true => simpa [signOf, readValue, skipBlank] using hh
  | false => simpa [signOf, readValue_digit hc] using hh

theorem reads_string (s : String) (depth : Nat) : Reads depth (.string s) := by
  intro fuel rest _ hf
  obtain ⟨fuel, rfl⟩ : ∃ k, fuel = k + 1 := ⟨fuel - 1, by omega⟩
  have hl := escapes_escapeChar.length_le s.toList
  simp only [printValue, printText, List.length_append, List.length_cons, List.length_nil] at hf
  have hlt : s.toList.length < fuel := by omega
  have ht := escapes_escapeChar.readText s.toList hlt rest
  simp [printValue, printText, readValue, skipBlank, ht, String.ofList_toList]

theorem printValue_head {depth : Nat} {v : Value} (hv : v.Printable depth) :
    ∃ c cs, printValue v = c :: cs ∧ (c ≠ ' ' ∧ c ≠ '\n' ∧ c ≠ '\t' ∧ c ≠ '\r') ∧ c ≠ ']' := by
  cases hv with
  | null => exact ⟨_, _, rfl, by decide, by decide⟩
  | bool b => cases b <;> exact ⟨_, _, rfl, by decide, by decide⟩
  | string s => exact ⟨_, _, rfl, by decide, by decide⟩
  | number hn =>
    obtain ⟨negative, cs, hp, hread⟩ := hn.reads
    obtain ⟨c, ds, rfl, hc⟩ := digit_of_readNumber hread
    rw [printValue, hp]
    cases negative with
    | true => exact ⟨_, _, rfl, by decide, by decide⟩
    | false =>
      refine ⟨c, ds, rfl, ?_, ne_of_isDigit hc rfl⟩
      exact ⟨ne_of_isDigit hc rfl, ne_of_isDigit hc rfl, ne_of_isDigit hc rfl, ne_of_isDigit hc rfl⟩
  | @array _ items h =>
    cases items with
    | nil => exact ⟨'[', _, rfl, by decide, by decide⟩
    | cons v vs => exact ⟨'[', printValue v ++ printItems vs ++ [']'], rfl, by decide, by decide⟩
  | @object _ fields hnd h =>
    cases fields with
    | nil => exact ⟨'{', _, rfl, by decide, by decide⟩
    | cons f fs => exact ⟨'{', printMember f ++ printMembers fs ++ ['}'], rfl, by decide, by decide⟩

theorem readItems_print {depth fuel : Nat} {v : Value} {vs : List Value} (hread : ∀ w ∈ v :: vs, Reads depth w)
    (hf : 2 * (printValue v ++ printItems vs).length + 1 < fuel) (rest : List Char) :
    readItems fuel depth (printValue v ++ printItems vs ++ ']' :: rest) = some (v :: vs, rest) := by
  induction vs generalizing v fuel with
  | nil =>
    obtain ⟨fuel, rfl⟩ : ∃ k, fuel = k + 1 := ⟨fuel - 1, by omega⟩
    rw [printItems, List.append_nil] at hf ⊢
    have hv := hread v (by simp) fuel (']' :: rest) (.inr (.inl rfl)) (by omega)
    simp [readItems, hv, skipBlank]
  | cons w vs ih =>
    obtain ⟨fuel, rfl⟩ : ∃ k, fuel = k + 1 := ⟨fuel - 1, by omega⟩
    simp only [printItems, List.length_append, List.length_cons] at hf
    have hv := hread v (by simp) fuel (',' :: (printValue w ++ printItems vs ++ ']' :: rest)) (.inl rfl)
      (by omega)
    have hlen : 2 * (printValue w ++ printItems vs).length + 1 < fuel := by
      rw [List.length_append]
      omega
    have hw := ih (fun u hu => hread u (by simp [hu])) hlen
    have ht : printValue v ++ printItems (w :: vs) ++ ']' :: rest =
        printValue v ++ ',' :: (printValue w ++ printItems vs ++ ']' :: rest) := by
      simp [printItems]
    rw [ht, readItems, hv]
    simp only [skipBlank, Char.reduceEq, or_self, if_false, hw, Option.map_some]

theorem insertKey_fresh {key : String} {read : List (String × Value)}
    (hk : key ∉ read.map Prod.fst) (v : Value) : insertKey key v read = read ++ [(key, v)] := by
  induction read with
  | nil => rfl
  | cons f read ih =>
    obtain ⟨k, w⟩ := f
    simp only [List.map_cons, List.mem_cons, not_or] at hk
    simp [insertKey, Ne.symm hk.1, ih hk.2]

theorem readMembers_member {key : String} {v : Value} {read : List (String × Value)}
    {fuel depth : Nat} {c : Char} (hc : c = ',' ∨ c = '}') (hk : key ∉ read.map Prod.fst)
    (hread : Reads depth v) (hf : 2 * (printMember (key, v)).length < fuel + 1) (rest : List Char) :
    readMembers (fuel + 1) depth read (printMember (key, v) ++ c :: rest) =
      if c = ',' then readMembers fuel depth (read ++ [(key, v)]) rest
      else some (read ++ [(key, v)], rest) := by
  have he := escapes_escapeChar.length_le key.toList
  simp only [printMember, printText, List.length_append, List.length_cons, List.length_nil] at hf
  have hlt : key.toList.length < fuel := by omega
  have ht := escapes_escapeChar.readText key.toList hlt (':' :: (printValue v ++ c :: rest))
  have hh := hread fuel (c :: rest) (hc.imp_right .inr) (by omega)
  rcases hc with rfl | rfl <;>
    simp [printMember, printText, readMembers, skipBlank, ht, hh, String.ofList_toList,
      insertKey_fresh hk]

theorem readMembers_print {f : String × Value} {fs read : List (String × Value)} {fuel depth : Nat}
    (hnd : ((read ++ f :: fs).map Prod.fst).Nodup) (hread : ∀ g ∈ f :: fs, Reads depth g.2)
    (hf : 2 * (printMember f ++ printMembers fs).length < fuel) (rest : List Char) :
    readMembers fuel depth read (printMember f ++ printMembers fs ++ '}' :: rest) =
      some (read ++ f :: fs, rest) := by
  induction fs generalizing f read fuel with
  | nil =>
    obtain ⟨key, v⟩ := f
    obtain ⟨fuel, rfl⟩ : ∃ k, fuel = k + 1 := ⟨fuel - 1, by omega⟩
    have hk : key ∉ read.map Prod.fst := by
      rw [List.map_append, List.map_cons, List.nodup_append_comm] at hnd
      exact (List.nodup_cons.mp hnd).1
    have hv : Reads depth v := hread (key, v) (by simp)
    rw [printMembers, List.append_nil] at hf ⊢
    rw [readMembers_member (.inr rfl) hk hv hf, if_neg (by decide)]
  | cons g fs ih =>
    obtain ⟨key, v⟩ := f
    obtain ⟨fuel, rfl⟩ : ∃ k, fuel = k + 1 := ⟨fuel - 1, by omega⟩
    have hk : key ∉ read.map Prod.fst := by
      rw [List.map_append, List.map_cons, List.nodup_append_comm, List.cons_append] at hnd
      exact fun h => (List.nodup_cons.mp hnd).1 (List.mem_append_right _ h)
    have hv : Reads depth v := hread (key, v) (by simp)
    simp only [printMembers, List.length_append, List.length_cons] at hf
    have hnd' : ((read ++ [(key, v)] ++ g :: fs).map Prod.fst).Nodup := by
      simpa only [List.append_assoc, List.singleton_append] using hnd
    have hlen : 2 * (printMember g ++ printMembers fs).length < fuel := by
      rw [List.length_append]
      omega
    have hh := ih hnd' (fun x hx => hread x (List.mem_cons_of_mem _ hx)) hlen
    rw [printMembers, List.append_assoc, List.cons_append, List.cons_append,
      readMembers_member (.inl rfl) hk hv (by omega), if_pos rfl, hh,
      List.append_assoc, List.singleton_append]

theorem reads_of_printable {depth : Nat} {v : Value} (hv : v.Printable depth) : Reads depth v := by
  induction hv with
  | null =>
    intro fuel rest _ hf
    obtain ⟨fuel, rfl⟩ : ∃ k, fuel = k + 1 := ⟨fuel - 1, by omega⟩
    simp [printValue, readValue, skipBlank]
  | bool b =>
    intro fuel rest _ hf
    obtain ⟨fuel, rfl⟩ : ∃ k, fuel = k + 1 := ⟨fuel - 1, by omega⟩
    cases b <;> simp [printValue, readValue, skipBlank]
  | number hn => exact reads_number hn _
  | string s => exact reads_string s _
  | @array depth items h ih =>
    intro fuel rest _ hf
    obtain ⟨fuel, rfl⟩ : ∃ k, fuel = k + 1 := ⟨fuel - 1, by omega⟩
    cases items with
    | nil => simp [printValue, readValue, skipBlank]
    | cons v vs =>
      simp only [printValue, List.length_append, List.length_cons, List.length_nil] at hf
      have hlen : 2 * (printValue v ++ printItems vs).length + 1 < fuel := by
        rw [List.length_append]
        omega
      have hh := readItems_print ih hlen rest
      obtain ⟨c, cs, hc, hblank, hclose⟩ := printValue_head (h v (by simp))
      have ht : printValue (.array (v :: vs)) ++ rest =
          '[' :: (printValue v ++ printItems vs ++ ']' :: rest) := by
        simp [printValue]
      rw [ht]
      simp only [hc, List.cons_append, List.append_assoc] at hh ⊢
      simp [readValue, skipBlank_cons, hblank, hclose, hh]
  | @object depth fields hnd h ih =>
    intro fuel rest _ hf
    obtain ⟨fuel, rfl⟩ : ∃ k, fuel = k + 1 := ⟨fuel - 1, by omega⟩
    cases fields with
    | nil => simp [printValue, readValue, skipBlank]
    | cons f fs =>
      simp only [printValue, List.length_append, List.length_cons, List.length_nil] at hf
      have hlen : 2 * (printMember f ++ printMembers fs).length < fuel := by
        rw [List.length_append]
        omega
      have hnd' : (([] ++ f :: fs).map Prod.fst).Nodup := hnd
      have hh := readMembers_print hnd' ih hlen rest
      have ht : printValue (.object (f :: fs)) ++ rest =
          '{' :: (printMember f ++ printMembers fs ++ '}' :: rest) := by
        simp [printValue]
      rw [ht]
      obtain ⟨key, v⟩ := f
      rw [List.nil_append] at hh
      simp only [printMember, printText, List.cons_append, List.append_assoc, List.nil_append] at hh ⊢
      simp [readValue, skipBlank_cons, hh]

end JsonText

theorem readJson_printJson {v : Value} (hv : v.Printable 127) : readJson (printJson v) = some v := by
  have hh := reads_of_printable hv (3 * (printValue v).length + 3) [] trivial (by omega)
  rw [List.append_nil] at hh
  simp [readJson, printJson, hh, skipBlank]

namespace JsonText

def Members (depth : Nat) (fields : List (String × Value)) : Prop :=
  (fields.map Prod.fst).Nodup ∧ ∀ f ∈ fields, f.2.Printable depth

theorem keys_insertKey (key : String) (v : Value) (fields : List (String × Value)) :
    (insertKey key v fields).map Prod.fst =
      if key ∈ fields.map Prod.fst then fields.map Prod.fst else fields.map Prod.fst ++ [key] := by
  induction fields with
  | nil => rfl
  | cons f fields ih =>
    obtain ⟨k, w⟩ := f
    by_cases hk : k = key
    · simp [insertKey, hk]
    · simp only [insertKey, if_neg hk, List.map_cons, ih, List.mem_cons, Ne.symm hk, false_or]
      split_ifs <;> rfl

theorem mem_insertKey {key : String} {v : Value} {fields : List (String × Value)} {f : String × Value}
    (h : f ∈ insertKey key v fields) : f.2 = v ∨ f ∈ fields := by
  induction fields with
  | nil => simp_all [insertKey]
  | cons g fields ih =>
    obtain ⟨k, w⟩ := g
    by_cases hk : k = key
    · simp only [insertKey, if_pos hk, List.mem_cons] at h
      rcases h with rfl | h
      · exact .inl rfl
      · exact .inr (List.mem_cons_of_mem _ h)
    · simp only [insertKey, if_neg hk, List.mem_cons] at h
      rcases h with rfl | h
      · exact .inr (by simp)
      · exact (ih h).imp_right (List.mem_cons_of_mem _)

theorem Members.insertKey {depth : Nat} {fields : List (String × Value)} (h : Members depth fields)
    (key : String) {v : Value} (hv : v.Printable depth) : Members depth (insertKey key v fields) := by
  refine ⟨?_, fun f hf => ?_⟩
  · rw [keys_insertKey]
    split_ifs with hk
    · exact h.1
    · exact List.nodup_append.mpr ⟨h.1, List.nodup_singleton _, fun a ha b hb => by
        rintro rfl
        exact hk (by simpa [List.mem_singleton.mp hb] using ha)⟩
  · rcases mem_insertKey hf with he | hmem
    · rwa [he]
    · exact h.2 f hmem

theorem read_printable (fuel : Nat) :
    (∀ depth cs v rest, readValue fuel depth cs = some (v, rest) → v.Printable depth) ∧
    (∀ depth cs vs rest, readItems fuel depth cs = some (vs, rest) → ∀ v ∈ vs, v.Printable depth) ∧
    (∀ depth read cs fs rest, Members depth read → readMembers fuel depth read cs = some (fs, rest) →
      Members depth fs) := by
  induction fuel with
  | zero => simp [readValue, readItems, readMembers]
  | succ fuel ih =>
    obtain ⟨ihv, ihi, ihm⟩ := ih
    refine ⟨?_, ?_, ?_⟩
    · intro depth cs v rest h
      rw [readValue] at h
      split at h
      · obtain ⟨rfl, -⟩ := by simpa using h
        exact .null
      · obtain ⟨rfl, -⟩ := by simpa using h
        exact .bool true
      · obtain ⟨rfl, -⟩ := by simpa using h
        exact .bool false
      · obtain ⟨r, -, hr⟩ := Option.map_eq_some_iff.mp h
        obtain ⟨rfl, -⟩ := by simpa using hr
        exact .string _
      · obtain ⟨r, hn, hr⟩ := Option.map_eq_some_iff.mp h
        obtain ⟨rfl, -⟩ := by simpa using hr
        exact .number (readNumber_printable hn)
      · cases depth with
        | zero => cases h
        | succ depth =>
          split at h
          · contradiction
          · obtain ⟨rfl, -⟩ := by simpa using h
            exact .array (by simp)
          · obtain ⟨r, hi, hr⟩ := Option.map_eq_some_iff.mp h
            obtain ⟨rfl, -⟩ := by simpa using hr
            rename_i heq _
            obtain rfl := Nat.succ.inj heq
            exact .array (ihi _ _ _ _ hi)
      · cases depth with
        | zero => cases h
        | succ depth =>
          split at h
          · contradiction
          · obtain ⟨rfl, -⟩ := by simpa using h
            exact .object (by simp) (by simp)
          · obtain ⟨r, hi, hr⟩ := Option.map_eq_some_iff.mp h
            obtain ⟨rfl, -⟩ := by simpa using hr
            rename_i heq _
            obtain rfl := Nat.succ.inj heq
            have hm := ihm _ _ _ _ _ ⟨by simp, by simp⟩ hi
            exact .object hm.1 hm.2
      · obtain ⟨r, hn, hr⟩ := Option.map_eq_some_iff.mp h
        obtain ⟨rfl, -⟩ := by simpa using hr
        exact .number (readNumber_printable hn)
    · intro depth cs vs rest h
      rw [readItems] at h
      split at h
      · cases h
      · rename_i v tail hv
        have hp := ihv _ _ _ _ hv
        split at h
        · obtain ⟨r, hi, hr⟩ := Option.map_eq_some_iff.mp h
          obtain ⟨rfl, -⟩ := by simpa using hr
          intro w hw
          rcases List.mem_cons.mp hw with rfl | hw
          · exact hp
          · exact ihi _ _ _ _ hi w hw
        · obtain ⟨rfl, -⟩ := by simpa using h
          simpa using hp
        · cases h
    · intro depth read cs fs rest hm h
      rw [readMembers] at h
      split at h
      · split at h
        · cases h
        · split at h
          · split at h
            · cases h
            · rename_i hv
              have hp := ihv _ _ _ _ hv
              split at h
              · exact ihm _ _ _ _ _ (hm.insertKey _ hp) h
              · obtain ⟨rfl, -⟩ := by simpa using h
                exact hm.insertKey _ hp
              · cases h
          · cases h
      · cases h

end JsonText

theorem readJson_printable {text : String} {v : Value} (h : readJson text = some v) : v.Printable 127 := by
  simp only [readJson] at h
  split at h
  · rename_i hv
    split_ifs at h
    obtain rfl := Option.some.inj h
    exact (read_printable _).1 _ _ _ _ hv
  · cases h

theorem Value.Flat.printable {v : Value} (hv : v.Flat) (depth : Nat) : v.Printable (depth + 1) := by
  cases v with
  | null | bool _ | number _ | string _ | array _ => exact hv.elim
  | object fields =>
    refine .object hv.1 fun f hf => ?_
    obtain ⟨key, v⟩ := f
    have hleaf : v.IsLeaf := hv.2 _ hf
    cases v with
    | null | bool _ | array _ | object _ => exact hleaf.elim
    | string s => exact .string s
    | number n =>
      cases n with
      | negInt _ | float _ => exact hleaf.elim
      | posInt n => exact .number hleaf

end Hugit

import Hugit.JsonValue

/-! A reference reader and writer for JSON texts: compact output, standard
string escapes, a nesting limit of 128. -/

namespace Hugit

namespace JsonText

def escapeChar (c : Char) : List Char :=
  if c = '"' then ['\\', '"']
  else if c = '\\' then ['\\', '\\']
  else if c = '\x08' then ['\\', 'b']
  else if c = '\x0c' then ['\\', 'f']
  else if c = '\n' then ['\\', 'n']
  else if c = '\r' then ['\\', 'r']
  else if c = '\t' then ['\\', 't']
  else if c.toNat < 0x20 then
    ['\\', 'u', '0', '0', hexDigit (c.toNat / 16), hexDigit (c.toNat % 16)]
  else [c]

def printText (s : String) : List Char :=
  '"' :: s.toList.flatMap escapeChar ++ ['"']

def printNumber : Number → List Char
  | .posInt n => Nat.toDigits 10 n
  | .negInt n => '-' :: Nat.toDigits 10 n
  | .float literal => literal.toList

mutual

def printValue : Value → List Char
  | .null => ['n', 'u', 'l', 'l']
  | .bool true => ['t', 'r', 'u', 'e']
  | .bool false => ['f', 'a', 'l', 's', 'e']
  | .number n => printNumber n
  | .string s => printText s
  | .array [] => ['[', ']']
  | .array (v :: vs) => '[' :: printValue v ++ printItems vs ++ [']']
  | .object [] => ['{', '}']
  | .object (f :: fs) => '{' :: printMember f ++ printMembers fs ++ ['}']

def printItems : List Value → List Char
  | [] => []
  | v :: vs => ',' :: printValue v ++ printItems vs

def printMember : String × Value → List Char
  | (key, v) => printText key ++ ':' :: printValue v

def printMembers : List (String × Value) → List Char
  | [] => []
  | f :: fs => ',' :: printMember f ++ printMembers fs

end

def skipBlank : List Char → List Char
  | [] => []
  | c :: rest => if c = ' ' ∨ c = '\n' ∨ c = '\t' ∨ c = '\r' then skipBlank rest else c :: rest

def hexValue (c : Char) : Option Nat :=
  if '0' ≤ c ∧ c ≤ '9' then some (c.toNat - '0'.toNat)
  else if 'a' ≤ c ∧ c ≤ 'f' then some (c.toNat - 'a'.toNat + 10)
  else if 'A' ≤ c ∧ c ≤ 'F' then some (c.toNat - 'A'.toNat + 10)
  else none

def readHex4 : List Char → Option (Nat × List Char)
  | a :: b :: c :: d :: rest => do
    let a ← hexValue a
    let b ← hexValue b
    let c ← hexValue c
    let d ← hexValue d
    some (((a * 16 + b) * 16 + c) * 16 + d, rest)
  | _ => none

/-- The character of an escape sequence, read after its backslash. A high
surrogate must be followed by the escape of a low one. -/
def readEscape : List Char → Option (Char × List Char)
  | '"' :: rest => some ('"', rest)
  | '\\' :: rest => some ('\\', rest)
  | '/' :: rest => some ('/', rest)
  | 'b' :: rest => some ('\x08', rest)
  | 'f' :: rest => some ('\x0c', rest)
  | 'n' :: rest => some ('\n', rest)
  | 'r' :: rest => some ('\r', rest)
  | 't' :: rest => some ('\t', rest)
  | 'u' :: rest =>
    match readHex4 rest with
    | none => none
    | some (hi, rest) =>
      if 0xD800 ≤ hi ∧ hi < 0xDC00 then
        match rest with
        | '\\' :: 'u' :: low =>
          match readHex4 low with
          | none => none
          | some (lo, rest) =>
            if 0xDC00 ≤ lo ∧ lo < 0xE000 then
              some (Char.ofNat (0x10000 + (hi - 0xD800) * 0x400 + (lo - 0xDC00)), rest)
            else none
        | _ => none
      else if 0xDC00 ≤ hi ∧ hi < 0xE000 then none
      else some (Char.ofNat hi, rest)
  | _ => none

def readText : Nat → List Char → Option (List Char × List Char)
  | 0, _ => none
  | _ + 1, [] => none
  | fuel + 1, c :: rest =>
    if c = '"' then some ([], rest)
    else if c = '\\' then do
      let (e, rest) ← readEscape rest
      let (s, rest) ← readText fuel rest
      some (e :: s, rest)
    else if c.toNat < 0x20 then none
    else do
      let (s, rest) ← readText fuel rest
      some (c :: s, rest)

def readFraction : List Char → Option (List Char × List Char)
  | '.' :: rest =>
    let digits := rest.takeWhile Char.isDigit
    if digits = [] then none else some ('.' :: digits, rest.dropWhile Char.isDigit)
  | rest => some ([], rest)

def readExponent : List Char → Option (List Char × List Char)
  | [] => some ([], [])
  | e :: rest =>
    if e = 'e' ∨ e = 'E' then
      let sign := rest.takeWhile fun c => c = '+' ∨ c = '-'
      let rest := rest.dropWhile fun c => c = '+' ∨ c = '-'
      let digits := rest.takeWhile Char.isDigit
      if digits = [] ∨ 1 < sign.length then none
      else some (e :: sign ++ digits, rest.dropWhile Char.isDigit)
    else some ([], e :: rest)

/-- An integer that fits its 64-bit type stays one; any other number is a float. -/
def readNumber (negative : Bool) (cs : List Char) : Option (Number × List Char) :=
  let digits := cs.takeWhile Char.isDigit
  if digits = [] ∨ (digits.head? = some '0' ∧ 1 < digits.length) then none
  else do
    let (fraction, rest) ← readFraction (cs.dropWhile Char.isDigit)
    let (exponent, rest) ← readExponent rest
    let n := Nat.ofDigitChars 10 digits 0
    let sign := if negative then ['-'] else []
    let literal := String.ofList (sign ++ digits ++ fraction ++ exponent)
    if fraction = [] ∧ exponent = [] ∧ negative = false ∧ n < 2 ^ 64 then some (.posInt n, rest)
    else if fraction = [] ∧ exponent = [] ∧ negative = true ∧ 0 < n ∧ n ≤ 2 ^ 63 then
      some (.negInt n, rest)
    else some (.float literal, rest)

/-- A repeated key replaces the earlier member in place. -/
def insertKey (key : String) (v : Value) : List (String × Value) → List (String × Value)
  | [] => [(key, v)]
  | (k, w) :: rest => if k = key then (k, v) :: rest else (k, w) :: insertKey key v rest

mutual

def readValue : Nat → Nat → List Char → Option (Value × List Char)
  | 0, _, _ => none
  | fuel + 1, depth, cs =>
    match skipBlank cs with
    | 'n' :: 'u' :: 'l' :: 'l' :: rest => some (.null, rest)
    | 't' :: 'r' :: 'u' :: 'e' :: rest => some (.bool true, rest)
    | 'f' :: 'a' :: 'l' :: 's' :: 'e' :: rest => some (.bool false, rest)
    | '"' :: rest => (readText fuel rest).map fun r => (.string (String.ofList r.1), r.2)
    | '-' :: rest => (readNumber true rest).map fun r => (.number r.1, r.2)
    | '[' :: rest =>
      match depth, skipBlank rest with
      | 0, _ => none
      | _, ']' :: rest => some (.array [], rest)
      | depth + 1, rest => (readItems fuel depth rest).map fun r => (.array r.1, r.2)
    | '{' :: rest =>
      match depth, skipBlank rest with
      | 0, _ => none
      | _, '}' :: rest => some (.object [], rest)
      | depth + 1, rest => (readMembers fuel depth [] rest).map fun r => (.object r.1, r.2)
    | rest => (readNumber false rest).map fun r => (.number r.1, r.2)

def readItems : Nat → Nat → List Char → Option (List Value × List Char)
  | 0, _, _ => none
  | fuel + 1, depth, cs =>
    match readValue fuel depth cs with
    | none => none
    | some (v, rest) =>
      match skipBlank rest with
      | ',' :: rest => (readItems fuel depth rest).map fun r => (v :: r.1, r.2)
      | ']' :: rest => some ([v], rest)
      | _ => none

def readMembers : Nat → Nat → List (String × Value) → List Char →
    Option (List (String × Value) × List Char)
  | 0, _, _, _ => none
  | fuel + 1, depth, read, cs =>
    match skipBlank cs with
    | '"' :: rest =>
      match readText fuel rest with
      | none => none
      | some (key, rest) =>
        match skipBlank rest with
        | ':' :: rest =>
          match readValue fuel depth rest with
          | none => none
          | some (v, rest) =>
            match skipBlank rest with
            | ',' :: rest => readMembers fuel depth (insertKey (String.ofList key) v read) rest
            | '}' :: rest => some (insertKey (String.ofList key) v read, rest)
            | _ => none
        | _ => none
    | _ => none

end

end JsonText

def printJson (v : Value) : String :=
  String.ofList (JsonText.printValue v)

def readJson (text : String) : Option Value :=
  let cs := text.toList
  match JsonText.readValue (3 * cs.length + 3) 127 cs with
  | some (v, rest) => if JsonText.skipBlank rest = [] then some v else none
  | none => none

namespace JsonText

theorem hexValue_hexDigit : ∀ n < 16, hexValue (hexDigit n) = some n := by decide

theorem readHex4_control {c : Char} (hc : c.toNat < 0x20) (rest : List Char) :
    readHex4 ('0' :: '0' :: hexDigit (c.toNat / 16) :: hexDigit (c.toNat % 16) :: rest) =
      some (c.toNat, rest) := by
  have h0 : hexValue '0' = some 0 := by decide
  simp only [readHex4, h0, hexValue_hexDigit _ (by omega : c.toNat / 16 < 16),
    hexValue_hexDigit _ (by omega : c.toNat % 16 < 16), Option.bind_eq_bind, Option.bind_some,
    Option.some.injEq, Prod.mk.injEq, and_true]
  omega

theorem readText_escaped {fuel : Nat} {c : Char} {escaped rest : List Char}
    (he : readEscape escaped = some (c, rest)) :
    readText (fuel + 1) ('\\' :: escaped) = (readText fuel rest).map fun r => (c :: r.1, r.2) := by
  cases h : readText fuel rest <;> simp [readText, he, h]

theorem readEscape_control {c : Char} (hc : c.toNat < 0x20) (rest : List Char) :
    readEscape ('u' :: '0' :: '0' :: hexDigit (c.toNat / 16) :: hexDigit (c.toNat % 16) :: rest) =
      some (c, rest) := by
  simp [readEscape, readHex4_control hc, show ¬ 0xD800 ≤ c.toNat by omega,
    show ¬ 0xDC00 ≤ c.toNat by omega]

/-- An escaping that a reader of texts undoes one character at a time. -/
def Escapes (escape : Char → List Char) : Prop :=
  ∀ (fuel : Nat) (c : Char) (rest : List Char),
    readText (fuel + 1) (escape c ++ rest) = (readText fuel rest).map fun r => (c :: r.1, r.2)

theorem escapes_escapeChar : Escapes escapeChar := by
  intro fuel c rest
  unfold escapeChar
  split_ifs with h1 h2 h3 h4 h5 h6 h7 h8
  · exact readText_escaped (by simp [readEscape, h1])
  · exact readText_escaped (by simp [readEscape, h2])
  · exact readText_escaped (by simp [readEscape, h3])
  · exact readText_escaped (by simp [readEscape, h4])
  · exact readText_escaped (by simp [readEscape, h5])
  · exact readText_escaped (by simp [readEscape, h6])
  · exact readText_escaped (by simp [readEscape, h7])
  · exact readText_escaped (readEscape_control h8 rest)
  · cases h : readText fuel rest <;> simp [readText, h1, h2, h8, h]

theorem Escapes.readText {escape : Char → List Char} (he : Escapes escape) (s : List Char) {fuel : Nat}
    (hf : s.length < fuel) (rest : List Char) :
    readText fuel (s.flatMap escape ++ '"' :: rest) = some (s, rest) := by
  induction s generalizing fuel with
  | nil =>
    obtain ⟨fuel, rfl⟩ : ∃ f, fuel = f + 1 := ⟨fuel - 1, by simp at hf; omega⟩
    simp [JsonText.readText]
  | cons c s ih =>
    obtain ⟨fuel, rfl⟩ : ∃ f, fuel = f + 1 := ⟨fuel - 1, by simp at hf; omega⟩
    rw [List.flatMap_cons, List.append_assoc, he, ih (by simpa using hf)]
    rfl

theorem Escapes.length_le {escape : Char → List Char} (he : Escapes escape) (s : List Char) :
    s.length ≤ (s.flatMap escape).length := by
  have hpos (c : Char) : escape c ≠ [] := fun hnil => by
    simpa [hnil, JsonText.readText] using he 0 c ['"']
  induction s with
  | nil => simp
  | cons c s ih =>
    have hc := List.length_pos_of_ne_nil (hpos c)
    simp only [List.flatMap_cons, List.length_append, List.length_cons]
    omega

end JsonText

example : ((readJson " \x7b \"n\" : [1.5e3, -7], \"ref\":\"a\\u00e9\\n\" \x7d ").bind fun v =>
    v.get "ref").bind Value.asStr = some "aé\n" := by decide +kernel

end Hugit

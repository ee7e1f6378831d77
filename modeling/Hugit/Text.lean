import Mathlib.Data.List.DropRight
import Mathlib.Tactic

/-! Operations on character sequences with the behaviour of Rust's `str`. -/

namespace Hugit

def splitOnce (sep : Char) : List Char → Option (List Char × List Char)
  | [] => none
  | c :: rest =>
    if c = sep then some ([], rest)
    else (splitOnce sep rest).map fun p => (c :: p.1, p.2)

def stripPrefix : List Char → List Char → Option (List Char)
  | [], text => some text
  | _ :: _, [] => none
  | p :: ps, c :: text => if p = c then stripPrefix ps text else none

/-- Lines end at a line feed; a carriage return before it belongs to the
ending, a final one without a line feed does not. -/
def lines : List Char → List (List Char)
  | [] => []
  | '\n' :: rest => [] :: lines rest
  | '\r' :: '\n' :: rest => [] :: lines rest
  | c :: rest =>
    match lines rest with
    | [] => [[c]]
    | l :: ls => (c :: l) :: ls

def isWhitespace (c : Char) : Bool :=
  let n := c.toNat
  (0x09 ≤ n && n ≤ 0x0D) || n == 0x20 || n == 0x85 || n == 0xA0 || n == 0x1680 ||
    (0x2000 ≤ n && n ≤ 0x200A) || n == 0x2028 || n == 0x2029 || n == 0x202F || n == 0x205F ||
    n == 0x3000

def trim (text : List Char) : List Char :=
  (text.dropWhile isWhitespace).rdropWhile isWhitespace

def trimStart (text : List Char) : List Char :=
  text.dropWhile isWhitespace

def toAsciiLowercase (text : List Char) : List Char :=
  text.map Char.toLower

/-- The occurrences a repeated `find` comes to, each as the reversed text before
it and the text after it. The search goes on behind the last one found. -/
def occurrencesFrom (needle : List Char) : Nat → List Char → List Char → List (List Char × List Char)
  | _, _, [] => []
  | skip + 1, before, c :: rest => occurrencesFrom needle skip (c :: before) rest
  | 0, before, c :: rest =>
    match stripPrefix needle (c :: rest) with
    | some after => (before, after) :: occurrencesFrom needle (needle.length - 1) (c :: before) rest
    | none => occurrencesFrom needle 0 (c :: before) rest

def occurrences (needle text : List Char) : List (List Char × List Char) :=
  occurrencesFrom needle 0 [] text

variable {sep : Char} {text : List Char}

theorem splitOnce_eq_none (h : sep ∉ text) : splitOnce sep text = none := by
  induction text with
  | nil => rfl
  | cons c text ih =>
    simp only [List.mem_cons, not_or] at h
    simp [splitOnce, Ne.symm h.1, ih h.2]

theorem splitOnce_append (h : sep ∉ text) (rest : List Char) :
    splitOnce sep (text ++ sep :: rest) = some (text, rest) := by
  induction text with
  | nil => simp [splitOnce]
  | cons c text ih =>
    simp only [List.mem_cons, not_or] at h
    simp [splitOnce, Ne.symm h.1, ih h.2]

theorem stripPrefix_append (ps text : List Char) : stripPrefix ps (ps ++ text) = some text := by
  induction ps with
  | nil => rfl
  | cons p ps ih => simp [stripPrefix, ih]

theorem stripPrefix_eq_some {ps text rest : List Char} :
    stripPrefix ps text = some rest ↔ text = ps ++ rest := by
  constructor
  · intro h
    induction ps generalizing text with
    | nil => simpa [stripPrefix] using h
    | cons p ps ih =>
      cases text with
      | nil => simp [stripPrefix] at h
      | cons c text =>
        simp only [stripPrefix] at h
        split_ifs at h with hc
        rw [hc, ih h, List.cons_append]
  · rintro rfl
    exact stripPrefix_append ps rest

theorem stripPrefix_eq_none {ps text : List Char} : stripPrefix ps text = none ↔ ¬ ps <+: text := by
  rw [Option.eq_none_iff_forall_ne_some]
  simp only [ne_eq, stripPrefix_eq_some, ← not_exists, List.IsPrefix, eq_comm]

variable {c : Char}

theorem occurrences_eq_nil {needle text : List Char} (hn : c ∈ needle) (ht : c ∉ text) :
    occurrences needle text = [] := by
  have hfrom (skip : Nat) (before : List Char) : occurrencesFrom needle skip before text = [] := by
    induction text generalizing skip before with
    | nil => cases skip <;> rfl
    | cons d rest ih =>
      have hrest : c ∉ rest := fun h => ht (List.mem_cons_of_mem _ h)
      cases skip with
      | succ skip => exact ih hrest skip (d :: before)
      | zero =>
        have hnone : stripPrefix needle (d :: rest) = none :=
          stripPrefix_eq_none.mpr fun hp => ht (hp.subset hn)
        rw [occurrencesFrom, hnone]
        exact ih hrest 0 (d :: before)
  exact hfrom 0 []

theorem lines_cons (hn : c ≠ '\n') {rest : List Char} (hr : c = '\r' → rest.head? ≠ some '\n') :
    lines (c :: rest) = (c :: (lines rest).headD []) :: (lines rest).tail := by
  rw [lines]
  · cases lines rest <;> rfl
  · exact hn
  · rintro tail hc rfl
    exact hr hc rfl

theorem lines_concat_ne_nil (text : List Char) (c : Char) : lines (text ++ [c]) ≠ [] := by
  have hne : text ++ [c] ≠ [] := by simp
  generalize text ++ [c] = chars at hne
  fun_cases lines chars with
  | case1 => exact absurd rfl hne
  | _ => simp

theorem lines_append_lineFeed (text rest : List Char) :
    lines (text ++ '\n' :: rest) = lines (text ++ ['\n']) ++ lines rest := by
  induction text with
  | nil => rfl
  | cons c text ih =>
    obtain ⟨l, ls, hl⟩ := List.exists_cons_of_ne_nil (lines_concat_ne_nil text '\n')
    by_cases hn : c = '\n'
    · simp [hn, lines, ih]
    by_cases hr : c = '\r' ∧ text.head?.getD '\n' = '\n'
    · -- the carriage return is swallowed by the line feed after it
      obtain ⟨rfl, htext⟩ := hr
      cases text with
      | nil => rfl
      | cons d text =>
        obtain rfl : d = '\n' := htext
        simpa [lines] using ih
    · have hhead (tail : List Char) (hc : c = '\r') : (text ++ '\n' :: tail).head? ≠ some '\n' := by
        cases text with
        | nil => simp [hc] at hr
        | cons d text => simpa [hc] using hr
      rw [List.cons_append, List.cons_append, lines_cons hn (hhead rest), lines_cons hn (hhead []), ih, hl]
      rfl

theorem head_lines_of_not_mem (h : '\n' ∉ text) : (lines text).headD [] = text := by
  induction text with
  | nil => rfl
  | cons c text ih =>
    have ht : '\n' ∉ text := fun hm => h (List.mem_cons_of_mem _ hm)
    have hc : c ≠ '\n' := fun he => h (he ▸ List.mem_cons_self)
    have hhead (_ : c = '\r') : text.head? ≠ some '\n' := fun he => ht (List.mem_of_mem_head? he)
    rw [lines_cons hc hhead, List.headD_cons, ih ht]

theorem not_mem_head_lines (text : List Char) : '\n' ∉ (lines text).headD [] := by
  induction text with
  | nil => simp [lines]
  | cons c text ih =>
    by_cases hn : c = '\n'
    · simp [hn, lines]
    by_cases hr : c = '\r' → text.head? ≠ some '\n'
    · rw [lines_cons hn hr, List.headD_cons]
      simpa [Ne.symm hn] using ih
    · push Not at hr
      obtain ⟨tail, rfl⟩ := List.head?_eq_some_iff.mp hr.2
      simp [hr.1, lines]

theorem lines_append_of_forall {pre : List Char} (hne : pre ≠ []) (hpre : ∀ c ∈ pre, c ≠ '\n' ∧ c ≠ '\r')
    (text : List Char) :
    lines (pre ++ text) = (pre ++ (lines text).headD []) :: (lines text).tail := by
  induction pre with
  | nil => exact absurd rfl hne
  | cons c pre ih =>
    obtain ⟨hc, hpre⟩ := List.forall_mem_cons.mp hpre
    rw [List.cons_append, lines_cons hc.1 fun h => absurd h hc.2]
    cases pre with
    | nil => rfl
    | cons d pre => rw [ih (by simp) hpre]; rfl

theorem trim_ne_nil (hc : c ∈ text) (hv : isWhitespace c = false) : trim text ≠ [] := by
  intro h
  have hall := List.rdropWhile_eq_nil_iff.mp h
  have hnil : text.dropWhile isWhitespace = [] := by
    by_contra hne
    have hhead := List.head_dropWhile_not isWhitespace hne
    rw [hall _ (List.head_mem hne)] at hhead
    cases hhead
  have hw := List.dropWhile_eq_nil_iff.mp hnil c hc
  rw [hv] at hw
  cases hw

theorem mem_of_mem_trim (h : c ∈ trim text) : c ∈ text :=
  (List.dropWhile_sublist _).subset ((List.rdropWhile_prefix _ _).subset h)

theorem trim_head_lines : trim ((lines text).headD []) = text ↔ '\n' ∉ text ∧ trim text = text := by
  constructor
  · intro h
    have hn : '\n' ∉ text := fun hm => not_mem_head_lines text (mem_of_mem_trim (h.symm ▸ hm))
    exact ⟨hn, by rwa [head_lines_of_not_mem hn] at h⟩
  · rintro ⟨hn, ht⟩
    rw [head_lines_of_not_mem hn, ht]

def decimal (n : Nat) : String :=
  String.ofList (Nat.toDigits 10 n)

theorem isDigit_of_mem_decimal {n : Nat} (h : c ∈ (decimal n).toList) : c.isDigit = true := by
  rw [decimal, String.toList_ofList] at h
  exact Nat.isDigit_of_mem_toDigits (by decide) (by decide) h

theorem append_separator_inj {as bs xs ys : List Char} (hx : sep ∉ xs) (hy : sep ∉ ys)
    (h : as ++ sep :: xs = bs ++ sep :: ys) : as = bs ∧ xs = ys := by
  rcases List.append_eq_append_iff.mp h with ⟨mid, rfl, hm⟩ | ⟨mid, rfl, hm⟩ <;> cases mid
  · exact ⟨by simp, (List.cons.inj hm).2⟩
  · exact absurd ((List.cons.inj hm).2 ▸ by simp) hx
  · exact ⟨by simp, (List.cons.inj hm).2.symm⟩
  · exact absurd ((List.cons.inj hm).2 ▸ by simp) hy

def zeroPadded : Nat → Nat → List Char
  | 0, _ => []
  | width + 1, n => zeroPadded width (n / 10) ++ [Nat.digitChar (n % 10)]

@[simp] theorem zeroPadded_length (width n : Nat) : (zeroPadded width n).length = width := by
  induction width generalizing n with
  | zero => rfl
  | succ width ih => simp [zeroPadded, ih]

theorem digitChar_lt : ∀ m < 10, ∀ n < 10, m < n → Nat.digitChar m < Nat.digitChar n := by decide

theorem append_lt_append_of_length_eq {as bs : List Char} (h : as < bs) (hl : as.length = bs.length)
    (xs ys : List Char) : as ++ xs < bs ++ ys := by
  induction as generalizing bs with
  | nil =>
    obtain rfl : bs = [] := List.length_eq_zero_iff.mp hl.symm
    exact absurd h (by simp)
  | cons a as ih =>
    cases bs with
    | nil => simp at hl
    | cons b bs =>
      rw [List.cons_append, List.cons_append, List.cons_lt_cons_iff]
      rcases List.cons_lt_cons_iff.mp h with hab | ⟨hab, htail⟩
      · exact .inl hab
      · exact .inr ⟨hab, ih htail (by simpa using hl)⟩

theorem zeroPadded_lt {width m n : Nat} (h : m < n) (hn : n < 10 ^ width) :
    zeroPadded width m < zeroPadded width n := by
  induction width generalizing m n with
  | zero => omega
  | succ width ih =>
    rw [zeroPadded, zeroPadded]
    rcases Nat.lt_or_ge (m / 10) (n / 10) with hlt | hge
    · have hn' : n / 10 < 10 ^ width := by
        rw [pow_succ] at hn
        omega
      exact append_lt_append_of_length_eq (ih hlt hn') (by simp) _ _
    · have heq : m / 10 = n / 10 := by omega
      rw [heq]
      refine List.append_left_lt (List.cons_lt_cons_iff.mpr (.inl ?_))
      exact digitChar_lt _ (by omega) _ (by omega) (by omega)

end Hugit

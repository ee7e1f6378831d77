import Hugit.SecretShape

/-! The redaction of free text: a text in which any detector finds a credential
is replaced as a whole. -/

namespace Hugit

def redactedMarker : String := "[REDACTED]"

def entropyThreshold : ℚ := 4

/-- The maximal runs of token characters, each with the reversed text before it. -/
def tokenRuns : List Char → List Char → List Char → List (List Char × List Char)
  | before, run, [] => if run = [] then [] else [(before, run.reverse)]
  | before, run, c :: rest =>
    if isTokenChar c then tokenRuns before (c :: run) rest
    else if run = [] then tokenRuns (c :: before) [] rest
    else (before, run.reverse) :: tokenRuns (c :: (run ++ before)) [] rest

def precedingContextIsDigestAlgo (before : List Char) : Bool :=
  match before with
  | ':' :: before =>
    let algo := (before.takeWhile fun c => c.isAlphanum || c = '-').reverse
    algo ≠ [] && isDigestAlgo algo
  | _ => false

inductive PathVerdict where
  | survive
  | redact
  deriving DecidableEq

inductive CharClass where
  | lower
  | upper
  | digit
  deriving DecidableEq

def charClass (c : Char) : Option CharClass :=
  if c.isLower then some .lower else if c.isUpper then some .upper
  else if c.isDigit then some .digit else none

/-- More than half of the neighbouring letters and digits differ in class. -/
def isTransitionDense (token : List Char) : Bool :=
  let classes := token.filterMap charClass
  let transitions := ((classes.zip classes.tail).filter fun (a, b) => a ≠ b).length
  2 ≤ classes.length && classes.length - 1 < 2 * transitions

def pathSegments (token : List Char) : List (List Char) :=
  token.splitOnP fun c => c = '.' || c = '_' || c = '/' || c = '-'

def isSecretSegment (m : Measures) (segment : List Char) : Bool :=
  segment ≠ [] &&
    (isStructuralSecret segment || isBareHexDigestShape segment ||
      (entropyMinLen ≤ segment.length && segment.all isHexDigit) ||
      identEntropyThreshold ≤ m.shannonEntropy segment)

def classifyPathToken (m : Measures) (token : List Char) : Option PathVerdict :=
  if !token.all (fun c => c.isAlphanum || c = '.' || c = '_' || c = '/' || c = '-') then none
  else if !token.any (fun c => c = '/' || c = '-') then none
  else if isTransitionDense token then some .redact
  else if (pathSegments token).any (isSecretSegment m) then some .redact
  else some .survive

def isSecretToken (m : Measures) (before token : List Char) : Bool :=
  if token.length < entropyMinLen then false
  else if isContentAddressRef token then false
  else if isBareHexDigestShape token then !precedingContextIsDigestAlgo before
  else if token.length ≠ 40 && token.length ≠ 64 &&
      token.all (fun c => c.isDigit || ('a' ≤ c && c ≤ 'f')) then true
  else
    match classifyPathToken m token with
    | some .redact => true
    | some .survive => false
    | none => entropyThreshold ≤ m.shannonEntropy token

def highEntropyToken (m : Measures) (text : List Char) : Bool :=
  (tokenRuns [] [] text).any fun (before, token) => isSecretToken m before token

def isSecret (m : Measures) (text : List Char) : Bool :=
  isStructuralSecret text || highEntropyToken m text

def redactText (m : Measures) (s : String) : String :=
  if isSecret m s.toList then redactedMarker else s

def structuralSecretScrub (m : Measures) (s : String) : String :=
  if isSafeIdentifierShape m s.toList then s else redactedMarker

theorem tokenRuns_of_all {token : List Char} (h : ∀ c ∈ token, isTokenChar c = true)
    (before run : List Char) (hne : run ++ token ≠ []) :
    tokenRuns before run token = [(before, run.reverse ++ token)] := by
  induction token generalizing run with
  | nil =>
    rw [List.append_nil] at hne ⊢
    simp [tokenRuns, hne]
  | cons c token ih =>
    have hh := ih (fun d hd => h d (by simp [hd])) (c :: run) (by simp)
    simp [tokenRuns, h c (by simp), hh]

theorem isContentAddressRef_of_no_colon {token : List Char} (h : ':' ∉ token) :
    isContentAddressRef token = false := by
  have hcas : stripPrefix "cas:".toList token = none :=
    stripPrefix_eq_none.mpr fun hp => h (hp.subset (by decide))
  simp only [isContentAddressRef, hcas, splitOnce_eq_none h]

theorem redactText_of_bareHexDigest (m : Measures) {s : String} (h : isBareHexDigestShape s.toList = true) :
    redactText m s = redactedMarker := by
  obtain ⟨hl, hall⟩ : (s.toList.length = 40 ∨ s.toList.length = 64) ∧ ∀ c ∈ s.toList, isHexDigit c = true := by
    simpa [isBareHexDigestShape] using h
  have hruns := tokenRuns_of_all (fun c hc => isTokenChar_of_isHexDigit (hall c hc)) [] []
    (by
      intro hnil
      rw [List.nil_append] at hnil
      simp [hnil] at hl)
  have href := isContentAddressRef_of_no_colon fun hc => absurd (hall _ hc) (by decide)
  have hlong : ¬ s.toList.length < entropyMinLen := by
    rw [entropyMinLen]
    omega
  have htoken : isSecretToken m [] s.toList = true := by
    rw [isSecretToken, if_neg hlong, href, h]
    rfl
  have hsecret : isSecret m s.toList = true := by
    simp [isSecret, highEntropyToken, hruns, htoken]
  rw [redactText, if_pos hsecret]

theorem length_le_of_mem_tokenRuns {text before run : List Char} {p : List Char × List Char}
    (h : p ∈ tokenRuns before run text) : p.2.length ≤ run.length + text.length := by
  induction text generalizing before run with
  | nil =>
    rw [tokenRuns] at h
    split_ifs at h
    · cases h
    · obtain rfl := List.mem_singleton.mp h
      simp
  | cons c text ih =>
    rw [tokenRuns] at h
    split_ifs at h
    · have hh := ih h
      simp only [List.length_cons] at hh ⊢
      omega
    · have hh := ih h
      simp only [List.length_cons, List.length_nil] at hh ⊢
      omega
    · rcases List.mem_cons.mp h with rfl | h
      · simp
      · have hh := ih h
        simp only [List.length_cons, List.length_nil] at hh ⊢
        omega

theorem isSecret_of_short (m : Measures) {text : List Char} (hs : isStructuralSecret text = false)
    (hl : text.length < entropyMinLen) : isSecret m text = false := by
  rw [isSecret, hs, Bool.false_or, highEntropyToken, List.any_eq_false]
  rintro ⟨before, token⟩ hp
  have hlen := length_le_of_mem_tokenRuns hp
  rw [List.length_nil, Nat.zero_add] at hlen
  have htoken : isSecretToken m before token = false := if_pos (lt_of_le_of_lt hlen hl)
  simp [htoken]

theorem isSecret_marker (m : Measures) : isSecret m redactedMarker.toList = false :=
  isSecret_of_short m (by decide +kernel) (by decide +kernel)

theorem redactText_cases (m : Measures) (text : String) :
    redactText m text = text ∨ redactText m text = redactedMarker := by
  rw [redactText]
  split_ifs
  · exact .inr rfl
  · exact .inl rfl

theorem redactText_marker (m : Measures) : redactText m redactedMarker = redactedMarker := by
  rw [redactText, ite_self]

@[simp] theorem redactText_redactText (m : Measures) (text : String) :
    redactText m (redactText m text) = redactText m text := by
  rcases redactText_cases m text with h | h
  · rw [h, h]
  · rw [h, redactText_marker]

theorem redactText_eq_self_iff {m : Measures} {text : String} :
    redactText m text = text ↔ isSecret m text.toList = false := by
  rw [redactText]
  split_ifs with h
  · constructor
    · intro he
      rw [← he, isSecret_marker] at h
      cases h
    · intro hsecret
      rw [h] at hsecret
      cases hsecret
  · simpa using h

theorem structuralSecretScrub_marker (m : Measures) :
    structuralSecretScrub m redactedMarker = redactedMarker := by
  rw [structuralSecretScrub, ite_self]

theorem structuralSecretScrub_cases (m : Measures) (text : String) :
    structuralSecretScrub m text = text ∨ structuralSecretScrub m text = redactedMarker := by
  rw [structuralSecretScrub]
  split_ifs
  · exact .inl rfl
  · exact .inr rfl

@[simp] theorem structuralSecretScrub_idem (m : Measures) (text : String) :
    structuralSecretScrub m (structuralSecretScrub m text) = structuralSecretScrub m text := by
  rcases structuralSecretScrub_cases m text with h | h
  · rw [h, h]
  · rw [h, structuralSecretScrub_marker]

end Hugit

import Hugit.Framing
import Hugit.Text

/-! The shapes that both redaction policies are built on: credentials by their
form, content addresses, and the identifiers that may stay as they are. -/

namespace Hugit

/-- The entropy of a token in bits per character, as the number the floating-point
computation comes out at. -/
structure Measures where
  shannonEntropy : List Char → ℚ

def secretMarker : List Char := "SECRET:".toList

def entropyMinLen : Nat := 20

def skMinSuffixLen : Nat := 20

def keywordPrefixes : List (List Char) :=
  ["password", "passwd", "secret", "token", "api_key", "pwd", "auth_token", "access_token",
    "private_key", "credential", "passphrase"].map String.toList

def knownPrefixes : List (List Char) :=
  ["ghp_", "gho_", "ghs_", "github_pat_", "AKIA", "xoxb-", "xoxp-", "xoxo-", "xoxa-", "xoxs-", "clp_",
    "dop_v1_", "glpat-", "eyJ"].map String.toList

def isTokenChar (c : Char) : Bool :=
  c.isAlphanum || c = '+' || c = '/' || c = '=' || c = '-' || c = '_'

def isHexDigit (c : Char) : Bool :=
  c.isDigit || ('a' ≤ c && c ≤ 'f') || ('A' ≤ c && c ≤ 'F')

def contains (text needle : List Char) : Bool :=
  decide (needle <:+: text)

def hasSkKey (text : List Char) : Bool :=
  (occurrences "sk-".toList text).any fun (_, after) =>
    let run := after.takeWhile isTokenChar
    skMinSuffixLen ≤ run.length ||
      match stripPrefix "proj-".toList run with
      | some id => id ≠ []
      | none => false

def hasBearerToken (text : List Char) : Bool :=
  (occurrences "bearer".toList (toAsciiLowercase text)).any fun (_, after) =>
    after.head? = some ' ' || after.head? = some '\t'

def hasConnectionStringPassword (text : List Char) : Bool :=
  (occurrences "://".toList text).any fun (_, after) =>
    let authority := after.takeWhile fun c => c ≠ '/' && c ≠ '?' && c ≠ '#'
    match splitOnce '@' authority with
    | none => false
    | some (userinfo, _) =>
      match splitOnce ':' userinfo with
      | none => false
      | some (_, password) => password ≠ []

/-- The value is looked up in the original text, at the place found in its
lowercase copy. -/
def hasKeywordContextSecret (text : List Char) : Bool :=
  keywordPrefixes.any fun kw =>
    (occurrences kw (toAsciiLowercase text)).any fun (before, after) =>
      (before.head?.all fun c => !c.isAlphanum) &&
        match after.dropWhile (fun c => c = ' ' || c = '\t') with
        | [] => false
        | sep :: value =>
          (sep = '=' || sep = ':') && trimStart (text.drop (text.length - value.length)) ≠ []

def isStructuralSecret (text : List Char) : Bool :=
  contains text secretMarker || knownPrefixes.any (contains text) || hasBearerToken text ||
    hasSkKey text || (contains text "-----BEGIN".toList && contains text "PRIVATE KEY".toList) ||
    hasConnectionStringPassword text || hasKeywordContextSecret text

def isBareHexDigestShape (token : List Char) : Bool :=
  (token.length = 40 || token.length = 64) && token.all isHexDigit

def isDigestAlgo (algo : List Char) : Bool :=
  (["sha1", "sha256", "sha-1", "sha-256", "sha512", "sha-512", "blake3", "cas", "oid"].map
    String.toList).contains (toAsciiLowercase algo)

def isCasPayloadShaped (payload : List Char) : Bool :=
  ((payload.length = 40 || payload.length = 64) && payload.all isHexDigit) ||
    (32 ≤ payload.length && payload.length ≤ 64 &&
      payload.all fun c => c.isLower || ('2' ≤ c && c ≤ '7'))

def isContentAddressRef (token : List Char) : Bool :=
  match stripPrefix "cas:".toList token with
  | some payload => isCasPayloadShaped payload && !isStructuralSecret payload
  | none =>
    match splitOnce ':' token with
    | none => false
    | some (algo, hex) => isDigestAlgo algo && isBareHexDigestShape hex

def isDigestShaped (value : List Char) : Bool :=
  isBareHexDigestShape value || isContentAddressRef value

/-- Crockford's base 32 leaves out the letters I, L, O and U. -/
def isUlidShaped (text : List Char) : Bool :=
  text.length = 26 && text.all fun c =>
    c.isDigit || (c.isUpper && c ≠ 'I' && c ≠ 'L' && c ≠ 'O' && c ≠ 'U')

def identEntropyThreshold : ℚ := 9 / 2

def isSafeIdentifierShape (m : Measures) (text : List Char) : Bool :=
  let t := trim text
  if t = [] then true
  else if isStructuralSecret t then false
  else if isDigestShaped t then true
  else if isUlidShaped t then true
  else if !t.all (fun c => c.isAlphanum || ['.', '_', '@', ':', '/', '+', '-'].contains c) then false
  else if entropyMinLen ≤ t.length && t.all isHexDigit then false
  else if entropyMinLen ≤ t.length && identEntropyThreshold ≤ m.shannonEntropy t then false
  else true

theorem isTokenChar_of_isHexDigit {c : Char} (h : isHexDigit c = true) : isTokenChar c = true := by
  have hal : c.isAlphanum = true := by
    delta Char.isAlphanum Char.isAlpha Char.isUpper Char.isLower
    simp only [isHexDigit, Char.isDigit, Bool.or_eq_true, Bool.and_eq_true, decide_eq_true_eq, Char.le_def,
      UInt32.le_iff_toNat_le, ge_iff_le] at h ⊢
    simp only [Char.reduceVal, UInt32.reduceToNat] at h ⊢
    omega
  simp [isTokenChar, hal]

theorem contains_eq_false {text needle : List Char} {c : Char} (hn : c ∈ needle) (ht : c ∉ text) :
    contains text needle = false := by
  rw [contains, decide_eq_false_iff_not]
  exact fun h => ht (h.subset hn)

def detectorNeedles : List (List Char) :=
  ["bearer", "sk-", "-----BEGIN", "://"].map String.toList ++ secretMarker :: knownPrefixes ++ keywordPrefixes

theorem isStructuralSecret_of_alphabet {text alphabet : List Char} (htext : ∀ c ∈ text, c.toLower ∈ alphabet)
    (hneedles : (detectorNeedles.all fun needle =>
      needle.any fun c => !alphabet.contains c && !alphabet.contains c.toLower) = true) :
    isStructuralSecret text = false := by
  have hforeign (needle : List Char) (hn : needle ∈ detectorNeedles) :
      ∃ c ∈ needle, c ∉ text ∧ c ∉ toAsciiLowercase text := by
    obtain ⟨c, hc, hout⟩ := List.any_eq_true.mp (List.all_eq_true.mp hneedles needle hn)
    simp only [Bool.and_eq_true, Bool.not_eq_true', List.contains_eq_mem, decide_eq_false_iff_not] at hout
    refine ⟨c, hc, fun h => hout.2 (htext c h), fun h => ?_⟩
    obtain ⟨d, hd, rfl⟩ := List.mem_map.mp h
    exact hout.1 (htext d hd)
  have hcontains (needle : List Char) (hn : needle ∈ detectorNeedles) : contains text needle = false := by
    obtain ⟨c, hc, hout, -⟩ := hforeign needle hn
    exact contains_eq_false hc hout
  have hoccurs (needle : List Char) (hn : needle ∈ detectorNeedles) : occurrences needle text = [] := by
    obtain ⟨c, hc, hout, -⟩ := hforeign needle hn
    exact occurrences_eq_nil hc hout
  have hlower (needle : List Char) (hn : needle ∈ detectorNeedles) :
      occurrences needle (toAsciiLowercase text) = [] := by
    obtain ⟨c, hc, -, hout⟩ := hforeign needle hn
    exact occurrences_eq_nil hc hout
  have hknown : knownPrefixes.any (contains text) = false :=
    List.any_eq_false.mpr fun needle hn => by simp [hcontains needle (by simp [detectorNeedles, hn])]
  have hkeywords : hasKeywordContextSecret text = false := by
    refine List.any_eq_false.mpr fun needle hn => ?_
    rw [hlower needle (by simp [detectorNeedles, hn])]
    simp
  rw [isStructuralSecret, hknown, hkeywords, hcontains secretMarker (by simp [detectorNeedles]), hasBearerToken,
    hlower "bearer".toList (by simp [detectorNeedles]), hasSkKey, hoccurs "sk-".toList (by simp [detectorNeedles]),
    hcontains "-----BEGIN".toList (by simp [detectorNeedles]), hasConnectionStringPassword,
    hoccurs "://".toList (by simp [detectorNeedles])]
  rfl

end Hugit

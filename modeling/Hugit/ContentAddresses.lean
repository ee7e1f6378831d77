import Hugit.Entropy
import Hugit.RedactionContext

/-! Which content addresses the redaction of free text leaves alone. -/

namespace Hugit

/-- The computed entropy lies on the same side of both thresholds as the real one. -/
def Measures.Exact (m : Measures) : Prop :=
  ∀ token : List Char,
    (entropyThreshold ≤ m.shannonEntropy token ↔ (entropyThreshold : ℝ) ≤ shannon token) ∧
      (identEntropyThreshold ≤ m.shannonEntropy token ↔ (identEntropyThreshold : ℝ) ≤ shannon token)

noncomputable def halfBits : Measures where
  shannonEntropy token := (⌊shannon token + shannon token⌋ : ℚ) / 2

theorem halfBits_le (n : ℤ) (token : List Char) :
    (n / 2 : ℚ) ≤ halfBits.shannonEntropy token ↔ (n / 2 : ℝ) ≤ shannon token := by
  rw [halfBits, div_le_div_iff_of_pos_right (by norm_num), Int.cast_le, Int.le_floor, div_le_iff₀ (by norm_num),
    mul_two]

theorem halfBits_exact : halfBits.Exact := by
  intro token
  have hfree := halfBits_le 8 token
  have hident := halfBits_le 9 token
  norm_num at hfree hident
  exact ⟨by simpa [entropyThreshold] using hfree, by simpa [identEntropyThreshold] using hident⟩

def isLowerHexDigit (c : Char) : Bool :=
  c.isDigit || ('a' ≤ c && c ≤ 'f')

def isBase32Digit (c : Char) : Bool :=
  c.isLower || ('2' ≤ c && c ≤ '7')

section Words

variable {m : Measures} {before token : List Char}

theorem isHexDigit_of_isLowerHexDigit {c : Char} (h : isLowerHexDigit c = true) : isHexDigit c = true := by
  rw [isHexDigit, show (c.isDigit || (decide ('a' ≤ c) && decide (c ≤ 'f'))) = true from h, Bool.true_or]

theorem isAlphanum_of_isBase32Digit {c : Char} (h : isBase32Digit c = true) : c.isAlphanum = true := by
  delta isBase32Digit Char.isLower at h
  delta Char.isAlphanum Char.isAlpha Char.isUpper Char.isLower
  simp only [Char.isDigit, Bool.or_eq_true, Bool.and_eq_true, decide_eq_true_eq,
    Char.le_def, UInt32.le_iff_toNat_le, ge_iff_le] at h ⊢
  simp only [Char.reduceVal, UInt32.reduceToNat] at h ⊢
  omega

theorem isTokenChar_of_isAlphanum {c : Char} (h : c.isAlphanum = true) : isTokenChar c = true := by
  simp [isTokenChar, h]

theorem classifyPathToken_of_alphanum (h : ∀ c ∈ token, c.isAlphanum = true) : classifyPathToken m token = none := by
  have hplain : token.any (fun c => c = '/' || c = '-') = false := by
    rw [List.any_eq_false]
    intro c hc hsep
    rcases Bool.or_eq_true_iff.mp hsep with hs | hs <;>
      exact absurd (of_decide_eq_true hs ▸ h c hc) (by decide)
  rw [classifyPathToken, hplain, Bool.not_false, if_pos rfl, ite_self]

theorem isSecretToken_of_alphanum (h : ∀ c ∈ token, c.isAlphanum = true) (hlen : entropyMinLen ≤ token.length)
    (hbare : isBareHexDigestShape token = false) :
    isSecretToken m before token = true ↔
      token.all isLowerHexDigit = true ∨ entropyThreshold ≤ m.shannonEntropy token := by
  have hcolon : ':' ∉ token := fun hc => absurd (h _ hc) (by decide)
  rw [isSecretToken, if_neg hlen.not_gt, isContentAddressRef_of_no_colon hcolon, hbare,
    classifyPathToken_of_alphanum h]
  have hfold : (token.all fun c => c.isDigit || ('a' ≤ c && c ≤ 'f')) = token.all isLowerHexDigit := rfl
  simp only [Bool.false_eq_true, if_false, hfold]
  by_cases hhex : token.all isLowerHexDigit = true
  · have hodd : token.length ≠ 40 ∧ token.length ≠ 64 := by
      have hall : token.all isHexDigit = true :=
        List.all_eq_true.mpr fun c hc => isHexDigit_of_isLowerHexDigit (List.all_eq_true.mp hhex c hc)
      rw [isBareHexDigestShape, hall, Bool.and_true] at hbare
      simpa using hbare
    simp [hhex, hodd]
  · simp [hhex]

end Words

section Tags

variable {m : Measures} {tag payload : List Char}

theorem toLower_eq_self {c : Char} (h : c.isUpper = false) : c.toLower = c :=
  dif_neg (of_decide_eq_false h)

theorem mem_digestAlgo (h : isDigestAlgo tag = true) {c : Char} (hc : c ∈ tag) :
    (c.isAlphanum || c = '-') = true := by
  have hall : ∀ name ∈ ["sha1", "sha256", "sha-1", "sha-256", "sha512", "sha-512", "blake3", "cas", "oid"].map
      String.toList, name.all (fun d => d.isAlphanum || d = '-') = true := by decide
  have hlow := List.all_eq_true.mp (hall _ (List.contains_iff_mem.mp h)) c.toLower (List.mem_map_of_mem hc)
  by_cases hu : c.isUpper = true
  · have halpha : c.isAlphanum = true := by
      delta Char.isAlphanum Char.isAlpha
      rw [hu, Bool.true_or, Bool.true_or]
    rw [halpha, Bool.true_or]
  · rwa [toLower_eq_self (by simpa using hu)] at hlow

theorem length_digestAlgo (h : isDigestAlgo tag = true) : 0 < tag.length ∧ tag.length < entropyMinLen := by
  have hall : ∀ name ∈ ["sha1", "sha256", "sha-1", "sha-256", "sha512", "sha-512", "blake3", "cas", "oid"].map
      String.toList, 0 < name.length ∧ name.length < entropyMinLen := by decide
  have hlow := hall _ (List.contains_iff_mem.mp h)
  rwa [toAsciiLowercase, List.length_map] at hlow

theorem isTokenChar_digestAlgo (h : isDigestAlgo tag = true) : ∀ c ∈ tag, isTokenChar c = true := by
  intro c hc
  rcases Bool.or_eq_true_iff.mp (mem_digestAlgo h hc) with ha | hd
  · exact isTokenChar_of_isAlphanum ha
  · rw [of_decide_eq_true hd]
    decide

theorem precedingContext_tagged (h : isDigestAlgo tag = true) :
    precedingContextIsDigestAlgo (':' :: tag.reverse) = true := by
  have htag : tag.reverse.takeWhile (fun c => c.isAlphanum || c = '-') = tag.reverse :=
    List.takeWhile_eq_self_iff.mpr fun c hc => mem_digestAlgo h (List.mem_reverse.mp hc)
  have hne : tag ≠ [] := List.ne_nil_of_length_pos (length_digestAlgo h).1
  simp [precedingContextIsDigestAlgo, htag, hne, h]

theorem highEntropyToken_tagged (htag : isDigestAlgo tag = true) (hp : ∀ c ∈ payload, isTokenChar c = true)
    (hne : payload ≠ []) :
    highEntropyToken m (tag ++ ':' :: payload) = isSecretToken m (':' :: tag.reverse) payload := by
  have hlen := length_digestAlgo htag
  have hruns : tokenRuns [] [] (tag ++ ':' :: payload) = [([], tag), (':' :: tag.reverse, payload)] := by
    rw [tokenRuns_append_cons (by decide),
      tokenRuns_of_all (isTokenChar_digestAlgo htag) [] [] (by simpa using List.ne_nil_of_length_pos hlen.1),
      tokenRuns_of_all hp _ [] (by simpa using hne)]
    simp
  have hshort : isSecretToken m [] tag = false := if_pos hlen.2
  simp [highEntropyToken, hruns, hshort]

theorem lower_hexDigit {c : Char} (h : isHexDigit c = true) : c.toLower ∈ "0123456789abcdef".toList := by
  have hall : ∀ n < 128, isHexDigit (Char.ofNat n) = true →
      (Char.ofNat n).toLower ∈ "0123456789abcdef".toList := by decide +kernel
  have hlt : c.toNat < 128 := by
    simp only [isHexDigit, Char.isDigit, Bool.or_eq_true, Bool.and_eq_true, decide_eq_true_eq, Char.le_def,
      UInt32.le_iff_toNat_le, ge_iff_le] at h
    simp only [Char.reduceVal, UInt32.reduceToNat] at h
    show c.val.toNat < 128
    omega
  have hc := hall c.toNat hlt
  rw [Char.ofNat_toNat] at hc
  exact hc h

theorem isStructuralSecret_taggedDigest (htag : isDigestAlgo tag = true) (hp : ∀ c ∈ payload, isHexDigit c = true) :
    isStructuralSecret (tag ++ ':' :: payload) = false := by
  have hall : ∀ name ∈ ["sha1", "sha256", "sha-1", "sha-256", "sha512", "sha-512", "blake3", "cas", "oid"].map
      String.toList, (detectorNeedles.all fun needle => needle.any fun c =>
        !(name ++ ":0123456789abcdef".toList).contains c &&
          !(name ++ ":0123456789abcdef".toList).contains c.toLower) = true := by decide +kernel
  refine isStructuralSecret_of_alphabet (fun c hc => ?_) (hall _ (List.contains_iff_mem.mp htag))
  rcases List.mem_append.mp hc with hc | hc
  · exact List.mem_append_left _ (List.mem_map_of_mem hc)
  · refine List.mem_append_right _ ?_
    rcases List.mem_cons.mp hc with rfl | hc
    · decide
    · exact List.mem_cons_of_mem _ (lower_hexDigit (hp c hc))

end Tags

section Base32

variable {text payload : List Char}

def isCasRefChar (c : Char) : Bool :=
  isBase32Digit c || c = ':'

theorem toLower_casRefChar {c : Char} (h : isCasRefChar c = true) : c.toLower = c := by
  apply toLower_eq_self
  delta isCasRefChar isBase32Digit Char.isLower at h
  delta Char.isUpper
  simp only [decide_eq_false_iff_not, Bool.or_eq_true, Bool.and_eq_true, decide_eq_true_eq,
    Char.le_def, UInt32.le_iff_toNat_le, ge_iff_le, Char.ext_iff, ← UInt32.toNat_inj] at h ⊢
  simp only [Char.reduceVal, UInt32.reduceToNat] at h ⊢
  omega

theorem toAsciiLowercase_casRef (htext : ∀ c ∈ text, isCasRefChar c = true) : toAsciiLowercase text = text :=
  (List.map_congr_left fun c hc => toLower_casRefChar (htext c hc)).trans (List.map_id text)

theorem isStructuralSecret_of_casRefChars (htext : ∀ c ∈ text, isCasRefChar c = true) :
    isStructuralSecret text = hasKeywordContextSecret text := by
  have hforeign {needle : List Char} (hn : (needle.any fun c => !isCasRefChar c) = true) :
      ∃ c ∈ needle, c ∉ text := by
    obtain ⟨c, hc, hout⟩ := List.any_eq_true.mp hn
    exact ⟨c, hc, fun h => by simp [htext c h] at hout⟩
  have hcontains {needle : List Char} (hn : (needle.any fun c => !isCasRefChar c) = true) :
      contains text needle = false := by
    obtain ⟨c, hc, hout⟩ := hforeign hn
    exact contains_eq_false hc hout
  have hoccurs {needle : List Char} (hn : (needle.any fun c => !isCasRefChar c) = true) :
      occurrences needle text = [] := by
    obtain ⟨c, hc, hout⟩ := hforeign hn
    exact occurrences_eq_nil hc hout
  have hknown : knownPrefixes.any (contains text) = false := by
    have hall : ∀ needle ∈ knownPrefixes, (needle.any fun c => !isCasRefChar c) = true := by decide
    exact List.any_eq_false.mpr fun needle hn => by simp [hcontains (hall needle hn)]
  have hbearer : hasBearerToken text = false := by
    rw [hasBearerToken, toAsciiLowercase_casRef htext]
    refine List.any_eq_false.mpr fun found hmem hblank => ?_
    obtain ⟨before, after⟩ := found
    obtain ⟨mid, -, rfl⟩ := eq_of_mem_occurrencesFrom hmem
    have hin {c : Char} (hc : after.head? = some c) : isCasRefChar c = true :=
      htext c (by simp [List.mem_of_mem_head? hc])
    rcases Bool.or_eq_true_iff.mp hblank with hb | hb
    · exact absurd (hin (of_decide_eq_true hb)) (by decide)
    · exact absurd (hin (of_decide_eq_true hb)) (by decide)
  have hpem := @hcontains "-----BEGIN".toList (by decide)
  rw [isStructuralSecret, hknown, hbearer, hcontains (by decide), hasSkKey, hoccurs (by decide), hpem,
    hasConnectionStringPassword, hoccurs (by decide)]
  rfl

theorem subset_tag_of_colon {mid kw after : List Char} (hp : ':' ∉ payload)
    (htext : "cas".toList ++ ':' :: payload = mid ++ (kw ++ after)) (hc : ':' ∈ after) : kw ⊆ "cas".toList := by
  obtain ⟨x, y, rfl⟩ := List.append_of_mem hc
  have hy : ':' ∉ y := by
    have hcount := congrArg (List.count ':') htext
    simp only [List.count_append, List.count_cons_self, List.count_eq_zero_of_not_mem hp] at hcount
    rw [← List.count_eq_zero]
    have hcas : List.count ':' "cas".toList = 0 := by decide
    omega
  have htext' : "cas".toList ++ ':' :: payload = (mid ++ (kw ++ x)) ++ ':' :: y := by simpa using htext
  rw [(append_separator_inj hp hy htext').1]
  intro c hk
  simp [hk]

theorem isStructuralSecret_casRef (hp : ∀ c ∈ payload, isBase32Digit c = true) :
    isStructuralSecret ("cas".toList ++ ':' :: payload) = false := by
  have hcolon : ':' ∉ payload := fun hc => absurd (hp _ hc) (by decide)
  have htext : ∀ c ∈ "cas".toList ++ ':' :: payload, isCasRefChar c = true := by
    have hpayload : ∀ c ∈ payload, isCasRefChar c = true := fun c hc => by rw [isCasRefChar, hp c hc, Bool.true_or]
    have htag : "cas".toList.all isCasRefChar = true := by decide
    exact List.forall_mem_append.mpr ⟨List.all_eq_true.mp htag, List.forall_mem_cons.mpr ⟨by decide, hpayload⟩⟩
  rw [isStructuralSecret_of_casRefChars htext, hasKeywordContextSecret, toAsciiLowercase_casRef htext]
  refine List.any_eq_false.mpr fun kw hkw hfound => ?_
  obtain ⟨⟨before, after⟩, hmem, hvalue⟩ := List.any_eq_true.mp hfound
  obtain ⟨mid, -, hsplit⟩ := eq_of_mem_occurrencesFrom hmem
  have hvalue := (Bool.and_eq_true_iff.mp hvalue).2
  cases hsep : after.dropWhile (fun c => decide (c = ' ') || decide (c = '\t')) with
  | nil => simp [hsep] at hvalue
  | cons sep value =>
    have hsepmem : sep ∈ after := (List.dropWhile_sublist _).subset (hsep ▸ List.mem_cons_self)
    rw [hsep] at hvalue
    rcases Bool.or_eq_true_iff.mp (Bool.and_eq_true_iff.mp hvalue).1 with he | he
    · have hin := htext sep (hsplit ▸ by simp [hsepmem])
      rw [of_decide_eq_true he] at hin
      exact absurd hin (by decide)
    · rw [of_decide_eq_true he] at hsepmem
      have hall : ∀ kw ∈ keywordPrefixes, ¬ kw ⊆ "cas".toList := by decide
      exact hall kw hkw (subset_tag_of_colon hcolon hsplit hsepmem)

end Base32

theorem isContentAddressRef_cases {text : List Char} (h : isContentAddressRef text = true) :
    ∃ tag payload, text = tag ++ ':' :: payload ∧ isDigestAlgo tag = true ∧
      (isBareHexDigestShape payload = true ∨
        tag = "cas".toList ∧ 32 ≤ payload.length ∧ ∀ c ∈ payload, isBase32Digit c = true) := by
  rw [isContentAddressRef] at h
  cases hcas : stripPrefix "cas:".toList text with
  | some payload =>
    rw [hcas] at h
    have htext : text = "cas:".toList ++ payload := stripPrefix_eq_some.mp hcas
    refine ⟨"cas".toList, payload, htext, by decide, ?_⟩
    rcases Bool.or_eq_true_iff.mp (Bool.and_eq_true_iff.mp h).1 with hhex | hbase
    · exact .inl hhex
    · obtain ⟨hlen, hall⟩ := Bool.and_eq_true_iff.mp hbase
      have hlong : 32 ≤ payload.length := of_decide_eq_true (Bool.and_eq_true_iff.mp hlen).1
      exact .inr ⟨rfl, hlong, List.all_eq_true.mp hall⟩
  | none =>
    rw [hcas] at h
    cases hsplit : splitOnce ':' text with
    | none => simp [hsplit] at h
    | some parts =>
      rw [hsplit] at h
      obtain ⟨htag, hhex⟩ := Bool.and_eq_true_iff.mp h
      exact ⟨parts.1, parts.2, splitOnce_eq_some hsplit, htag, .inl hhex⟩

theorem isSecret_taggedDigest {m : Measures} {tag payload : List Char} (htag : isDigestAlgo tag = true)
    (h : isBareHexDigestShape payload = true) : isSecret m (tag ++ ':' :: payload) = false := by
  obtain ⟨hl, hall⟩ := Bool.and_eq_true_iff.mp h
  have hhex := List.all_eq_true.mp hall
  have hlen : 40 ≤ payload.length := by
    simp only [Bool.or_eq_true, decide_eq_true_eq] at hl
    omega
  have hne : payload ≠ [] := List.ne_nil_of_length_pos (by omega)
  have hcolon : ':' ∉ payload := fun hc => absurd (hhex _ hc) (by decide)
  have hshort : ¬ payload.length < entropyMinLen := by rw [entropyMinLen]; omega
  rw [isSecret, isStructuralSecret_taggedDigest htag hhex,
    highEntropyToken_tagged htag (fun c hc => isTokenChar_of_isHexDigit (hhex c hc)) hne, isSecretToken,
    if_neg hshort, isContentAddressRef_of_no_colon hcolon, h, precedingContext_tagged htag]
  rfl

theorem isSecret_casRef {m : Measures} {payload : List Char} (hlen : 32 ≤ payload.length)
    (hp : ∀ c ∈ payload, isBase32Digit c = true) (hbare : isBareHexDigestShape payload = false) :
    isSecret m ("cas".toList ++ ':' :: payload) = true ↔
      payload.all isLowerHexDigit = true ∨ entropyThreshold ≤ m.shannonEntropy payload := by
  have halnum : ∀ c ∈ payload, c.isAlphanum = true := fun c hc => isAlphanum_of_isBase32Digit (hp c hc)
  have hne : payload ≠ [] := List.ne_nil_of_length_pos (by omega)
  have hlong : entropyMinLen ≤ payload.length := by rw [entropyMinLen]; omega
  rw [isSecret, isStructuralSecret_casRef hp, Bool.false_or,
    highEntropyToken_tagged (by decide) (fun c hc => isTokenChar_of_isAlphanum (halnum c hc)) hne,
    isSecretToken_of_alphanum halnum hlong hbare]

theorem redactText_contentAddress_iff {m : Measures} (hm : m.Exact) (t : String)
    (h : isContentAddressRef t.toList = true) :
    redactText m t = t ↔
      ∀ payload, t.toList = "cas:".toList ++ payload →
        isBareHexDigestShape payload = true ∨
          payload.all isLowerHexDigit = false ∧ shannon payload < 4 := by
  rw [redactText_eq_self_iff]
  obtain ⟨tag, payload, htext, htag, hshape⟩ := isContentAddressRef_cases h
  have hcolon : ':' ∉ tag := fun hc => absurd (mem_digestAlgo htag hc) (by decide)
  have hsame {payload' : List Char} (hcas : t.toList = "cas:".toList ++ payload') : payload' = payload := by
    have hsplit := congrArg (splitOnce ':') (htext.symm.trans hcas)
    rw [splitOnce_append hcolon, show "cas:".toList ++ payload' = "cas".toList ++ ':' :: payload' from rfl,
      splitOnce_append (by decide)] at hsplit
    exact (Prod.mk.inj (Option.some.inj hsplit)).2.symm
  by_cases hbare : isBareHexDigestShape payload = true
  · rw [htext, isSecret_taggedDigest htag hbare]
    refine iff_of_true rfl fun payload' hcas => .inl ?_
    rw [hsame (htext.trans hcas)]
    exact hbare
  · obtain ⟨rfl, hlen, hp⟩ := hshape.resolve_left hbare
    have hiff := (not_congr (isSecret_casRef (m := m) hlen hp (by simpa using hbare))).trans not_or
    have hfour : (entropyThreshold : ℝ) = 4 := by norm_num [entropyThreshold]
    rw [(hm payload).1, not_le, Bool.not_eq_true, Bool.not_eq_true, ← htext, hfour] at hiff
    rw [hiff]
    constructor
    · rintro hkept payload' hcas
      rw [hsame hcas]
      exact .inr hkept
    · intro hall
      exact (hall payload htext).resolve_left hbare

theorem sha1_empty_survives :
    isContentAddressRef "sha1:da39a3ee5e6b4b0d3255bfef95601890afd80709".toList = true ∧
      redactText halfBits "sha1:da39a3ee5e6b4b0d3255bfef95601890afd80709" =
        "sha1:da39a3ee5e6b4b0d3255bfef95601890afd80709" := by
  have href : isContentAddressRef "sha1:da39a3ee5e6b4b0d3255bfef95601890afd80709".toList = true := by decide +kernel
  refine ⟨href, (redactText_contentAddress_iff halfBits_exact _ href).mpr fun payload hcas => ?_⟩
  have hhead : some 's' = some 'c' := congrArg List.head? hcas
  exact absurd hhead (by decide)

/-- All of its letters are hexadecimal digits, though it is no digest. -/
theorem base32_ref_redacted :
    isContentAddressRef "cas:abcdef234567abcdef234567abcdef23".toList = true ∧
      ∀ m, redactText m "cas:abcdef234567abcdef234567abcdef23" = redactedMarker := by
  refine ⟨by decide +kernel, fun m => if_pos ?_⟩
  have htext : "cas:abcdef234567abcdef234567abcdef23".toList =
      "cas".toList ++ ':' :: "abcdef234567abcdef234567abcdef23".toList := rfl
  have hbase : "abcdef234567abcdef234567abcdef23".toList.all isBase32Digit = true := by decide
  rw [htext, isSecret_casRef (by decide) (List.all_eq_true.mp hbase) (by decide)]
  exact .inl (by decide)

end Hugit

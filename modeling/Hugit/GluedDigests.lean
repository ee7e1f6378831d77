import Hugit.ContentAddresses

/-! A bare digest in free text, and the token that the punctuation around it
makes it part of. -/

namespace Hugit

/-- The text between `p` and `q` is a digest bounded by characters that are
neither letters nor digits, with no algorithm's tag before it. -/
structure BareDigest (p run q : List Char) : Prop where
  shape : isBareHexDigestShape run = true
  left : ∀ c ∈ p.reverse.head?, c.isAlphanum = false
  right : ∀ c ∈ q.head?, c.isAlphanum = false
  untagged : precedingContextIsDigestAlgo p.reverse = false

def gluedToken (p run q : List Char) : List Char :=
  (p.reverse.takeWhile isTokenChar).reverse ++ (run ++ q.takeWhile isTokenChar)

def PathShaped (token : List Char) : Prop :=
  '+' ∉ token ∧ '=' ∉ token ∧ ('/' ∈ token ∨ '-' ∈ token)

section

variable {m : Measures} {p run q : List Char}

theorem BareDigest.hex (h : BareDigest p run q) {c : Char} (hc : c ∈ run) : isHexDigit c = true :=
  List.all_eq_true.mp (Bool.and_eq_true_iff.mp h.shape).2 c hc

theorem BareDigest.length (h : BareDigest p run q) : 40 ≤ run.length := by
  have hl := (Bool.and_eq_true_iff.mp h.shape).1
  simp only [Bool.or_eq_true, decide_eq_true_eq] at hl
  omega

theorem isTokenChar_gluedToken (h : BareDigest p run q) : ∀ c ∈ gluedToken p run q, isTokenChar c = true := by
  intro c hc
  simp only [gluedToken, List.mem_append, List.mem_reverse] at hc
  rcases hc with hc | hc | hc
  · exact List.mem_takeWhile_imp hc
  · exact isTokenChar_of_isHexDigit (h.hex hc)
  · exact List.mem_takeWhile_imp hc

theorem stopsToken_dropWhile (text : List Char) : StopsToken (text.dropWhile isTokenChar) := by
  intro c hc
  have hne : text.dropWhile isTokenChar ≠ [] := by
    intro hnil
    simp [hnil] at hc
  obtain rfl : (text.dropWhile isTokenChar).head hne = c := by
    rw [← Option.some_inj, ← List.head?_eq_some_head]
    exact hc
  exact List.head_dropWhile_not isTokenChar hne

theorem mem_tokenRuns_gluedToken (h : BareDigest p run q) :
    (p.reverse.dropWhile isTokenChar, gluedToken p run q) ∈ tokenRuns [] [] (p ++ (run ++ q)) := by
  have hne : gluedToken p run q ≠ [] := by
    have hrun : run ≠ [] := List.ne_nil_of_length_pos (by have := h.length; omega)
    simp [gluedToken, hrun]
  have hp : p = (p.reverse.dropWhile isTokenChar).reverse ++ (p.reverse.takeWhile isTokenChar).reverse := by
    rw [← List.reverse_append, List.takeWhile_append_dropWhile, List.reverse_reverse]
  have htext : p ++ (run ++ q) = (p.reverse.dropWhile isTokenChar).reverse ++
      (gluedToken p run q ++ q.dropWhile isTokenChar) := by
    conv_lhs => rw [hp, ← List.takeWhile_append_dropWhile (p := isTokenChar) (l := q)]
    simp [gluedToken]
  rw [htext]
  exact mem_tokenRuns hne (isTokenChar_gluedToken h) (stopsToken_dropWhile _) (stopsToken_dropWhile _)

theorem isTokenChar_cases {c : Char} (h : isTokenChar c = true) (hc : c.isAlphanum = false) :
    c = '+' ∨ c = '/' ∨ c = '=' ∨ c = '-' ∨ c = '_' := by
  simpa [isTokenChar, hc, or_assoc] using h

theorem takeWhile_nil_or_stop {f : Char → Bool} (text : List Char) :
    text.takeWhile f = [] ∨ ∃ c rest, text.takeWhile f = c :: rest ∧ c ∈ text.head? ∧ f c = true := by
  cases text with
  | nil => exact .inl rfl
  | cons c text =>
    by_cases hc : f c = true
    · exact .inr ⟨c, text.takeWhile f, by simp [hc], rfl, hc⟩
    · exact .inl (by simp [hc])

theorem hexDigit_isAlphanum {c : Char} (h : isHexDigit c = true) : c.isAlphanum = true := by
  by_contra hc
  rcases isTokenChar_cases (isTokenChar_of_isHexDigit h) (by simpa using hc) with rfl | rfl | rfl | rfl | rfl <;>
    exact absurd h (by decide)

theorem BareDigest.exists_punctuation (h : BareDigest p run q) (hne : gluedToken p run q ≠ run) :
    ∃ c ∈ gluedToken p run q, c.isAlphanum = false := by
  rcases takeWhile_nil_or_stop (f := isTokenChar) p.reverse with hp | ⟨c, rest, hp, hc, -⟩
  · rcases takeWhile_nil_or_stop (f := isTokenChar) q with hq | ⟨c, rest, hq, hc, -⟩
    · exact absurd (by simp [gluedToken, hp, hq]) hne
    · exact ⟨c, by simp [gluedToken, hq], h.right c hc⟩
  · exact ⟨c, by simp [gluedToken, hp], h.left c hc⟩

def isPathSeparator (c : Char) : Bool :=
  c = '.' || c = '_' || c = '/' || c = '-'

theorem PathShaped.separator {token : List Char} (h : PathShaped token) {c : Char} (hmem : c ∈ token)
    (ht : isTokenChar c = true) (hc : c.isAlphanum = false) : isPathSeparator c = true := by
  rcases isTokenChar_cases ht hc with rfl | rfl | rfl | rfl | rfl
  · exact absurd hmem h.1
  · rfl
  · exact absurd hmem h.2.1
  · rfl
  · rfl

theorem BareDigest.mem_pathSegments (h : BareDigest p run q) (hpath : PathShaped (gluedToken p run q)) :
    run ∈ pathSegments (gluedToken p run q) := by
  have hrun : ∀ c ∈ run, isPathSeparator c = false := by
    intro c hc
    have halnum := hexDigit_isAlphanum (h.hex hc)
    by_contra hsep
    have hsep : isPathSeparator c = true := by simpa using hsep
    have hcases : c = '.' ∨ c = '_' ∨ c = '/' ∨ c = '-' := by simpa [isPathSeparator, or_assoc] using hsep
    rcases hcases with rfl | rfl | rfl | rfl <;> exact absurd halnum (by decide)
  have hright : run ∈ (run ++ q.takeWhile isTokenChar).splitOnP isPathSeparator := by
    rcases takeWhile_nil_or_stop (f := isTokenChar) q with hq | ⟨c, rest, hq, hc, ht⟩
    · simp [hq, List.splitOnP_eq_singleton hrun]
    · have hsep := hpath.separator (by simp [gluedToken, hq]) ht (h.right c hc)
      simp [hq, List.splitOnP_append_cons_of_forall_mem hrun c hsep]
  show run ∈ (gluedToken p run q).splitOnP isPathSeparator
  rcases takeWhile_nil_or_stop (f := isTokenChar) p.reverse with hp | ⟨c, rest, hp, hc, ht⟩
  · rwa [gluedToken, hp]
  · have hsep := hpath.separator (by simp [gluedToken, hp]) ht (h.left c hc)
    rw [gluedToken, hp, List.reverse_cons, List.append_assoc, List.singleton_append,
      List.splitOnP_append_cons _ _ hsep]
    exact List.mem_append_right _ hright

theorem pathShaped_iff {token : List Char} (ht : ∀ c ∈ token, isTokenChar c = true) :
    PathShaped token ↔
      token.all (fun c => c.isAlphanum || c = '.' || c = '_' || c = '/' || c = '-') = true ∧
        token.any (fun c => c = '/' || c = '-') = true := by
  have hall : token.all (fun c => c.isAlphanum || c = '.' || c = '_' || c = '/' || c = '-') = true ↔
      '+' ∉ token ∧ '=' ∉ token := by
    rw [List.all_eq_true]
    constructor
    · intro h
      exact ⟨fun hc => absurd (h _ hc) (by decide), fun hc => absurd (h _ hc) (by decide)⟩
    · rintro ⟨hplus, heq⟩ c hc
      by_cases halnum : c.isAlphanum = true
      · simp [halnum]
      · rcases isTokenChar_cases (ht c hc) (by simpa using halnum) with rfl | rfl | rfl | rfl | rfl
        · exact absurd hc hplus
        · rfl
        · exact absurd hc heq
        · rfl
        · rfl
  have hany : token.any (fun c => c = '/' || c = '-') = true ↔ '/' ∈ token ∨ '-' ∈ token := by
    simp [and_or_left, exists_or]
  rw [PathShaped, hall, hany, and_assoc]

theorem classifyPathToken_of_not_pathShaped {token : List Char} (ht : ∀ c ∈ token, isTokenChar c = true)
    (h : ¬ PathShaped token) : classifyPathToken m token = none := by
  rw [pathShaped_iff ht, not_and_or, Bool.not_eq_true, Bool.not_eq_true] at h
  rcases h with hall | hany
  · rw [classifyPathToken, hall, Bool.not_false, if_pos rfl]
  · rw [classifyPathToken, hany, Bool.not_false, if_pos rfl, ite_self]

theorem classifyPathToken_of_secretSegment {token segment : List Char} (ht : ∀ c ∈ token, isTokenChar c = true)
    (h : PathShaped token) (hmem : segment ∈ pathSegments token) (hs : isSecretSegment m segment = true) :
    classifyPathToken m token = some .redact := by
  obtain ⟨hall, hany⟩ := (pathShaped_iff ht).mp h
  have hsegment : (pathSegments token).any (isSecretSegment m) = true := List.any_eq_true.mpr ⟨segment, hmem, hs⟩
  rw [classifyPathToken, hall, hany, hsegment]
  simp

theorem isSecretToken_gluedToken (h : BareDigest p run q) :
    isSecretToken m (p.reverse.dropWhile isTokenChar) (gluedToken p run q) = true ↔
      gluedToken p run q = run ∨ PathShaped (gluedToken p run q) ∨
        entropyThreshold ≤ m.shannonEntropy (gluedToken p run q) := by
  have htoken := isTokenChar_gluedToken h
  have hcolon : ':' ∉ gluedToken p run q := fun hc => absurd (htoken _ hc) (by decide)
  have hlen : ¬ (gluedToken p run q).length < entropyMinLen := by
    have hrun := h.length
    simp only [gluedToken, List.length_append, entropyMinLen]
    omega
  rw [isSecretToken, if_neg hlen, isContentAddressRef_of_no_colon hcolon]
  by_cases hfree : gluedToken p run q = run
  · have hbefore : p.reverse.dropWhile isTokenChar = p.reverse := by
      have hl := congrArg List.length hfree
      simp only [gluedToken, List.length_append, List.length_reverse] at hl
      have hnil : p.reverse.takeWhile isTokenChar = [] := List.eq_nil_of_length_eq_zero (by omega)
      conv_rhs => rw [← List.takeWhile_append_dropWhile (p := isTokenChar) (l := p.reverse), hnil, List.nil_append]
    simp [hfree, h.shape, hbefore, h.untagged]
  · obtain ⟨c, hmem, hc⟩ := h.exists_punctuation hfree
    have hhex : isHexDigit c = false := by
      by_contra hh
      rw [hexDigit_isAlphanum (by simpa using hh)] at hc
      cases hc
    have hbare : isBareHexDigestShape (gluedToken p run q) = false := by
      have hall : (gluedToken p run q).all isHexDigit = false := List.all_eq_false.mpr ⟨c, hmem, by simp [hhex]⟩
      rw [isBareHexDigestShape, hall, Bool.and_false]
    have hlower : (gluedToken p run q).all isLowerHexDigit = false := by
      refine List.all_eq_false.mpr ⟨c, hmem, fun hl => ?_⟩
      rw [isHexDigit_of_isLowerHexDigit hl] at hhex
      cases hhex
    have hfold : ((gluedToken p run q).all fun c => c.isDigit || ('a' ≤ c && c ≤ 'f')) =
        (gluedToken p run q).all isLowerHexDigit := rfl
    rw [hbare, hfold, hlower]
    by_cases hpath : PathShaped (gluedToken p run q)
    · have hne : run ≠ [] := List.ne_nil_of_length_pos (by have := h.length; omega)
      have hs : isSecretSegment m run = true := by simp [isSecretSegment, hne, h.shape]
      simp [classifyPathToken_of_secretSegment htoken hpath (h.mem_pathSegments hpath) hs, hpath]
    · simp [classifyPathToken_of_not_pathShaped htoken hpath, hpath, hfree]

end

theorem redactText_eq_marker_iff {m : Measures} {text : String} (h : redactedMarker.length < text.length) :
    redactText m text = redactedMarker ↔ isSecret m text.toList = true := by
  rw [redactText]
  split_ifs with hs
  · exact iff_of_true rfl hs
  · refine iff_of_false (fun he => ?_) hs
    rw [he] at h
    exact lt_irrefl _ h

/-- A text that holds a bare digest is redacted exactly when the digest's own
token is a secret one, or something else in the text is. -/
theorem bareDigest_redacted_iff (m : Measures) (p run q : String) (h : BareDigest p.toList run.toList q.toList) :
    redactText m (p ++ run ++ q) = redactedMarker ↔
      (gluedToken p.toList run.toList q.toList = run.toList ∨
        PathShaped (gluedToken p.toList run.toList q.toList) ∨
        entropyThreshold ≤ m.shannonEntropy (gluedToken p.toList run.toList q.toList)) ∨
      isStructuralSecret (p ++ run ++ q).toList = true ∨
      ∃ other ∈ tokenRuns [] [] (p ++ run ++ q).toList,
        other ≠ (p.toList.reverse.dropWhile isTokenChar, gluedToken p.toList run.toList q.toList) ∧
          isSecretToken m other.1 other.2 = true := by
  have htext : (p ++ run ++ q).toList = p.toList ++ (run.toList ++ q.toList) := by simp
  have hlong : redactedMarker.length < (p ++ run ++ q).length := by
    have hrun := h.length
    rw [String.length_toList] at hrun
    have hmarker : redactedMarker.length = 10 := rfl
    rw [String.length_append, String.length_append]
    omega
  rw [redactText_eq_marker_iff hlong, ← isSecretToken_gluedToken h, isSecret, Bool.or_eq_true, highEntropyToken,
    List.any_eq_true]
  have hown := mem_tokenRuns_gluedToken h
  rw [← htext] at hown
  constructor
  · rintro (hstructural | ⟨found, hmem, hsecret⟩)
    · exact .inr (.inl hstructural)
    · by_cases hsame :
        found = (p.toList.reverse.dropWhile isTokenChar, gluedToken p.toList run.toList q.toList)
      · subst hsame
        exact .inl hsecret
      · exact .inr (.inr ⟨found, hmem, hsame, hsecret⟩)
  · rintro (hsecret | hstructural | ⟨found, hmem, -, hsecret⟩)
    · exact .inr ⟨_, hown, hsecret⟩
    · exact .inl hstructural
    · exact .inr ⟨found, hmem, hsecret⟩

theorem rotateHmac_redacted :
    BareDigest "rotate HMAC ".toList "3f786850e387550fdab836ed7e6dc881de23001b".toList " before merge".toList ∧
      redactText halfBits ("rotate HMAC " ++ "3f786850e387550fdab836ed7e6dc881de23001b" ++ " before merge") =
        redactedMarker := by
  have h : BareDigest "rotate HMAC ".toList "3f786850e387550fdab836ed7e6dc881de23001b".toList
      " before merge".toList := by
    refine ⟨by decide, fun c hc => ?_, fun c hc => ?_, by decide⟩
    · obtain rfl : ' ' = c := Option.some.inj hc
      decide
    · obtain rfl : ' ' = c := Option.some.inj hc
      decide
  exact ⟨h, (bareDigest_redacted_iff halfBits _ _ _ h).mpr (.inl (.inl (by decide)))⟩

/-- The digest is the one of the witness; an assignment hides it. -/
theorem assignedDigest_kept :
    BareDigest "a=".toList "3f786850e387550fdab836ed7e6dc881de23001b".toList "".toList ∧
      redactText halfBits "a=3f786850e387550fdab836ed7e6dc881de23001b" =
        "a=3f786850e387550fdab836ed7e6dc881de23001b" := by
  have h : BareDigest "a=".toList "3f786850e387550fdab836ed7e6dc881de23001b".toList "".toList := by
    refine ⟨by decide, fun c hc => ?_, fun c hc => (by cases hc), by decide⟩
    obtain rfl : '=' = c := Option.some.inj hc
    decide
  refine ⟨h, redactText_eq_self_iff.mpr ?_⟩
  have hruns : tokenRuns [] [] "a=3f786850e387550fdab836ed7e6dc881de23001b".toList =
      [([], "a=3f786850e387550fdab836ed7e6dc881de23001b".toList)] := by decide +kernel
  have hbits : shannon "a=3f786850e387550fdab836ed7e6dc881de23001b".toList < 4 := by
    refine lt_of_le_of_lt (shannon_le_logb_card (by decide)) ?_
    have hcard : ("a=3f786850e387550fdab836ed7e6dc881de23001b".toList).toFinset.card = 15 := by decide +kernel
    rw [hcard, Real.logb_lt_iff_lt_rpow (by norm_num) (by norm_num)]
    norm_num
  have htoken : isSecretToken halfBits [] "a=3f786850e387550fdab836ed7e6dc881de23001b".toList ≠ true := by
    intro hsecret
    rcases (isSecretToken_gluedToken h).mp hsecret with hfree | hpath | hentropy
    · exact absurd hfree (by decide)
    · exact hpath.2.1 (by decide)
    · have hreal := (halfBits_exact _).1.mp hentropy
      have hfour : (entropyThreshold : ℝ) = 4 := by norm_num [entropyThreshold]
      rw [hfour] at hreal
      exact absurd hbits hreal.not_gt
  have hstructural : isStructuralSecret "a=3f786850e387550fdab836ed7e6dc881de23001b".toList = false := by
    decide +kernel
  rw [isSecret, hstructural, highEntropyToken, hruns]
  simpa using htoken

end Hugit

import Hugit.TextRedaction
import Hugit.TextSearch

/-! What a detector finds in a text it also finds in every longer text in which
that text stands between two blanks. -/

namespace Hugit

variable {m : Measures} {p s q before after token : List Char}

theorem tokenRuns_append_cons {c : Char} (hc : isTokenChar c = false) (before run text rest : List Char) :
    tokenRuns before run (text ++ c :: rest) =
      tokenRuns before run text ++ tokenRuns (c :: (text.reverse ++ (run ++ before))) [] rest := by
  induction text generalizing before run with
  | nil =>
    by_cases hr : run = []
    · simp [tokenRuns, hc, hr]
    · simp [tokenRuns, hc, hr]
  | cons d text ih =>
    rw [List.cons_append, tokenRuns, tokenRuns]
    split_ifs with hd hr
    · rw [ih, List.reverse_cons, List.append_assoc, List.cons_append, List.singleton_append]
    · rw [ih, hr]
      simp
    · rw [ih, List.cons_append]
      simp

theorem tokenRuns_append_tokens (h : ∀ c ∈ token, isTokenChar c = true) (before run rest : List Char) :
    tokenRuns before run (token ++ rest) = tokenRuns before (token.reverse ++ run) rest := by
  induction token generalizing run with
  | nil => rfl
  | cons c token ih =>
    rw [List.cons_append, tokenRuns, if_pos (h c (by simp)), ih fun d hd => h d (List.mem_cons_of_mem _ hd)]
    simp

/-- The text ends here or goes on with a character no token has. -/
def StopsToken (text : List Char) : Prop :=
  ∀ c ∈ text.head?, isTokenChar c = false

theorem tokenRuns_of_stops (run : List Char) (hr : run ≠ []) (h : StopsToken after) :
    (before, run.reverse) ∈ tokenRuns before run after := by
  cases after with
  | nil => simp [tokenRuns, hr]
  | cons c after => simp [tokenRuns, h c rfl, hr]

theorem mem_tokenRuns (hne : token ≠ []) (ht : ∀ c ∈ token, isTokenChar c = true)
    (hb : StopsToken before) (ha : StopsToken after) :
    (before, token) ∈ tokenRuns [] [] (before.reverse ++ (token ++ after)) := by
  have hrun : (before, token) ∈ tokenRuns before [] (token ++ after) := by
    rw [tokenRuns_append_tokens ht]
    simpa using tokenRuns_of_stops token.reverse (by simpa using hne) ha
  cases before with
  | nil => exact hrun
  | cons c before =>
    rw [List.reverse_cons, List.append_assoc, List.singleton_append,
      tokenRuns_append_cons (hb c rfl)]
    exact List.mem_append_right _ (by simpa using hrun)

theorem tokenRuns_maximal {text run b : List Char} (hrun : ∀ c ∈ run, isTokenChar c = true)
    (hb : StopsToken before) (h : (b, token) ∈ tokenRuns before run text) :
    token ≠ [] ∧ (∀ c ∈ token, isTokenChar c = true) ∧ StopsToken b ∧
      ∃ after, StopsToken after ∧ before.reverse ++ (run.reverse ++ text) = b.reverse ++ (token ++ after) := by
  induction text generalizing before run with
  | nil =>
    rw [tokenRuns] at h
    split_ifs at h with hr
    · cases h
    · obtain ⟨rfl, rfl⟩ := Prod.mk.inj (List.mem_singleton.mp h)
      exact ⟨by simpa using hr, by simpa using hrun, hb, [], by simp [StopsToken], rfl⟩
  | cons c text ih =>
    rw [tokenRuns] at h
    split_ifs at h with hc hr
    · have hrun' : ∀ d ∈ c :: run, isTokenChar d = true := List.forall_mem_cons.mpr ⟨hc, hrun⟩
      simpa using ih hrun' hb h
    · have hstop : StopsToken (c :: before) := by simpa [StopsToken] using hc
      have hh := ih (List.forall_mem_nil _) hstop h
      simpa [hr] using hh
    · rcases List.mem_cons.mp h with he | h
      · obtain ⟨rfl, rfl⟩ := Prod.mk.inj he
        have hstop : StopsToken (c :: text) := by simpa [StopsToken] using hc
        exact ⟨by simpa using hr, by simpa using hrun, hb, c :: text, hstop, rfl⟩
      · have hstop : StopsToken (c :: (run ++ before)) := by simpa [StopsToken] using hc
        have hh := ih (List.forall_mem_nil _) hstop h
        simpa using hh

theorem stopsToken_space (text : List Char) : StopsToken (' ' :: text) := by
  intro c hc
  obtain rfl : ' ' = c := by simpa using hc
  decide

theorem StopsToken.append_space (h : StopsToken before) (text : List Char) :
    StopsToken (before ++ ' ' :: text) := by
  cases before with
  | nil => exact stopsToken_space text
  | cons c before => exact h

theorem mem_tokenRuns_context (h : (before, token) ∈ tokenRuns [] [] s) :
    (before ++ ' ' :: p.reverse, token) ∈ tokenRuns [] [] (p ++ ' ' :: (s ++ ' ' :: q)) := by
  obtain ⟨hne, ht, hb, after, ha, hs⟩ := tokenRuns_maximal (by simp) (by simp [StopsToken]) h
  have hh := mem_tokenRuns hne ht (hb.append_space p.reverse) (ha.append_space q)
  have htext : s = before.reverse ++ (token ++ after) := by simpa using hs
  simpa [htext] using hh

theorem precedingContext_append_space (text : List Char) :
    precedingContextIsDigestAlgo (before ++ ' ' :: text) = precedingContextIsDigestAlgo before := by
  cases before with
  | nil => rfl
  | cons c before =>
    by_cases hc : c = ':'
    · subst hc
      have htag := takeWhile_append_cons (p := fun c : Char => c.isAlphanum || decide (c = '-'))
        (c := ' ') (by decide) before text
      simp only [List.cons_append, precedingContextIsDigestAlgo, htag]
    · rw [List.cons_append, precedingContextIsDigestAlgo.eq_def, precedingContextIsDigestAlgo.eq_def]
      split
      · rename_i he
        exact absurd (List.cons.inj he).1 hc
      · split
        · rename_i he
          exact absurd (List.cons.inj he).1 hc
        · rfl

theorem isSecretToken_append_space (m : Measures) (before token text : List Char) :
    isSecretToken m (before ++ ' ' :: text) token = isSecretToken m before token := by
  rw [isSecretToken, isSecretToken, precedingContext_append_space]

theorem highEntropyToken_context (h : highEntropyToken m s = true) :
    highEntropyToken m (p ++ ' ' :: (s ++ ' ' :: q)) = true := by
  obtain ⟨⟨before, token⟩, hmem, htoken⟩ := List.any_eq_true.mp h
  have hcontext := isSecretToken_append_space m before token p.reverse
  exact List.any_eq_true.mpr ⟨_, mem_tokenRuns_context hmem, hcontext.trans htoken⟩

theorem context_infix : s <:+: p ++ ' ' :: (s ++ ' ' :: q) :=
  ⟨p ++ [' '], ' ' :: q, by simp⟩

theorem contains_context {needle : List Char} (h : contains s needle = true) :
    contains (p ++ ' ' :: (s ++ ' ' :: q)) needle = true :=
  decide_eq_true ((of_decide_eq_true h : needle <:+: s).trans context_infix)

theorem mem_occurrences_context {needle : List Char} (hn : Borderless needle) (hne : needle ≠ [])
    (h : (before, after) ∈ occurrences needle s) :
    (before ++ ' ' :: p.reverse, after ++ ' ' :: q) ∈
      occurrences needle (p ++ ' ' :: (s ++ ' ' :: q)) := by
  simpa using hn.mem_occurrences_append hne h (p ++ [' ']) (' ' :: q)

theorem toAsciiLowercase_context :
    toAsciiLowercase (p ++ ' ' :: (s ++ ' ' :: q)) =
      toAsciiLowercase p ++ ' ' :: (toAsciiLowercase s ++ ' ' :: toAsciiLowercase q) := by
  simp only [toAsciiLowercase, List.map_append, List.map_cons]
  rfl

theorem hasBearerToken_context (h : hasBearerToken s = true) :
    hasBearerToken (p ++ ' ' :: (s ++ ' ' :: q)) = true := by
  obtain ⟨⟨before, after⟩, hmem, hblank⟩ := List.any_eq_true.mp h
  rw [hasBearerToken, toAsciiLowercase_context]
  refine List.any_eq_true.mpr ⟨_, mem_occurrences_context (by decide) (by decide) hmem, ?_⟩
  cases after with
  | nil => simp at hblank
  | cons c after => simpa using hblank

theorem hasSkKey_context (h : hasSkKey s = true) : hasSkKey (p ++ ' ' :: (s ++ ' ' :: q)) = true := by
  obtain ⟨⟨before, after⟩, hmem, hrun⟩ := List.any_eq_true.mp h
  refine List.any_eq_true.mpr ⟨_, mem_occurrences_context (by decide) (by decide) hmem, ?_⟩
  have hsame := takeWhile_append_cons (p := isTokenChar) (c := ' ') (by decide) after q
  dsimp only at hrun ⊢
  rw [hsame]
  exact hrun

theorem takeWhile_isPrefix_append {f : Char → Bool} (text rest : List Char) :
    text.takeWhile f <+: (text ++ rest).takeWhile f := by
  rw [List.takeWhile_append]
  split_ifs with hl
  · rw [(List.takeWhile_prefix f).eq_of_length hl]
    exact List.prefix_append text _
  · exact List.prefix_rfl

theorem hasConnectionStringPassword_context (h : hasConnectionStringPassword s = true) :
    hasConnectionStringPassword (p ++ ' ' :: (s ++ ' ' :: q)) = true := by
  obtain ⟨⟨before, after⟩, hmem, hpass⟩ := List.any_eq_true.mp h
  refine List.any_eq_true.mpr ⟨_, mem_occurrences_context (by decide) (by decide) hmem, ?_⟩
  -- the authority can only grow behind the user information
  obtain ⟨more, hmore⟩ := takeWhile_isPrefix_append
    (f := fun c => c ≠ '/' && c ≠ '?' && c ≠ '#') after (' ' :: q)
  dsimp only at hpass ⊢
  rw [← hmore]
  cases hat : splitOnce '@' (after.takeWhile fun c => c ≠ '/' && c ≠ '?' && c ≠ '#') with
  | none =>
    rw [hat] at hpass
    cases hpass
  | some parts =>
    rw [splitOnce_append_right hat]
    rw [hat] at hpass
    exact hpass

theorem trimStart_append_ne_nil {text : List Char} (h : trimStart text ≠ []) (rest : List Char) :
    trimStart (text ++ rest) ≠ [] := by
  obtain ⟨c, cs, hc⟩ := List.exists_cons_of_ne_nil h
  rw [trimStart] at hc
  rw [trimStart, List.dropWhile_append, hc]
  simp

theorem drop_context {n : Nat} (h : n ≤ s.length) :
    (p ++ ' ' :: (s ++ ' ' :: q)).drop
        ((p ++ ' ' :: (s ++ ' ' :: q)).length - (n + (' ' :: q).length)) =
      s.drop (s.length - n) ++ ' ' :: q := by
  have hlen : (p ++ ' ' :: (s ++ ' ' :: q)).length - (n + (' ' :: q).length) =
      (p ++ [' ']).length + (s.length - n) := by
    simp only [List.length_append, List.length_cons, List.length_nil]
    omega
  have hsplit : p ++ ' ' :: (s ++ ' ' :: q) = (p ++ [' ']) ++ (s ++ ' ' :: q) := by simp
  rw [hlen, hsplit, List.drop_length_add_append, List.drop_append_of_le_length (Nat.sub_le _ _)]

theorem keywordPrefixes_borderless : ∀ kw ∈ keywordPrefixes, Borderless kw ∧ kw ≠ [] := by decide

theorem hasKeywordContextSecret_context (h : hasKeywordContextSecret s = true) :
    hasKeywordContextSecret (p ++ ' ' :: (s ++ ' ' :: q)) = true := by
  obtain ⟨kw, hkw, hfound⟩ := List.any_eq_true.mp h
  obtain ⟨⟨before, after⟩, hmem, hvalue⟩ := List.any_eq_true.mp hfound
  obtain ⟨hborder, hne⟩ := keywordPrefixes_borderless kw hkw
  refine List.any_eq_true.mpr ⟨kw, hkw, ?_⟩
  rw [toAsciiLowercase_context]
  refine List.any_eq_true.mpr ⟨_, mem_occurrences_context hborder hne hmem, ?_⟩
  obtain ⟨hword, hvalue⟩ := Bool.and_eq_true_iff.mp hvalue
  have hword' : ((before ++ ' ' :: (toAsciiLowercase p).reverse).head?.all fun c => !c.isAlphanum) = true := by
    cases before with
    | nil => rfl
    | cons c before => exact hword
  dsimp only at hvalue ⊢
  rw [hword', Bool.true_and, List.dropWhile_append]
  cases hsep : after.dropWhile (fun c => decide (c = ' ') || decide (c = '\t')) with
  | nil => simp [hsep] at hvalue
  | cons sep value =>
    rw [hsep] at hvalue
    obtain ⟨hs, ht⟩ := Bool.and_eq_true_iff.mp hvalue
    have hlen : value.length ≤ s.length := by
      obtain ⟨mid, -, htext⟩ := eq_of_mem_occurrencesFrom hmem
      have hl := congrArg List.length htext
      have hd := (List.dropWhile_sublist (fun c => decide (c = ' ') || decide (c = '\t')) (l := after)).length_le
      rw [hsep] at hd
      simp only [toAsciiLowercase, List.length_map, List.length_append, List.length_cons] at hl hd
      omega
    have hq : value.length + (' ' :: toAsciiLowercase q).length = value.length + (' ' :: q).length := by
      simp [toAsciiLowercase]
    simp only [List.isEmpty_cons, Bool.false_eq_true, if_false, List.cons_append, hs, Bool.true_and,
      List.length_append, hq]
    rw [← List.length_append, drop_context hlen]
    exact decide_eq_true (trimStart_append_ne_nil (of_decide_eq_true ht) _)

theorem isStructuralSecret_context (h : isStructuralSecret s = true) :
    isStructuralSecret (p ++ ' ' :: (s ++ ' ' :: q)) = true := by
  simp only [isStructuralSecret, Bool.or_eq_true, Bool.and_eq_true] at h ⊢
  rcases h with (((((hmarker | hknown) | hbearer) | hsk) | hpem) | hconn) | hword
  · exact .inl (.inl (.inl (.inl (.inl (.inl (contains_context hmarker))))))
  · obtain ⟨needle, hn, hc⟩ := List.any_eq_true.mp hknown
    have hany := List.any_eq_true.mpr ⟨needle, hn, contains_context (p := p) (q := q) hc⟩
    exact .inl (.inl (.inl (.inl (.inl (.inr hany)))))
  · exact .inl (.inl (.inl (.inl (.inr (hasBearerToken_context hbearer)))))
  · exact .inl (.inl (.inl (.inr (hasSkKey_context hsk))))
  · exact .inl (.inl (.inr ⟨contains_context hpem.1, contains_context hpem.2⟩))
  · exact .inl (.inr (hasConnectionStringPassword_context hconn))
  · exact .inr (hasKeywordContextSecret_context hword)

theorem isSecret_context (m : Measures) (p s q : String) (h : isSecret m s.toList = true) :
    isSecret m (p ++ " " ++ s ++ " " ++ q).toList = true := by
  have htext : (p ++ " " ++ s ++ " " ++ q).toList = p.toList ++ ' ' :: (s.toList ++ ' ' :: q.toList) := by
    simp
  rw [htext]
  rcases Bool.or_eq_true_iff.mp h with hstructural | htoken
  · rw [isSecret, isStructuralSecret_context hstructural, Bool.true_or]
  · rw [isSecret, highEntropyToken_context htoken, Bool.or_true]

theorem sentence_context :
    isSecret ⟨fun _ => 0⟩ "pwd=short".toList = true ∧
      isSecret ⟨fun _ => 0⟩ ("log in with" ++ " " ++ "pwd=short" ++ " " ++ "today").toList = true := by
  have h : isSecret ⟨fun _ => 0⟩ "pwd=short".toList = true := by decide +kernel
  exact ⟨h, isSecret_context _ "log in with" "pwd=short" "today" h⟩

end Hugit

import Hugit.JsonRoundTrip

/-! Limits of the JSON reader: a text inside a document is shorter than the
document, and a document that nests too deep is refused. -/

namespace Hugit

mutual

def longestText : Value → Nat
  | .string text => text.length
  | .array items => longestItem items
  | .object fields => longestField fields
  | _ => 0

def longestItem : List Value → Nat
  | [] => 0
  | v :: vs => max (longestText v) (longestItem vs)

def longestField : List (String × Value) → Nat
  | [] => 0
  | (_, v) :: fields => max (longestText v) (longestField fields)

end

namespace JsonText

theorem length_skipBlank_le (cs : List Char) : (skipBlank cs).length ≤ cs.length := by
  induction cs with
  | nil => simp [skipBlank]
  | cons c cs ih =>
    rw [skipBlank]
    split_ifs
    · exact Nat.le_succ_of_le ih
    · exact Nat.le_refl _

theorem length_readHex4 {cs rest : List Char} {n : Nat} (h : readHex4 cs = some (n, rest)) :
    rest.length < cs.length := by
  unfold readHex4 at h
  split at h
  · simp only [bind, Option.bind_eq_some_iff, Option.some.injEq, Prod.mk.injEq] at h
    obtain ⟨_, _, _, _, _, _, _, _, -, rfl⟩ := h
    simp only [List.length_cons]
    omega
  · cases h

theorem length_readEscape {cs rest : List Char} {c : Char} (h : readEscape cs = some (c, rest)) :
    rest.length < cs.length := by
  unfold readEscape at h
  split at h
  case h_9 =>
    split at h
    · cases h
    · next hi mid hmid =>
      have hlen := length_readHex4 hmid
      split_ifs at h
      · split at h
        · next low =>
          split at h
          · cases h
          · next lo tail hlow =>
            have hlow := length_readHex4 hlow
            split_ifs at h
            obtain ⟨-, rfl⟩ := by simpa using h
            simp only [List.length_cons] at hlen ⊢
            omega
        · cases h
      · obtain ⟨-, rfl⟩ := by simpa using h
        exact Nat.lt_succ_of_lt hlen
  case h_10 => cases h
  all_goals
    obtain ⟨-, rfl⟩ := by simpa using h
    simp

theorem length_readText {fuel : Nat} {cs text rest : List Char} (h : readText fuel cs = some (text, rest)) :
    text.length + rest.length < cs.length := by
  induction fuel generalizing cs text rest with
  | zero => cases h
  | succ fuel ih =>
    cases cs with
    | nil => cases h
    | cons c cs =>
      rw [readText] at h
      split_ifs at h
      · obtain ⟨rfl, rfl⟩ := by simpa using h
        simp
      · simp only [bind, Option.bind_eq_some_iff, Option.some.injEq, Prod.mk.injEq] at h
        obtain ⟨⟨e, mid⟩, he, ⟨s, tail⟩, hs, rfl, rfl⟩ := h
        have hescape := length_readEscape he
        have htext : s.length + tail.length < mid.length := ih hs
        simp only [List.length_cons]
        omega
      · simp only [bind, Option.bind_eq_some_iff, Option.some.injEq, Prod.mk.injEq] at h
        obtain ⟨⟨s, tail⟩, hs, rfl, rfl⟩ := h
        have htext := ih hs
        simp only [List.length_cons]
        omega

theorem length_readFraction {cs fraction rest : List Char} (h : readFraction cs = some (fraction, rest)) :
    rest.length ≤ cs.length := by
  unfold readFraction at h
  split at h
  · dsimp only at h
    split_ifs at h
    obtain ⟨-, rfl⟩ := Prod.mk.inj (Option.some.inj h)
    exact Nat.le_succ_of_le (List.dropWhile_suffix _).length_le
  · obtain ⟨-, rfl⟩ := by simpa using h
    exact Nat.le_refl _

theorem length_readExponent {cs exponent rest : List Char} (h : readExponent cs = some (exponent, rest)) :
    rest.length ≤ cs.length := by
  unfold readExponent at h
  split at h
  · obtain ⟨-, rfl⟩ := by simpa using h
    exact Nat.le_refl _
  · dsimp only at h
    split_ifs at h
    · obtain ⟨-, rfl⟩ := Prod.mk.inj (Option.some.inj h)
      exact Nat.le_succ_of_le ((List.dropWhile_suffix _).trans (List.dropWhile_suffix _)).length_le
    · obtain ⟨-, rfl⟩ := by simpa using h
      exact Nat.le_refl _

theorem length_readNumber {negative : Bool} {cs rest : List Char} {n : Number}
    (h : readNumber negative cs = some (n, rest)) : rest.length < cs.length := by
  obtain ⟨hgood, fraction, mid, exponent, hf, he, -⟩ := readNumber_eq_some.mp h
  have hdigits : 0 < (cs.takeWhile Char.isDigit).length :=
    List.length_pos_iff.mpr fun hnil => hgood (.inl hnil)
  have hsplit := congrArg List.length (List.takeWhile_append_dropWhile (p := Char.isDigit) (l := cs))
  have hfraction := length_readFraction hf
  have hexponent := length_readExponent he
  rw [List.length_append] at hsplit
  omega

theorem longestField_insertKey (key : String) (v : Value) (fields : List (String × Value)) :
    longestField (insertKey key v fields) ≤ max (longestText v) (longestField fields) := by
  induction fields with
  | nil => exact Nat.le_refl _
  | cons f fields ih =>
    obtain ⟨k, w⟩ := f
    rw [insertKey]
    split_ifs
    · simp only [longestField]
      omega
    · simp only [longestField]
      omega

theorem read_shorter (fuel : Nat) :
    (∀ depth cs v rest, readValue fuel depth cs = some (v, rest) → longestText v + rest.length < cs.length) ∧
    (∀ depth cs vs rest, readItems fuel depth cs = some (vs, rest) → longestItem vs + rest.length < cs.length) ∧
    (∀ depth read cs fs rest, readMembers fuel depth read cs = some (fs, rest) → rest.length < cs.length ∧
      (longestField fs ≤ longestField read ∨ longestField fs + rest.length < cs.length)) := by
  induction fuel with
  | zero => simp [readValue, readItems, readMembers]
  | succ fuel ih =>
    obtain ⟨ihv, ihi, ihm⟩ := ih
    refine ⟨?_, ?_, ?_⟩
    · intro depth cs v rest h
      have hblank := length_skipBlank_le cs
      rw [readValue] at h
      have hliteral {w : Value} {tail : List Char} (hw : longestText w = 0) (hs : tail.length < (skipBlank cs).length)
          (h : some (w, tail) = some (v, rest)) : longestText v + rest.length < cs.length := by
        obtain ⟨rfl, rfl⟩ := by simpa using h
        omega
      split at h
      · next hs => exact hliteral rfl (by simp only [hs, List.length_cons]; omega) h
      · next hs => exact hliteral rfl (by simp only [hs, List.length_cons]; omega) h
      · next hs => exact hliteral rfl (by simp only [hs, List.length_cons]; omega) h
      · next hs =>
        obtain ⟨⟨text, tail⟩, ht, hr⟩ := Option.map_eq_some_iff.mp h
        obtain ⟨rfl, rfl⟩ := by simpa using hr
        have hlen := length_readText ht
        simp only [hs, List.length_cons, longestText, String.length_ofList] at hblank ⊢
        omega
      · next hs =>
        obtain ⟨⟨n, tail⟩, ht, hr⟩ := Option.map_eq_some_iff.mp h
        obtain ⟨rfl, rfl⟩ := by simpa using hr
        have hlen := length_readNumber ht
        simp only [hs, List.length_cons, longestText] at hblank ⊢
        omega
      · next tail hs =>
        have htail := length_skipBlank_le tail
        cases depth with
        | zero => cases h
        | succ depth =>
          split at h
          · contradiction
          · next hs' _ =>
            obtain ⟨rfl, rfl⟩ := by simpa using h
            simp only [hs, hs', List.length_cons, longestText, longestItem] at hblank htail ⊢
            omega
          · obtain ⟨⟨vs, left⟩, hi, hr⟩ := Option.map_eq_some_iff.mp h
            obtain ⟨rfl, rfl⟩ := by simpa using hr
            have hlen := ihi _ _ _ _ hi
            simp only [hs, List.length_cons, longestText] at hblank ⊢
            omega
      · next tail hs =>
        have htail := length_skipBlank_le tail
        cases depth with
        | zero => cases h
        | succ depth =>
          split at h
          · contradiction
          · next hs' _ =>
            obtain ⟨rfl, rfl⟩ := by simpa using h
            simp only [hs, hs', List.length_cons, longestText, longestField] at hblank htail ⊢
            omega
          · obtain ⟨⟨fs, left⟩, hi, hr⟩ := Option.map_eq_some_iff.mp h
            obtain ⟨rfl, rfl⟩ := by simpa using hr
            have hlen := ihm _ _ _ _ _ hi
            simp only [hs, List.length_cons, longestText, longestField] at hblank hlen ⊢
            omega
      · obtain ⟨⟨n, tail⟩, ht, hr⟩ := Option.map_eq_some_iff.mp h
        obtain ⟨rfl, rfl⟩ := by simpa using hr
        have hlen := length_readNumber ht
        simp only [longestText]
        omega
    · intro depth cs vs rest h
      rw [readItems] at h
      split at h
      · cases h
      · next v tail hv =>
        have hlen := ihv _ _ _ _ hv
        have htail := length_skipBlank_le tail
        split at h
        · next hs =>
          obtain ⟨⟨ws, left⟩, hi, hr⟩ := Option.map_eq_some_iff.mp h
          obtain ⟨rfl, rfl⟩ := by simpa using hr
          have hrest := ihi _ _ _ _ hi
          simp only [hs, List.length_cons, longestItem] at htail ⊢
          omega
        · next hs =>
          obtain ⟨rfl, rfl⟩ := by simpa using h
          simp only [hs, List.length_cons, longestItem] at htail ⊢
          omega
        · cases h
    · intro depth read cs fs rest h
      have hblank := length_skipBlank_le cs
      rw [readMembers] at h
      split at h
      · next hs =>
        split at h
        · cases h
        · next key tail hkey =>
          have hkeylen := length_readText hkey
          have htail := length_skipBlank_le tail
          split at h
          · next hs' =>
            split at h
            · cases h
            · next v left hv =>
              have hlen := ihv _ _ _ _ hv
              have hleft := length_skipBlank_le left
              have hins := longestField_insertKey (String.ofList key) v read
              split at h
              · next hs'' =>
                have hrest := ihm _ _ _ _ _ h
                simp only [hs, hs', hs'', List.length_cons] at hblank htail hleft ⊢
                omega
              · next hs'' =>
                obtain ⟨rfl, rfl⟩ := by simpa using h
                simp only [hs, hs', hs'', List.length_cons] at hblank htail hleft ⊢
                omega
              · cases h
          · cases h
      · cases h

theorem read_deeper (fuel : Nat) :
    (∀ depth cs r, readValue fuel depth cs = some r → readValue fuel (depth + 1) cs = some r) ∧
    (∀ depth cs r, readItems fuel depth cs = some r → readItems fuel (depth + 1) cs = some r) ∧
    (∀ depth read cs r, readMembers fuel depth read cs = some r → readMembers fuel (depth + 1) read cs = some r) := by
  induction fuel with
  | zero => simp [readValue, readItems, readMembers]
  | succ fuel ih =>
    obtain ⟨ihv, ihi, ihm⟩ := ih
    refine ⟨?_, ?_, ?_⟩
    · intro depth cs r h
      rw [readValue] at h ⊢
      split at h
      · exact h
      · exact h
      · exact h
      · exact h
      · exact h
      · cases depth with
        | zero => cases h
        | succ depth =>
          split at h
          · contradiction
          · next hs _ =>
            rw [hs]
            exact h
          · next heq _ =>
            obtain rfl := Nat.succ.inj heq
            obtain ⟨q, hi, hr⟩ := Option.map_eq_some_iff.mp h
            rw [ihi _ _ _ hi, Option.map_some, hr]
      · cases depth with
        | zero => cases h
        | succ depth =>
          split at h
          · contradiction
          · next hs _ =>
            rw [hs]
            exact h
          · next heq _ =>
            obtain rfl := Nat.succ.inj heq
            obtain ⟨q, hi, hr⟩ := Option.map_eq_some_iff.mp h
            rw [ihm _ _ _ _ hi, Option.map_some, hr]
      · exact h
    · intro depth cs r h
      rw [readItems] at h ⊢
      split at h
      · cases h
      · next v tail hv =>
        rw [ihv _ _ _ hv]
        dsimp only
        split at h
        · obtain ⟨q, hi, hr⟩ := Option.map_eq_some_iff.mp h
          rw [ihi _ _ _ hi, Option.map_some, hr]
        · exact h
        · cases h
    · intro depth read cs r h
      rw [readMembers] at h ⊢
      split at h
      · split at h
        · cases h
        · split at h
          · split at h
            · cases h
            · next v left hv =>
              rw [ihv _ _ _ hv]
              dsimp only
              split at h
              · exact ihm _ _ _ _ h
              · exact h
              · cases h
          · cases h
      · cases h

end JsonText

theorem JsonText.readValue_mono {fuel depth depth' : Nat} (hle : depth ≤ depth') {cs : List Char}
    {r : Value × List Char} (h : readValue fuel depth cs = some r) : readValue fuel depth' cs = some r := by
  induction hle with
  | refl => exact h
  | step _ ih => exact (read_deeper fuel).1 _ _ _ ih

theorem readJson_printJson_of_deep {depth : Nat} {v : Value} (hv : v.Printable depth) (hd : ¬ v.Printable 127) :
    readJson (printJson v) = none := by
  have hle : 127 ≤ depth := by
    by_contra hlt
    exact hd (hv.mono (by omega))
  have hfull := JsonText.reads_of_printable hv (3 * (JsonText.printValue v).length + 3) [] trivial (by omega)
  rw [List.append_nil] at hfull
  simp only [readJson, printJson, String.toList_ofList]
  cases hread : JsonText.readValue (3 * (JsonText.printValue v).length + 3) 127 (JsonText.printValue v) with
  | none => rfl
  | some r =>
    obtain rfl := Option.some.inj ((JsonText.readValue_mono hle hread).symm.trans hfull)
    exact absurd ((JsonText.read_printable _).1 _ _ _ _ hread) hd

theorem longestText_lt_of_readJson {text : String} {v : Value} (h : readJson text = some v) :
    longestText v < text.length := by
  simp only [readJson] at h
  split at h
  · next hv =>
    split_ifs at h
    obtain rfl := Option.some.inj h
    have hlen := (JsonText.read_shorter _).1 _ _ _ _ hv
    rw [String.length_toList] at hlen
    omega
  · cases h

end Hugit

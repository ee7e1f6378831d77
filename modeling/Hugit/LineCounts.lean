import Hugit.CommonSubsequence
import Hugit.TreeDiff

/-! The line counts of a modified file come from a longest common subsequence of
its lines, found row by row. -/

namespace Hugit

open List

def Cells (a : List Bytes) : List Bytes → List Bytes → List Nat → Prop
  | done, [], row => ∃ n, row = [n] ∧ LongestCommon n a done
  | done, y :: b, row => ∃ n rest, row = n :: rest ∧ LongestCommon n a done ∧ Cells a (done ++ [y]) b rest

variable {a b done : List Bytes} {prev row : List Nat} {clock : Clock} {ticks : Nat}

theorem Cells.head (h : Cells a done b row) : ∃ n rest, row = n :: rest ∧ LongestCommon n a done := by
  cases b with
  | nil =>
    obtain ⟨n, rfl, hn⟩ := h
    exact ⟨n, [], rfl, hn⟩
  | cons y b =>
    obtain ⟨n, rest, rfl, hn, -⟩ := h
    exact ⟨n, rest, rfl, hn⟩

theorem Cells.last (h : Cells a done b row) : LongestCommon (row.getLastD 0) a (done ++ b) := by
  induction b generalizing done row with
  | nil =>
    obtain ⟨n, rfl, hn⟩ := h
    simpa using hn
  | cons y b ih =>
    obtain ⟨n, rest, rfl, -, hrest⟩ := h
    obtain ⟨m, more, rfl, -⟩ := hrest.head
    simpa using ih hrest

theorem cells_nil (done b : List Bytes) : Cells [] done b (replicate (b.length + 1) 0) := by
  induction b generalizing done with
  | nil => exact ⟨0, rfl, .nil_left _⟩
  | cons y b ih => exact ⟨0, _, rfl, .nil_left _, ih _⟩

theorem Cells.lcsRow {left : Nat} {x : Bytes} (h : Cells a done b prev) (hleft : LongestCommon left (a ++ [x]) done) :
    Cells (a ++ [x]) done b (left :: lcsRow x b prev left) := by
  induction b generalizing done prev left with
  | nil => exact ⟨left, rfl, hleft⟩
  | cons y b ih =>
    obtain ⟨diagonal, rest, rfl, hdiagonal, hrest⟩ := h
    obtain ⟨above, prev, rfl, habove⟩ := hrest.head
    refine ⟨left, _, rfl, hleft, ih hrest ?_⟩
    by_cases hxy : x = y
    · subst hxy
      simpa using hdiagonal.concat_self x
    · simpa [hxy] using habove.concat_of_ne hxy hleft

theorem Cells.lcsRows {rows : List (Bytes × Nat)} (h : Cells a [] b prev)
    (hrun : (lcsRows clock b rows prev ticks).1 = some row) : Cells (a ++ rows.map Prod.fst) [] b row := by
  have hnext (x : Bytes) : Cells (a ++ [x]) [] b (0 :: Hugit.lcsRow x b prev 0) :=
    h.lcsRow (LongestCommon.nil_left _).symm
  induction rows generalizing a prev ticks with
  | nil =>
    obtain rfl := Option.some.inj hrun
    simpa using h
  | cons r rows ih =>
    obtain ⟨x, i⟩ := r
    have hstep {t : Nat} (hrun : (Hugit.lcsRows clock b rows (0 :: Hugit.lcsRow x b prev 0) t).1 = some row) :
        Cells (a ++ x :: rows.map Prod.fst) [] b row := by
      have hc := ih (hnext x) hrun fun y => (hnext x).lcsRow (LongestCommon.nil_left _).symm
      rwa [append_assoc, singleton_append] at hc
    rw [Hugit.lcsRows] at hrun
    split_ifs at hrun
    · exact hstep hrun
    · exact hstep hrun

theorem lcsRows_polls {b' : List Bytes} {rows rows' : List (Bytes × Nat)} {prev' : List Nat}
    (h : rows.map Prod.snd = rows'.map Prod.snd) :
    (lcsRows clock b rows prev ticks).1.isSome = (lcsRows clock b' rows' prev' ticks).1.isSome ∧
      (lcsRows clock b rows prev ticks).2 = (lcsRows clock b' rows' prev' ticks).2 := by
  induction rows generalizing rows' prev prev' ticks with
  | nil =>
    obtain rfl := map_eq_nil_iff.mp h.symm
    exact ⟨rfl, rfl⟩
  | cons r rows ih =>
    obtain ⟨x, i⟩ := r
    cases rows' with
    | nil => simp at h
    | cons r' rows' =>
      obtain ⟨x', i'⟩ := r'
      obtain ⟨rfl, hrest⟩ := cons.inj h
      simp only [lcsRows]
      split_ifs
      · exact ⟨rfl, rfl⟩
      · exact ih hrest
      · exact ih hrest

theorem lcsRows_quiet (hclock : ∀ t, clock t = false) {rows : List (Bytes × Nat)} :
    (lcsRows clock b rows prev ticks).1.isSome = true := by
  induction rows generalizing prev ticks with
  | nil => rfl
  | cons r rows ih =>
    simp only [lcsRows, hclock, Bool.false_eq_true, if_false]
    split_ifs
    · exact ih
    · exact ih

theorem longest_of_rows (h : (lcsRows clock b a.zipIdx (replicate (b.length + 1) 0) ticks).1 = some row) :
    LongestCommon (row.getLastD 0) a b := by
  have hc := (cells_nil [] b).lcsRows h
  rw [nil_append, zipIdx_map_fst] at hc
  exact hc.last

theorem lcsLen_longest {n : Nat} (h : (lcsLen clock a b ticks).1 = some n) : LongestCommon n a b := by
  unfold lcsLen at h
  split_ifs at h with hempty hle
  · obtain rfl := Option.some.inj h
    rcases hempty with rfl | rfl
    · exact .nil_left b
    · exact (LongestCommon.nil_left a).symm
  · obtain ⟨row, hrow, rfl⟩ := Option.map_eq_some_iff.mp h
    exact longest_of_rows hrow
  · obtain ⟨row, hrow, rfl⟩ := Option.map_eq_some_iff.mp h
    exact (longest_of_rows hrow).symm

theorem lcsLen_quiet (hclock : ∀ t, clock t = false) : (lcsLen clock a b ticks).1.isSome = true := by
  unfold lcsLen
  split_ifs
  · rfl
  · rw [Option.isSome_map]
    exact lcsRows_quiet hclock
  · rw [Option.isSome_map]
    exact lcsRows_quiet hclock

theorem lcsLen_symm : lcsLen clock a b ticks = lcsLen clock b a ticks := by
  by_cases hempty : a = [] ∨ b = []
  · simp only [lcsLen, if_pos hempty, if_pos hempty.symm]
  have hempty' : ¬ (b = [] ∨ a = []) := fun h => hempty h.symm
  rcases Nat.lt_trichotomy a.length b.length with hlt | heq | hlt
  · simp only [lcsLen, if_neg hempty, if_neg hempty', if_neg hlt.not_ge, if_pos hlt.le]
  · -- two tables of the same size, filled from either side
    have hpolls : (lcsLen clock a b ticks).1.isSome = (lcsLen clock b a ticks).1.isSome ∧
        (lcsLen clock a b ticks).2 = (lcsLen clock b a ticks).2 := by
      simp only [lcsLen, if_neg hempty, if_neg hempty', if_pos heq.ge, if_pos heq.le, Option.isSome_map]
      exact lcsRows_polls (by simp [heq])
    refine Prod.ext ?_ hpolls.2
    cases hn : (lcsLen clock a b ticks).1 with
    | none =>
      rw [hn] at hpolls
      exact (Option.isNone_iff_eq_none.mp (Option.isSome_eq_false_iff.mp hpolls.1.symm)).symm
    | some n =>
      rw [hn] at hpolls
      obtain ⟨m, hm⟩ := Option.isSome_iff_exists.mp hpolls.1.symm
      rw [hm, (lcsLen_longest hn).unique (lcsLen_longest hm).symm]
  · simp only [lcsLen, if_neg hempty, if_neg hempty', if_neg hlt.not_ge, if_pos hlt.le]

theorem length_splitOn (data : Bytes) : (data.splitOn 10).length = data.count 10 + 1 := by
  induction data with
  | nil => rfl
  | cons x data ih =>
    rw [splitOn_cons_eq_if_modifyHead, count_cons]
    split_ifs
    · simp [ih]
    · simp [ih]

/-- A text whose lines are counted. -/
structure Countable (data : Bytes) : Prop where
  bytes : data.length ≤ maxDiffBlobBytes
  text : 0 ∉ data
  newlines : data.count 10 ≤ maxDiffBlobLines

theorem Countable.lines {data : Bytes} (h : Countable data) : (splitLines data).length < 2 ^ 32 := by
  have hlen := length_splitOn data
  have hn := h.newlines
  simp only [maxDiffBlobLines] at hn
  unfold splitLines
  split_ifs
  · simp
  · rw [length_dropLast]
    omega
  · omega

theorem blobNumstat_countable {g : GitCodec} {source : CasObjectSource} {oldOid newOid : Oid} {old new : GitObject}
    (hold : source.get g oldOid = .ok (some old)) (hnew : source.get g newOid = .ok (some new))
    (ho : Countable old.data) (hn : Countable new.data) :
    blobNumstat g clock source oldOid newOid ticks =
      let lcs := lcsLen clock (splitLines old.data) (splitLines new.data) ticks
      .ok (lcs.1.map fun n => ((splitLines new.data).length - n, (splitLines old.data).length - n), lcs.2) := by
  have hmod (n : Nat) {data : Bytes} (h : Countable data) :
      ((splitLines data).length - n) % 2 ^ 32 = (splitLines data).length - n :=
    Nat.mod_eq_of_lt (Nat.lt_of_le_of_lt (Nat.sub_le _ _) h.lines)
  have hsize : ¬ (maxDiffBlobBytes < old.data.length ∨ maxDiffBlobBytes < new.data.length ∨
      0 ∈ old.data ∨ 0 ∈ new.data) := by
    have ho' := ho.bytes
    have hn' := hn.bytes
    simp [ho.text, hn.text, ho', hn']
  have hlines : ¬ (maxDiffBlobLines < old.data.count 10 ∨ maxDiffBlobLines < new.data.count 10) := by
    have ho' := ho.newlines
    have hn' := hn.newlines
    omega
  unfold blobNumstat
  rw [hold]
  show (source.get g newOid >>= _) = _
  rw [hnew]
  show ite _ _ _ = _
  rw [if_neg hsize, if_neg hlines]
  simp only [hmod _ ho, hmod _ hn]
  rfl

/-- The table gives the length of a longest common subsequence, whichever list comes
first, unless the deadline cuts it off; the counts of two texts are what is left of
either beside it. -/
theorem line_counts_exact (g : GitCodec) (source : CasObjectSource) (clock : Clock) :
    (∀ a b ticks, lcsLen clock a b ticks = lcsLen clock b a ticks ∧
      (∀ n, (lcsLen clock a b ticks).1 = some n → LongestCommon n a b) ∧
      ((∀ t, clock t = false) → (lcsLen clock a b ticks).1.isSome = true)) ∧
    ∀ oldOid newOid old new ticks, source.get g oldOid = .ok (some old) → source.get g newOid = .ok (some new) →
      Countable old.data → Countable new.data →
      ∃ lcs polled, lcsLen clock (splitLines old.data) (splitLines new.data) ticks = (lcs, polled) ∧
        blobNumstat g clock source oldOid newOid ticks = .ok (lcs.map fun n =>
          ((splitLines new.data).length - n, (splitLines old.data).length - n), polled) ∧
        ∀ n, lcs = some n → n ≤ (splitLines new.data).length ∧ n ≤ (splitLines old.data).length := by
  refine ⟨fun a b ticks => ⟨lcsLen_symm, fun n => lcsLen_longest, lcsLen_quiet⟩, ?_⟩
  intro oldOid newOid old new ticks hold hnew ho hn
  refine ⟨_, _, rfl, blobNumstat_countable hold hnew ho hn, fun n h => ?_⟩
  have hlongest := lcsLen_longest h
  exact ⟨hlongest.symm.le_left, hlongest.le_left⟩

end Hugit

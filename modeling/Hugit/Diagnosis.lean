import Hugit.JsonText
import Hugit.RegressionBisect
import Hugit.Utf8Boundaries
import Std.Data.ExtTreeSet.Lemmas

/-! The diagnosis of a red tip, stamped with the size of its own serialization and refused above a bound. -/

namespace Hugit

open JsonText

def diagnosisSizeBound : Nat := 8 * 1024

structure DiagnosisObject where
  culpritRef : String
  diffVsGreenRef : String
  suspectTargets : List String
  bisectPath : List String
  sizeBytes : Nat
  deriving DecidableEq

namespace DiagnosisObject

def toValue (diag : DiagnosisObject) : Value :=
  .object [("culprit_ref", .string diag.culpritRef), ("diff_vs_green_ref", .string diag.diffVsGreenRef),
    ("suspect_targets", .array (diag.suspectTargets.map .string)),
    ("bisect_path", .array (diag.bisectPath.map .string)), ("size_bytes", .number (.posInt diag.sizeBytes))]

def toVec (diag : DiagnosisObject) : Bytes :=
  utf8 (printJson diag.toValue)

def stamp (diag : DiagnosisObject) (size : Nat) : DiagnosisObject :=
  { diag with sizeBytes := size }

@[simp] theorem sizeBytes_stamp (diag : DiagnosisObject) (size : Nat) : (diag.stamp size).sizeBytes = size := rfl

def maxIters : Nat := 8

def settle (measure : Nat → Nat) : Nat → Nat → Nat
  | 0, stamped => stamped
  | left + 1, stamped =>
    let measured := measure stamped
    if measured = stamped then measured else settle measure left measured

def exactSerializedSize (diag : DiagnosisObject) : Nat :=
  settle (fun size => (diag.stamp size).toVec.length) maxIters 0

end DiagnosisObject

def deriveSuspectTargets (culpritRef : String) : List String :=
  let fp := String.ofList (culpritRef.toList.reverse.take 8)
  ["//pkg/" ++ fp ++ ":build", "//pkg/" ++ fp ++ ":test"]

variable (history : History)

def assembleDiagnosis (outcome : BisectOutcome) (suspectTargets : List String) : DiagnosisObject where
  culpritRef := outcome.culpritRef
  diffVsGreenRef :=
    match outcome.lastGreenIndex with
    | some green => "cas:diff:" ++ history.tree green ++ ".." ++ outcome.culpritRef
    | none => "cas:diff:GENESIS.." ++ outcome.culpritRef
  suspectTargets := (Std.ExtTreeSet.ofList suspectTargets).toList
  bisectPath := outcome.probedTrees
  sizeBytes := 0

def tryDiagnoseWithSuspects (outcome : BisectOutcome) (suspectTargets : List String) :
    Except BisectError DiagnosisObject :=
  let diag := assembleDiagnosis history outcome suspectTargets
  let diag := diag.stamp diag.exactSerializedSize
  if diag.sizeBytes > diagnosisSizeBound then .error .diagnosisTooLarge else .ok diag

/-- The answer of a call that may stop the program instead. -/
inductive Panicking (α : Type*) where
  | returned (value : α)
  | panicked

def Bisector.diagnose (outcome : BisectOutcome) : Panicking DiagnosisObject :=
  match tryDiagnoseWithSuspects history outcome (deriveSuspectTargets outcome.culpritRef) with
  | .ok diag => .returned diag
  | .error _ => .panicked

structure RedSignal where
  history : History

variable {σ : Type*} (oracle : CheckOracle σ) (s : σ) (signal : RedSignal)

def onRedSignal : Panicking (Except BisectError (Option DiagnosisObject)) :=
  match (findCulprit oracle signal.history s).1 with
  | .ok outcome =>
    match Bisector.diagnose signal.history outcome with
    | .returned diag => .returned (.ok (some diag))
    | .panicked => .panicked
  | .error .noRedTip => .returned (.ok none)
  | .error e => .returned (.error e)

section Sizes

variable (diag : DiagnosisObject)

theorem length_le_printText (text : String) : text.toList.length ≤ (printText text).length := by
  have hflat (cs : List Char) : cs.length ≤ (cs.flatMap escapeChar).length := by
    induction cs with
    | nil => exact Nat.le_refl 0
    | cons ch cs ih =>
      have hpos : 0 < (escapeChar ch).length := by
        rw [escapeChar]
        split_ifs <;> simp
      rw [List.flatMap_cons, List.length_append, List.length_cons]
      omega
  have hle := hflat text.toList
  rw [printText, List.length_append, List.length_cons]
  omega

namespace DiagnosisObject

theorem exists_printed_around : ∃ before : List Char, diag.culpritRef.toList.length ≤ before.length ∧
    ∀ size, printValue (diag.stamp size).toValue = before ++ Nat.toDigits 10 size ++ ['}'] := by
  refine ⟨'{' :: printMember ("culprit_ref", .string diag.culpritRef) ++
    (printMembers [("diff_vs_green_ref", .string diag.diffVsGreenRef),
      ("suspect_targets", .array (diag.suspectTargets.map .string)),
      ("bisect_path", .array (diag.bisectPath.map .string))] ++ ',' :: printText "size_bytes" ++ [':']), ?_, ?_⟩
  · have hle := length_le_printText diag.culpritRef
    rw [printMember, printValue]
    simp only [List.length_append, List.length_cons]
    omega
  · intro size
    simp [toValue, stamp, printValue, printMembers, printMember, printNumber]

theorem length_utf8List_toDigits (size : Nat) :
    (utf8List (Nat.toDigits 10 size)).length = (Nat.toDigits 10 size).length := by
  refine length_utf8List_eq_iff.mpr fun ch hch => utf8Size_eq_one.mpr ?_
  have hdigit := Nat.isDigit_of_mem_toDigits (by decide) (by decide) hch
  simp only [Char.isDigit, Bool.and_eq_true, decide_eq_true_iff] at hdigit
  have hle := UInt32.le_iff_toNat_le.mp hdigit.2
  exact Nat.lt_of_le_of_lt hle (by decide)

theorem exists_length_toVec : ∃ base, diag.culpritRef.toList.length ≤ base ∧
    ∀ size, (diag.stamp size).toVec.length = base + (Nat.toDigits 10 size).length := by
  obtain ⟨before, hculprit, hprinted⟩ := diag.exists_printed_around
  refine ⟨(utf8List before).length + 1, ?_, fun size => ?_⟩
  · have hle := length_utf8List_le before
    omega
  · have hbrace : (utf8List ['}']).length = 1 := by decide
    rw [toVec, printJson, utf8_ofList, hprinted, ← utf8List, utf8List_append, utf8List_append, List.length_append,
      List.length_append, length_utf8List_toDigits, hbrace]
    omega

section Settle

variable {measure : Nat → Nat}

theorem settle_of_fixed {stamped : Nat} (h : measure stamped = stamped) (left : Nat) :
    settle measure left stamped = stamped := by
  cases left with
  | zero => rfl
  | succ left => rw [settle, if_pos h, h]

theorem settle_succ (left stamped : Nat) :
    settle measure (left + 1) stamped = settle measure left (measure stamped) := by
  rw [settle]
  split_ifs with h
  · rw [h, settle_of_fixed h]
  · rfl

theorem settle_le (hmono : Monotone measure) {fixed : Nat} (hfixed : measure fixed = fixed) (left : Nat)
    {stamped : Nat} (h : stamped ≤ fixed) : settle measure left stamped ≤ fixed := by
  induction left generalizing stamped with
  | zero => exact h
  | succ left ih =>
    rw [settle_succ]
    exact ih ((hmono h).trans_eq hfixed)

end Settle

theorem length_toDigits_mono : Monotone fun size => (Nat.toDigits 10 size).length := by
  intro m n hmn
  have hself := Nat.le_refl (Nat.toDigits 10 n).length
  have hlt := (Nat.length_toDigits_le_iff (by decide) Nat.length_toDigits_pos).mp hself
  exact (Nat.length_toDigits_le_iff (by decide) Nat.length_toDigits_pos).mpr (by omega)

theorem settled_thrice {base : Nat} {measure : Nat → Nat}
    (h : ∀ size, measure size = base + (Nat.toDigits 10 size).length) :
    measure (measure (measure (measure 0))) = measure (measure (measure 0)) := by
  have hle (n k : Nat) (hk : 0 < k) : (Nat.toDigits 10 n).length ≤ k ↔ n < 10 ^ k :=
    Nat.length_toDigits_le_iff (by decide) hk
  simp only [h, Nat.toDigits_zero, List.length_singleton]
  generalize hk : (Nat.toDigits 10 (base + 1)).length = k
  have hpos : 0 < k := hk ▸ Nat.length_toDigits_pos
  have hbase : base + 1 < 10 ^ k := (hle _ k hpos).mp hk.le
  have hself : k < 10 ^ k := Nat.lt_pow_self (by decide)
  have hnext : 10 ^ (k + 1) = 10 * 10 ^ k := Nat.pow_succ'
  generalize hk' : (Nat.toDigits 10 (base + k)).length = k'
  have hgrows : k ≤ k' := by
    rw [← hk, ← hk']
    exact length_toDigits_mono (by omega)
  have honce : k' ≤ k + 1 := by
    rw [← hk', hle _ _ (Nat.succ_pos k)]
    omega
  rcases Nat.eq_or_lt_of_le hgrows with rfl | hlt
  · rw [hk']
  · obtain rfl : k' = k + 1 := by omega
    have hmore : (Nat.toDigits 10 (base + (k + 1))).length ≤ k + 1 := by
      rw [hle _ _ (Nat.succ_pos k)]
      omega
    have hless : k + 1 ≤ (Nat.toDigits 10 (base + (k + 1))).length := by
      rw [← hk']
      exact length_toDigits_mono (by omega)
    rw [Nat.le_antisymm hmore hless]

theorem settle_fixed {base : Nat} {measure : Nat → Nat}
    (h : ∀ size, measure size = base + (Nat.toDigits 10 size).length) :
    measure (settle measure maxIters 0) = settle measure maxIters 0 := by
  have hsettled := settled_thrice h
  rw [maxIters, settle_succ, settle_succ, settle_succ, settle_of_fixed hsettled]
  exact hsettled

theorem exactSerializedSize_spec : (diag.stamp diag.exactSerializedSize).toVec.length = diag.exactSerializedSize ∧
    ∀ size, (diag.stamp size).toVec.length = size → diag.exactSerializedSize ≤ size := by
  obtain ⟨base, -, hlength⟩ := diag.exists_length_toVec
  have hmono : Monotone fun size => (diag.stamp size).toVec.length := by
    intro m n hmn
    simp only [hlength]
    exact Nat.add_le_add_left (length_toDigits_mono hmn) base
  have hfixed := @settle_fixed base (fun size => (diag.stamp size).toVec.length) hlength
  unfold exactSerializedSize
  exact ⟨hfixed, fun size hsize => settle_le hmono hsize maxIters (Nat.zero_le size)⟩

/-- Some stamp within the bound is the size of the diagnosis that carries it. -/
def Fits : Prop :=
  ∃ size ≤ diagnosisSizeBound, (diag.stamp size).toVec.length = size

theorem fits_iff : diag.Fits ↔ diag.exactSerializedSize ≤ diagnosisSizeBound := by
  constructor
  · rintro ⟨size, hbound, hsize⟩
    exact (diag.exactSerializedSize_spec.2 size hsize).trans hbound
  · exact fun h => ⟨diag.exactSerializedSize, h, diag.exactSerializedSize_spec.1⟩

theorem not_fits_of_long (h : diagnosisSizeBound < diag.culpritRef.toList.length) : ¬ diag.Fits := by
  rintro ⟨size, hbound, hsize⟩
  obtain ⟨base, hculprit, hlength⟩ := diag.exists_length_toVec
  rw [hlength] at hsize
  omega

end DiagnosisObject

end Sizes

theorem tryDiagnoseWithSuspects_cases (outcome : BisectOutcome) (suspectTargets : List String) :
    ((assembleDiagnosis history outcome suspectTargets).Fits ∧ ∃ diag,
      tryDiagnoseWithSuspects history outcome suspectTargets = .ok diag ∧
        diag.sizeBytes = diag.toVec.length ∧ diag.sizeBytes ≤ diagnosisSizeBound) ∨
    (¬ (assembleDiagnosis history outcome suspectTargets).Fits ∧
      tryDiagnoseWithSuspects history outcome suspectTargets = .error .diagnosisTooLarge) := by
  rw [tryDiagnoseWithSuspects, DiagnosisObject.fits_iff]
  generalize assembleDiagnosis history outcome suspectTargets = diag
  have hexact := diag.exactSerializedSize_spec.1
  generalize diag.exactSerializedSize = size at hexact ⊢
  rw [DiagnosisObject.sizeBytes_stamp]
  by_cases h : size ≤ diagnosisSizeBound
  · exact .inl ⟨h, diag.stamp size, if_neg (Nat.not_lt.mpr h), hexact.symm, h⟩
  · exact .inr ⟨h, if_pos (Nat.lt_of_not_le h)⟩

def derivedDiagnosis (outcome : BisectOutcome) : DiagnosisObject :=
  assembleDiagnosis history outcome (deriveSuspectTargets outcome.culpritRef)

structure SoundlySized : Prop where
  returns : onRedSignal oracle s signal ≠ .panicked
  stamped : ∀ diag, onRedSignal oracle s signal = .returned (.ok (some diag)) →
    diag.sizeBytes = diag.toVec.length ∧ diag.sizeBytes ≤ diagnosisSizeBound
  refused : ∀ outcome, (findCulprit oracle signal.history s).1 = .ok outcome →
    ¬ (derivedDiagnosis signal.history outcome).Fits →
      onRedSignal oracle s signal = .returned (.error .diagnosisTooLarge)

theorem onRedSignal_of_noRedTip (h : (findCulprit oracle signal.history s).1 = .error .noRedTip) :
    onRedSignal oracle s signal = .returned (.ok none) := by
  rw [onRedSignal, h]

theorem onRedSignal_of_culprit {outcome : BisectOutcome}
    (h : (findCulprit oracle signal.history s).1 = .ok outcome) :
    ((derivedDiagnosis signal.history outcome).Fits ∧ ∃ diag,
      onRedSignal oracle s signal = .returned (.ok (some diag)) ∧
        diag.sizeBytes = diag.toVec.length ∧ diag.sizeBytes ≤ diagnosisSizeBound) ∨
    (¬ (derivedDiagnosis signal.history outcome).Fits ∧ onRedSignal oracle s signal = .panicked) := by
  rw [onRedSignal, h, derivedDiagnosis]
  rcases tryDiagnoseWithSuspects_cases signal.history outcome (deriveSuspectTargets outcome.culpritRef) with
    ⟨hfits, diag, hok, hsized⟩ | ⟨hlarge, herror⟩
  · exact .inl ⟨hfits, diag, by simp only [Bisector.diagnose, hok], hsized⟩
  · exact .inr ⟨hlarge, by simp only [Bisector.diagnose, herror]⟩

theorem soundlySized_iff : SoundlySized oracle s signal ↔
    ∀ outcome, (findCulprit oracle signal.history s).1 = .ok outcome →
      (derivedDiagnosis signal.history outcome).Fits := by
  constructor
  · intro h outcome hok
    rcases onRedSignal_of_culprit oracle s signal hok with ⟨hfits, -⟩ | ⟨-, hpanicked⟩
    · exact hfits
    · exact absurd hpanicked h.returns
  · intro hfits
    rcases findCulprit_cases oracle signal.history s with hnone | ⟨outcome, hok⟩
    · have hanswer := onRedSignal_of_noRedTip oracle s signal hnone
      refine ⟨by simp [hanswer], fun diag hdiag => ?_, fun outcome hok => ?_⟩
      · rw [hanswer] at hdiag
        cases hdiag
      · rw [hnone] at hok
        cases hok
    · rcases onRedSignal_of_culprit oracle s signal hok with ⟨-, diag, hanswer, hsized⟩ | ⟨hlarge, -⟩
      · refine ⟨by simp [hanswer], fun diag' hdiag => ?_, fun outcome' hok' hlarge => ?_⟩
        · rw [hanswer] at hdiag
          cases hdiag
          exact hsized
        · exact absurd (hfits outcome' hok') hlarge
      · exact absurd (hfits outcome hok) hlarge

def longRef : History :=
  ⟨["g", String.ofList (List.replicate 9000 'r')], "def", "toolchain"⟩

theorem longRef_panics : onRedSignal (redFrom 1) 0 ⟨longRef⟩ = .panicked := by
  have hanswers : (redFrom 1).Answers longRef fun i => if i < 1 then .green else .red := fun _ _ => rfl
  obtain ⟨lo, probed, hsearched, -, -, hsome, -⟩ := findCulprit_spec hanswers 0 (by decide)
  have hfirst : FirstRedAt (fun i => if i < 1 then .green else .red) longRef.len 1 :=
    ⟨by decide, fun i _ => by by_cases hi : i < 1 <;> simp [hi]⟩
  obtain rfl : lo = 1 := hsearched.eq_firstRed hfirst
  obtain ⟨outcome, hok, -, href, -, -⟩ := hsome (by decide)
  have hlong : diagnosisSizeBound < outcome.culpritRef.toList.length := by
    rw [href, show longRef.tree 1 = String.ofList (List.replicate 9000 'r') from rfl, String.toList_ofList,
      List.length_replicate]
    decide
  rcases onRedSignal_of_culprit (redFrom 1) 0 ⟨longRef⟩ hok with ⟨hfits, -⟩ | ⟨-, hpanicked⟩
  · exact absurd hfits (DiagnosisObject.not_fits_of_long _ hlong)
  · exact hpanicked

end Hugit

import Hugit.MemoKey

/-! The byte strings that are hashed or signed: event records, memo keys,
attestations, results and metrics. Each can be read back into its inputs. -/

namespace Hugit

def attestationSigPreimage (tree definition runner model : String) (principal : List String) : Bytes :=
  let buf := pushLpField [] tree
  let buf := pushLpField buf definition
  let buf := pushLpField buf runner
  let buf := pushLpField buf model
  pushVecField buf principal

/-- The exit code is written in two's complement. -/
def resultBindingPreimageV2 (memoKey stdoutRef stderrRef : String) (exit : Int32)
    (artifacts : List (String × String)) : Bytes :=
  let buf := pushLpField [] memoKey
  let buf := pushLpField buf stdoutRef
  let buf := pushLpField buf stderrRef
  let buf := buf ++ beBytes 4 exit.toBitVec.toNat
  let buf := buf ++ beBytes 4 artifacts.length
  artifacts.foldl (fun buf artifact => pushLpField (pushLpField buf artifact.1) artifact.2) buf

def intentMetricsPreimage (leaseId tenant : String)
    (input output cacheRead cacheWrite total wallMs activeMs toolCalls : UInt64)
    (toolBreakdown : List (String × UInt64)) (modelTurns costUsdMicros : UInt64) : Bytes :=
  let buf := pushLpField [] leaseId
  let buf := pushLpField buf tenant
  let buf := [input, output, cacheRead, cacheWrite, total, wallMs, activeMs, toolCalls].foldl
    (fun buf n => buf ++ beBytes 8 n.toNat) buf
  let buf := buf ++ beBytes 4 toolBreakdown.length
  let buf := toolBreakdown.foldl (fun buf tool => pushLpField buf tool.1 ++ beBytes 8 tool.2.toNat) buf
  let buf := buf ++ beBytes 8 modelTurns.toNat
  buf ++ beBytes 8 costUsdMicros.toNat

def FitsField (text : String) : Prop :=
  (utf8 text).length < 2 ^ 32

instance (text : String) : Decidable (FitsField text) :=
  inferInstanceAs (Decidable (_ < _))

@[ext] structure ThisHashArgs where
  prevHash : String
  kind : String
  principalChain : List String
  payload : String
  seq : UInt64
  deriving DecidableEq

@[ext] structure MemoKeyArgs where
  treeHash : String
  defDigest : String
  toolchainDigest : String
  deriving DecidableEq

@[ext] structure AttestationArgs where
  tree : String
  definition : String
  runner : String
  model : String
  principal : List String
  deriving DecidableEq

@[ext] structure ResultBindingArgs where
  memoKey : String
  stdoutRef : String
  stderrRef : String
  exit : Int32
  artifacts : List (String × String)
  deriving DecidableEq

@[ext] structure IntentMetricsArgs where
  leaseId : String
  tenant : String
  input : UInt64
  output : UInt64
  cacheRead : UInt64
  cacheWrite : UInt64
  total : UInt64
  wallMs : UInt64
  activeMs : UInt64
  toolCalls : UInt64
  toolBreakdown : List (String × UInt64)
  modelTurns : UInt64
  costUsdMicros : UInt64
  deriving DecidableEq

section Reading

variable {r s : Bytes}

theorem field_append_inj {a b : String} (ha : FitsField a) (hb : FitsField b)
    (h : frame (utf8 a) ++ r = frame (utf8 b) ++ s) : a = b ∧ r = s := by
  obtain ⟨hab, hrs⟩ := frame_append_inj ha hb h
  exact ⟨utf8_injective hab, hrs⟩

theorem fields_append_inj {as bs : List String} (hna : as.length < 2 ^ 32) (hnb : bs.length < 2 ^ 32)
    (ha : ∀ a ∈ as, FitsField a) (hb : ∀ b ∈ bs, FitsField b)
    (h : frames (as.map utf8) ++ r = frames (bs.map utf8) ++ s) : as = bs ∧ r = s := by
  obtain ⟨hab, hrs⟩ := frames_append_inj (by simpa using hna) (by simpa using hnb)
    (List.forall_mem_map.mpr ha) (List.forall_mem_map.mpr hb) h
  exact ⟨utf8_injective.list_map hab, hrs⟩

theorem word_append_inj {m n : UInt64} (h : beBytes 8 m.toNat ++ r = beBytes 8 n.toNat ++ s) :
    m = n ∧ r = s := by
  obtain ⟨hmn, hrs⟩ := beBytes_append_inj m.toNat_lt n.toNat_lt h
  exact ⟨UInt64.toNat_inj.mp hmn, hrs⟩

theorem exit_append_inj {m n : Int32} (h : beBytes 4 m.toBitVec.toNat ++ r = beBytes 4 n.toBitVec.toNat ++ s) :
    m = n ∧ r = s := by
  obtain ⟨hmn, hrs⟩ := beBytes_append_inj m.toBitVec.isLt n.toBitVec.isLt h
  exact ⟨Int32.toBitVec_inj.mp (BitVec.eq_of_toNat_eq hmn), hrs⟩

theorem counted_append_inj {α : Type*} {code : α → Bytes} {as bs : List α}
    (hitem : ∀ a ∈ as, ∀ b ∈ bs, ∀ r s : Bytes, code a ++ r = code b ++ s → a = b ∧ r = s)
    (hna : as.length < 2 ^ 32) (hnb : bs.length < 2 ^ 32)
    (h : beBytes 4 as.length ++ (as.flatMap code ++ r) = beBytes 4 bs.length ++ (bs.flatMap code ++ s)) :
    as = bs ∧ r = s := by
  obtain ⟨hlen, h⟩ := beBytes_append_inj (by simpa using hna) (by simpa using hnb) h
  exact flatMap_append_inj hitem hlen h

end Reading

def artifactFrame (artifact : String × String) : Bytes :=
  frame (utf8 artifact.1) ++ frame (utf8 artifact.2)

def toolFrame (tool : String × UInt64) : Bytes :=
  frame (utf8 tool.1) ++ beBytes 8 tool.2.toNat

theorem artifactFrame_append_inj {a b : String × String} {r s : Bytes}
    (ha : FitsField a.1 ∧ FitsField a.2) (hb : FitsField b.1 ∧ FitsField b.2)
    (h : artifactFrame a ++ r = artifactFrame b ++ s) : a = b ∧ r = s := by
  simp only [artifactFrame, List.append_assoc] at h
  obtain ⟨hpath, h⟩ := field_append_inj ha.1 hb.1 h
  obtain ⟨hdigest, h⟩ := field_append_inj ha.2 hb.2 h
  exact ⟨Prod.ext hpath hdigest, h⟩

theorem toolFrame_append_inj {a b : String × UInt64} {r s : Bytes} (ha : FitsField a.1) (hb : FitsField b.1)
    (h : toolFrame a ++ r = toolFrame b ++ s) : a = b ∧ r = s := by
  simp only [toolFrame, List.append_assoc] at h
  obtain ⟨htool, h⟩ := field_append_inj ha hb h
  obtain ⟨hcount, h⟩ := word_append_inj h
  exact ⟨Prod.ext htool hcount, h⟩

namespace ThisHashArgs

def preimage (a : ThisHashArgs) : Bytes :=
  thisHashPreimage a.prevHash a.kind a.principalChain a.payload a.seq.toNat

structure Fits (a : ThisHashArgs) : Prop where
  prevHash : FitsField a.prevHash
  kind : FitsField a.kind
  principals : a.principalChain.length < 2 ^ 32
  principal : ∀ p ∈ a.principalChain, FitsField p
  payload : FitsField a.payload

theorem preimage_inj {a b : ThisHashArgs} (ha : a.Fits) (hb : b.Fits) (h : a.preimage = b.preimage) : a = b := by
  rw [preimage, preimage, thisHashPreimage_eq, thisHashPreimage_eq] at h
  obtain ⟨hprev, h⟩ := field_append_inj ha.prevHash hb.prevHash h
  obtain ⟨hkind, h⟩ := field_append_inj ha.kind hb.kind h
  obtain ⟨hchain, h⟩ := fields_append_inj ha.principals hb.principals ha.principal hb.principal h
  obtain ⟨hpayload, h⟩ := field_append_inj ha.payload hb.payload h
  have hseq := beBytes_inj a.seq.toNat_lt b.seq.toNat_lt h
  exact ThisHashArgs.ext hprev hkind hchain hpayload (UInt64.toNat_inj.mp hseq)

end ThisHashArgs

namespace MemoKeyArgs

def preimage (a : MemoKeyArgs) : Bytes :=
  memoKeyPreimage a.treeHash a.defDigest a.toolchainDigest

structure Fits (a : MemoKeyArgs) : Prop where
  treeHash : FitsField a.treeHash
  defDigest : FitsField a.defDigest
  toolchainDigest : FitsField a.toolchainDigest

theorem preimage_inj {a b : MemoKeyArgs} (ha : a.Fits) (hb : b.Fits) (h : a.preimage = b.preimage) : a = b := by
  rw [preimage, preimage, memoKeyPreimage_eq, memoKeyPreimage_eq] at h
  obtain ⟨htree, h⟩ := field_append_inj ha.treeHash hb.treeHash h
  obtain ⟨hdef, h⟩ := field_append_inj ha.defDigest hb.defDigest h
  obtain ⟨htoolchain, -⟩ := field_append_inj (r := []) (s := []) ha.toolchainDigest hb.toolchainDigest (by rw [h])
  exact MemoKeyArgs.ext htree hdef htoolchain

end MemoKeyArgs

namespace AttestationArgs

def preimage (a : AttestationArgs) : Bytes :=
  attestationSigPreimage a.tree a.definition a.runner a.model a.principal

structure Fits (a : AttestationArgs) : Prop where
  tree : FitsField a.tree
  definition : FitsField a.definition
  runner : FitsField a.runner
  model : FitsField a.model
  principals : a.principal.length < 2 ^ 32
  principal : ∀ p ∈ a.principal, FitsField p

theorem preimage_eq (a : AttestationArgs) : a.preimage =
    frame (utf8 a.tree) ++ (frame (utf8 a.definition) ++ (frame (utf8 a.runner) ++
      (frame (utf8 a.model) ++ (frames (a.principal.map utf8) ++ [])))) := by
  simp [preimage, attestationSigPreimage, pushLpField_eq, pushVecField_eq]

theorem preimage_inj {a b : AttestationArgs} (ha : a.Fits) (hb : b.Fits) (h : a.preimage = b.preimage) :
    a = b := by
  rw [preimage_eq, preimage_eq] at h
  obtain ⟨htree, h⟩ := field_append_inj ha.tree hb.tree h
  obtain ⟨hdef, h⟩ := field_append_inj ha.definition hb.definition h
  obtain ⟨hrunner, h⟩ := field_append_inj ha.runner hb.runner h
  obtain ⟨hmodel, h⟩ := field_append_inj ha.model hb.model h
  obtain ⟨hprincipal, -⟩ := fields_append_inj ha.principals hb.principals ha.principal hb.principal h
  exact AttestationArgs.ext htree hdef hrunner hmodel hprincipal

end AttestationArgs

namespace ResultBindingArgs

def preimage (a : ResultBindingArgs) : Bytes :=
  resultBindingPreimageV2 a.memoKey a.stdoutRef a.stderrRef a.exit a.artifacts

structure Fits (a : ResultBindingArgs) : Prop where
  memoKey : FitsField a.memoKey
  stdoutRef : FitsField a.stdoutRef
  stderrRef : FitsField a.stderrRef
  artifacts : a.artifacts.length < 2 ^ 32
  artifact : ∀ x ∈ a.artifacts, FitsField x.1 ∧ FitsField x.2

theorem preimage_eq (a : ResultBindingArgs) : a.preimage =
    frame (utf8 a.memoKey) ++ (frame (utf8 a.stdoutRef) ++ (frame (utf8 a.stderrRef) ++
      (beBytes 4 a.exit.toBitVec.toNat ++ (beBytes 4 a.artifacts.length ++
        (a.artifacts.flatMap artifactFrame ++ []))))) := by
  simp only [preimage, resultBindingPreimageV2, List.foldl_append_eq_append, List.flatMap_def,
    pushLpField_eq, List.append_assoc, List.nil_append, List.append_nil]
  rfl

theorem preimage_inj {a b : ResultBindingArgs} (ha : a.Fits) (hb : b.Fits) (h : a.preimage = b.preimage) :
    a = b := by
  rw [preimage_eq, preimage_eq] at h
  obtain ⟨hkey, h⟩ := field_append_inj ha.memoKey hb.memoKey h
  obtain ⟨hout, h⟩ := field_append_inj ha.stdoutRef hb.stdoutRef h
  obtain ⟨herr, h⟩ := field_append_inj ha.stderrRef hb.stderrRef h
  obtain ⟨hexit, h⟩ := exit_append_inj h
  obtain ⟨hartifacts, -⟩ := counted_append_inj
    (fun x hx y hy _ _ => artifactFrame_append_inj (ha.artifact x hx) (hb.artifact y hy))
    ha.artifacts hb.artifacts h
  exact ResultBindingArgs.ext hkey hout herr hexit hartifacts

end ResultBindingArgs

namespace IntentMetricsArgs

def words (a : IntentMetricsArgs) : List UInt64 :=
  [a.input, a.output, a.cacheRead, a.cacheWrite, a.total, a.wallMs, a.activeMs, a.toolCalls]

def preimage (a : IntentMetricsArgs) : Bytes :=
  intentMetricsPreimage a.leaseId a.tenant a.input a.output a.cacheRead a.cacheWrite a.total a.wallMs
    a.activeMs a.toolCalls a.toolBreakdown a.modelTurns a.costUsdMicros

structure Fits (a : IntentMetricsArgs) : Prop where
  leaseId : FitsField a.leaseId
  tenant : FitsField a.tenant
  tools : a.toolBreakdown.length < 2 ^ 32
  tool : ∀ x ∈ a.toolBreakdown, FitsField x.1

theorem preimage_eq (a : IntentMetricsArgs) : a.preimage =
    frame (utf8 a.leaseId) ++ (frame (utf8 a.tenant) ++ (a.words.flatMap (fun n => beBytes 8 n.toNat) ++
      (beBytes 4 a.toolBreakdown.length ++ (a.toolBreakdown.flatMap toolFrame ++
        (beBytes 8 a.modelTurns.toNat ++ (beBytes 8 a.costUsdMicros.toNat ++ [])))))) := by
  simp only [preimage, intentMetricsPreimage, List.foldl_append_eq_append, List.flatMap_def,
    pushLpField_eq, List.append_assoc, List.nil_append, List.append_nil, words]
  rfl

theorem preimage_inj {a b : IntentMetricsArgs} (ha : a.Fits) (hb : b.Fits) (h : a.preimage = b.preimage) :
    a = b := by
  rw [preimage_eq, preimage_eq] at h
  obtain ⟨hlease, h⟩ := field_append_inj ha.leaseId hb.leaseId h
  obtain ⟨htenant, h⟩ := field_append_inj ha.tenant hb.tenant h
  obtain ⟨hwords, h⟩ := flatMap_append_inj (fun _ _ _ _ _ _ => word_append_inj) (by simp [words]) h
  obtain ⟨htools, h⟩ := counted_append_inj
    (fun x hx y hy _ _ => toolFrame_append_inj (ha.tool x hx) (hb.tool y hy)) ha.tools hb.tools h
  obtain ⟨hturns, h⟩ := word_append_inj h
  obtain ⟨hcost, -⟩ := word_append_inj h
  simp only [words, List.cons.injEq, and_true] at hwords
  obtain ⟨hinput, houtput, hread, hwrite, htotal, hwall, hactive, hcalls⟩ := hwords
  exact IntentMetricsArgs.ext hlease htenant hinput houtput hread hwrite htotal hwall hactive hcalls htools
    hturns hcost

end IntentMetricsArgs

/-- Different inputs are never hashed or signed as the same bytes. -/
theorem preimages_injective :
    (∀ a b : ThisHashArgs, a.Fits → b.Fits → a ≠ b → a.preimage ≠ b.preimage) ∧
    (∀ a b : MemoKeyArgs, a.Fits → b.Fits → a ≠ b → a.preimage ≠ b.preimage) ∧
    (∀ a b : AttestationArgs, a.Fits → b.Fits → a ≠ b → a.preimage ≠ b.preimage) ∧
    (∀ a b : ResultBindingArgs, a.Fits → b.Fits → a ≠ b → a.preimage ≠ b.preimage) ∧
    (∀ a b : IntentMetricsArgs, a.Fits → b.Fits → a ≠ b → a.preimage ≠ b.preimage) := by
  refine ⟨?_, ?_, ?_, ?_, ?_⟩ <;> intro a b ha hb hne h
  · exact hne (ThisHashArgs.preimage_inj ha hb h)
  · exact hne (MemoKeyArgs.preimage_inj ha hb h)
  · exact hne (AttestationArgs.preimage_inj ha hb h)
  · exact hne (ResultBindingArgs.preimage_inj ha hb h)
  · exact hne (IntentMetricsArgs.preimage_inj ha hb h)

/-- A digest moved between fields, a principal cut in two, an exit code flipped, a
tool renamed: all are seen. -/
theorem preimages_differ :
    (ThisHashArgs.mk "0" "note" ["user:a", "b"] "null" 1).preimage ≠
      (ThisHashArgs.mk "0" "note" ["user:ab"] "null" 1).preimage ∧
    (MemoKeyArgs.mk "ab" "c" "d").preimage ≠ (MemoKeyArgs.mk "a" "bc" "d").preimage ∧
    (AttestationArgs.mk "t" "d" "r" "m" ["a", "b"]).preimage ≠
      (AttestationArgs.mk "t" "d" "r" "m" ["b", "a"]).preimage ∧
    (ResultBindingArgs.mk "k" "o" "e" 0 [("p", "d")]).preimage ≠
      (ResultBindingArgs.mk "k" "o" "e" (-1) [("p", "d")]).preimage ∧
    (IntentMetricsArgs.mk "l" "t" 1 2 3 4 10 5 6 1 [("bash", 1)] 1 7).preimage ≠
      (IntentMetricsArgs.mk "l" "t" 1 2 3 4 10 5 6 1 [("edit", 1)] 1 7).preimage := by
  obtain ⟨hthis, hmemo, hattest, hresult, hmetrics⟩ := preimages_injective
  refine ⟨hthis _ _ ?_ ?_ (by decide), hmemo _ _ ?_ ?_ (by decide), hattest _ _ ?_ ?_ (by decide),
    hresult _ _ ?_ ?_ (by decide), hmetrics _ _ ?_ ?_ (by decide)⟩ <;> constructor <;> decide

end Hugit

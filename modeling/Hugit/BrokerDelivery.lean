import Hugit.EventRecord
import Hugit.PathSegments
import Hugit.ShellWords
import Hugit.Text

/-! The secrets broker delivers an output into a job container: a guard on the result path, the privileged
operation, then one shell command on the box. -/

namespace Hugit

inductive RunnerState where
  | held
  | expired
  | crashed
  | released
  deriving DecidableEq

structure RunnerLease where
  leaseId : String
  principalChain : List String
  state : RunnerState
  deriving DecidableEq

inductive BrokerOp where
  | sign (secretName : String) (message : Bytes)
  deriving DecidableEq

def BrokerOp.secretRef : BrokerOp → String
  | .sign secretName _ => secretName

def BrokerOp.verb : BrokerOp → String
  | .sign _ _ => "sign"

structure BrokerRequest where
  lease : RunnerLease
  op : BrokerOp
  deriving DecidableEq

inductive AuditOutcome where
  | completed
  | failedClosed
  deriving DecidableEq

structure AuditRecord where
  leaseId : String
  principalChain : List String
  op : String
  secretName : String
  outcome : AuditOutcome
  deriving DecidableEq

structure BrokerResponse where
  output : String
  audit : AuditRecord
  deriving DecidableEq

inductive BrokerError where
  | brokerDown (secretName reason : String)
  | unknownSecret (secretName : String)
  | box (detail : String)
  | resultPathEscapes (resultPath : String)
  | leaseNotHeld (leaseId : String)
  deriving DecidableEq

structure CmdOutput where
  code : Option Int
  stderr : String
  deriving DecidableEq

def CmdOutput.ok (out : CmdOutput) : Bool :=
  out.code = some 0

/-- What surrounds the broker: the digest, the secret store and the box. -/
structure BrokerHost where
  digest : Bytes → Bytes
  resolve : String → Except String (Option Bytes)
  run : List String → Except String CmdOutput

inductive BrokerEvent where
  | resolved (secretName : String)
  | ran (argv : List String)
  deriving DecidableEq

namespace Broker

def macBlock : Nat := 64

def signHmacSha256 (digest : Bytes → Bytes) (key message : Bytes) : String :=
  let k := if macBlock < key.length then digest key else key
  let k := k ++ List.replicate (macBlock - k.length) 0
  let inner := digest (k.map (0x36 ^^^ ·) ++ message)
  hexEncode (digest (k.map (0x5c ^^^ ·) ++ inner))

def audit (req : BrokerRequest) (outcome : AuditOutcome) : AuditRecord where
  leaseId := req.lease.leaseId
  principalChain := req.lease.principalChain
  op := req.op.verb
  secretName := req.op.secretRef
  outcome := outcome

variable (host : BrokerHost)

def performOp (digest : Bytes → Bytes) (material : Bytes) : BrokerOp → String
  | .sign _ message => signHmacSha256 digest material message

def execute (req : BrokerRequest) : Except BrokerError BrokerResponse × List BrokerEvent :=
  if req.lease.state ≠ .held then (.error (.leaseNotHeld req.lease.leaseId), [])
  else
    match host.resolve req.op.secretRef with
    | .ok (some material) =>
      (.ok ⟨performOp host.digest material req.op, audit req .completed⟩, [.resolved req.op.secretRef])
    | .ok none => (.error (.unknownSecret req.op.secretRef), [.resolved req.op.secretRef])
    | .error reason => (.error (.brokerDown req.op.secretRef reason), [.resolved req.op.secretRef])

def normalizeSegments : List (List Char) → Option (List (List Char))
  | [] => some []
  | seg :: segs =>
    if seg = [] ∨ seg = ['.'] then normalizeSegments segs
    else if seg = ['.', '.'] then none
    else (normalizeSegments segs).map (seg :: ·)

def normalizePath (path : List Char) : Option (List (List Char)) :=
  if path.head? = some '/' then none else normalizeSegments (path.splitOn '/')

def resultPathEscapes (resultPath : String) : Bool :=
  (normalizePath resultPath.toList).isNone

def trimDotSlash : List Char → List Char
  | '.' :: '/' :: rest => trimDotSlash rest
  | text => text

def trimSlashes (text : List Char) : List Char :=
  text.dropWhile (· = '/')

def trimEndSlashes (text : List Char) : List Char :=
  text.rdropWhile (· = '/')

def relative (resultRel : String) : List Char :=
  trimSlashes (trimDotSlash resultRel.toList)

def joined (workspaceRoot : String) (rel : List Char) : List Char :=
  trimEndSlashes workspaceRoot.toList ++ '/' :: rel

def rsplitOnce (sep : Char) (text : List Char) : Option (List Char × List Char) :=
  if sep ∈ text then
    some (((text.reverse.dropWhile (· ≠ sep)).drop 1).reverse, (text.reverse.takeWhile (· ≠ sep)).reverse)
  else none

def parentText (workspaceRoot : String) (full : List Char) : List Char :=
  ((rsplitOnce '/' full).map Prod.fst).getD (trimEndSlashes workspaceRoot.toList)

def deliveryScript (dir output full : List Char) : List Char :=
  "mkdir -p ".toList ++ (shellQuote dir ++ (" && printf %s ".toList ++ (shellQuote output ++
    (" > ".toList ++ shellQuote full))))

def deliveryArgv (container workspaceRoot : String) (full output : List Char) : List String :=
  ["docker", "exec", container, "sh", "-c", String.ofList (deliveryScript (parentText workspaceRoot full) output full)]

def deliver (container : String) (argv : List String) (resp : BrokerResponse) : Except BrokerError BrokerResponse :=
  match host.run argv with
  | .error detail => .error (.box detail)
  | .ok out =>
    if out.ok then .ok resp
    else .error (.box ("delivering broker result into " ++ container ++ " failed: " ++
      String.ofList (trim out.stderr.toList)))

def executeIntoContainer (container workspaceRoot resultRel : String) (req : BrokerRequest) :
    Except BrokerError BrokerResponse × List BrokerEvent :=
  if resultPathEscapes resultRel then (.error (.resultPathEscapes resultRel), [])
  else if relative resultRel = [] then (.error (.resultPathEscapes resultRel), [])
  else
    match execute host req with
    | (.error e, events) => (.error e, events)
    | (.ok resp, events) =>
      let argv := deliveryArgv container workspaceRoot (joined workspaceRoot (relative resultRel)) resp.output.toList
      (deliver host container argv resp, events ++ [.ran argv])

section Script

variable (dir output full rest word : List Char)

theorem shellTokens_mkdir : shellTokens .between ("mkdir -p ".toList ++ rest) =
    (shellTokens .between rest).map fun tokens => .word "mkdir".toList :: .word "-p".toList :: tokens := by
  have htext : "mkdir -p ".toList ++ rest = 'm' :: 'k' :: 'd' :: 'i' :: 'r' :: ' ' :: '-' :: 'p' :: ' ' :: rest := rfl
  rw [htext]
  change ((shellTokens .between rest).map _).map _ = _
  rw [Option.map_map]
  rfl

theorem shellTokens_printf : shellTokens (.word word) (" && printf %s ".toList ++ rest) =
    (shellTokens .between rest).map fun tokens =>
      .word word :: .andIf :: .word "printf".toList :: .word "%s".toList :: tokens := by
  change (((((shellTokens .between rest).map _).map _).map _).map _).map _ = _
  simp only [Option.map_map]
  rfl

theorem shellTokens_into : shellTokens (.word word) (" > ".toList ++ rest) =
    (shellTokens .between rest).map fun tokens => .word word :: .into :: tokens := by
  change ((shellTokens .between rest).map _).map _ = _
  rw [Option.map_map]
  rfl

theorem deliveryScript_eq : deliveryScript dir output full = "mkdir -p ".toList ++ (shellQuote dir ++
    (" && printf %s ".toList ++ (shellQuote output ++ (" > ".toList ++ shellQuote full)))) := rfl

theorem shellTokens_deliveryScript : shellTokens .between (deliveryScript dir output full) =
    some [.word "mkdir".toList, .word "-p".toList, .word dir, .andIf, .word "printf".toList, .word "%s".toList,
      .word output, .into, .word full] := by
  have hlast : shellTokens .between (shellQuote full) = some [.word full] := by
    rw [← List.append_nil (shellQuote full), shellTokens_quoted_between]
    rfl
  rw [deliveryScript_eq, shellTokens_mkdir, shellTokens_quoted_between, shellTokens_printf, shellTokens_quoted_between,
    shellTokens_into, hlast, Option.map_some, Option.map_some, Option.map_some]

theorem readScript_deliveryScript : readScript (deliveryScript dir output full) =
    some [⟨["mkdir".toList, "-p".toList, dir], none⟩, ⟨["printf".toList, "%s".toList, output], some full⟩] := by
  rw [readScript, shellTokens_deliveryScript, Option.bind_some]
  simp only [andList, Option.map_some, List.nil_append, List.cons_append]

end Script

section Paths

theorem normalizeSegments_eq_none {segs : List (List Char)} :
    normalizeSegments segs = none ↔ ['.', '.'] ∈ segs := by
  induction segs with
  | nil => simp [normalizeSegments]
  | cons seg segs ih =>
    rw [normalizeSegments, List.mem_cons]
    split_ifs with hdot hparent
    · have hnot : ['.', '.'] ≠ seg := by
        rintro rfl
        exact absurd hdot (by decide)
      rw [ih, or_iff_right hnot]
    · simp [hparent]
    · rw [Option.map_eq_none_iff, ih, or_iff_right (Ne.symm hparent)]

theorem mem_namedSegments_parent {path : List Char} :
    ['.', '.'] ∈ namedSegments path ↔ ['.', '.'] ∈ path.splitOn '/' := by
  simp [namedSegments]

theorem resultPathEscapes_iff {resultRel : String} : resultPathEscapes resultRel = true ↔
    isAbsolute resultRel.toList = true ∨ ['.', '.'] ∈ namedSegments resultRel.toList := by
  rw [resultPathEscapes, normalizePath, isAbsolute, decide_eq_true_iff, mem_namedSegments_parent]
  split_ifs with habsolute
  · simp [habsolute]
  · rw [Option.isNone_iff_eq_none, normalizeSegments_eq_none, or_iff_right habsolute]

theorem namedSegments_slash (rest : List Char) : namedSegments ('/' :: rest) = namedSegments rest :=
  namedSegments_append_slash [] rest

theorem namedSegments_trimDotSlash (text : List Char) : namedSegments (trimDotSlash text) = namedSegments text := by
  fun_induction trimDotSlash text with
  | case1 rest ih => exact ih.trans (namedSegments_append_slash ['.'] rest).symm
  | case2 text => rfl

theorem namedSegments_trimSlashes (text : List Char) : namedSegments (trimSlashes text) = namedSegments text := by
  induction text with
  | nil => rfl
  | cons ch text ih =>
    rw [trimSlashes, List.dropWhile_cons]
    split_ifs with hch
    · obtain rfl : ch = '/' := by simpa using hch
      rw [namedSegments_slash]
      exact ih
    · rfl

theorem namedSegments_relative (resultRel : String) :
    namedSegments (relative resultRel) = namedSegments resultRel.toList := by
  rw [relative, namedSegments_trimSlashes, namedSegments_trimDotSlash]

theorem namedSegments_trimEndSlashes (text : List Char) :
    namedSegments (trimEndSlashes text) = namedSegments text := by
  induction text using List.reverseRecOn with
  | nil => rfl
  | append_singleton text ch ih =>
    rw [trimEndSlashes, List.rdropWhile_concat]
    split_ifs with hch
    · obtain rfl : ch = '/' := by simpa using hch
      rw [namedSegments_append_slash]
      exact ih.trans (List.append_nil _).symm
    · rfl

theorem namedSegments_joined (workspaceRoot : String) (rel : List Char) :
    namedSegments (joined workspaceRoot rel) = namedSegments workspaceRoot.toList ++ namedSegments rel := by
  rw [joined, namedSegments_append_slash, namedSegments_trimEndSlashes]

theorem isAbsolute_joined {workspaceRoot : String} (h : isAbsolute workspaceRoot.toList = true) (rel : List Char) :
    isAbsolute (joined workspaceRoot rel) = true := by
  rw [isAbsolute, decide_eq_true_iff] at h ⊢
  rw [joined]
  cases htrim : trimEndSlashes workspaceRoot.toList with
  | nil => rfl
  | cons ch text =>
    obtain ⟨rest, hrest⟩ := List.rdropWhile_prefix (fun ch : Char => decide (ch = '/')) (l := workspaceRoot.toList)
    have hroot : (ch :: text) ++ rest = workspaceRoot.toList := by rw [← htrim]; exact hrest
    rw [← hroot] at h
    exact h

theorem rsplitOnce_eq_some {sep : Char} {text : List Char} (h : sep ∈ text) :
    ∃ front last, rsplitOnce sep text = some (front, last) ∧ text = front ++ sep :: last ∧ sep ∉ last := by
  have hsplit := List.takeWhile_append_dropWhile (p := fun ch => decide (ch ≠ sep)) (l := text.reverse)
  have hlast : sep ∉ text.reverse.takeWhile (· ≠ sep) := fun hmem => by
    simpa using List.mem_takeWhile_imp hmem
  have hrest : text.reverse.dropWhile (· ≠ sep) ≠ [] := fun hnil => by
    rw [hnil, List.append_nil] at hsplit
    exact hlast (by rw [hsplit]; exact List.mem_reverse.mpr h)
  obtain ⟨ch, rest, hcons⟩ := List.exists_cons_of_ne_nil hrest
  obtain rfl : ch = sep := by
    have hhead := List.head?_dropWhile_not (fun ch => decide (ch ≠ sep)) text.reverse
    rw [hcons] at hhead
    simpa using hhead
  refine ⟨rest.reverse, (text.reverse.takeWhile (· ≠ ch)).reverse, ?_, ?_, ?_⟩
  · rw [rsplitOnce, if_pos h, hcons]
    rfl
  · rw [hcons] at hsplit
    have hreverse := congrArg List.reverse hsplit
    rw [List.reverse_reverse, List.reverse_append, List.reverse_cons, List.append_assoc] at hreverse
    exact hreverse.symm
  · exact fun hmem => hlast (List.mem_reverse.mp hmem)

theorem parentText_joined (workspaceRoot : String) (rel : List Char) :
    ∃ last, joined workspaceRoot rel = parentText workspaceRoot (joined workspaceRoot rel) ++ '/' :: last ∧
      '/' ∉ last := by
  have hmem : '/' ∈ joined workspaceRoot rel := by
    rw [joined]
    exact List.mem_append_right _ List.mem_cons_self
  obtain ⟨front, last, hsplit, htext, hlast⟩ := rsplitOnce_eq_some hmem
  refine ⟨last, ?_, hlast⟩
  rw [parentText, hsplit]
  exact htext

end Paths

def commands (events : List BrokerEvent) : List (List String) :=
  events.filterMap fun event =>
    match event with
    | .ran argv => some argv
    | .resolved _ => none

variable (container workspaceRoot : String) (req : BrokerRequest) {resultRel : String}

theorem execute_cases :
    (∃ e events, execute host req = (.error e, events) ∧ commands events = [] ∧
      ∀ resultPath, e ≠ .resultPathEscapes resultPath) ∨
    ∃ resp, execute host req = (.ok resp, [.resolved req.op.secretRef]) := by
  rw [execute]
  split_ifs
  · exact .inl ⟨_, _, rfl, rfl, by simp⟩
  · cases host.resolve req.op.secretRef with
    | error reason => exact .inl ⟨_, _, rfl, rfl, by simp⟩
    | ok found =>
      cases found with
      | none => exact .inl ⟨_, _, rfl, rfl, by simp⟩
      | some material => exact .inr ⟨_, rfl⟩

theorem executeIntoContainer_of_refused
    (h : resultPathEscapes resultRel = true ∨ relative resultRel = []) :
    executeIntoContainer host container workspaceRoot resultRel req =
      (.error (.resultPathEscapes resultRel), []) := by
  rw [executeIntoContainer]
  split_ifs with hescapes hempty
  · rfl
  · rfl
  · exact absurd (h.resolve_left hescapes) hempty

theorem executeIntoContainer_of_passed (hescapes : resultPathEscapes resultRel = false)
    (hrel : relative resultRel ≠ []) :
    (∃ e events, executeIntoContainer host container workspaceRoot resultRel req = (.error e, events) ∧
      commands events = [] ∧ ∀ resultPath, e ≠ .resultPathEscapes resultPath) ∨
    ∃ resp result, (execute host req).1 = .ok resp ∧
      executeIntoContainer host container workspaceRoot resultRel req =
        (result, [.resolved req.op.secretRef, .ran (deliveryArgv container workspaceRoot
          (joined workspaceRoot (relative resultRel)) resp.output.toList)]) := by
  rw [executeIntoContainer, if_neg (by simp [hescapes]), if_neg hrel]
  rcases execute_cases host req with ⟨e, events, hexecute, hcommands, he⟩ | ⟨resp, hexecute⟩
  · exact .inl ⟨e, events, by rw [hexecute], hcommands, he⟩
  · exact .inr ⟨resp, _, by rw [hexecute], by rw [hexecute]; rfl⟩

def StrictlyBelow (root path : List Char) : Prop :=
  ∃ names, names ≠ [] ∧ ['.', '.'] ∉ names ∧ namedSegments path = namedSegments root ++ names

structure Confined (resultRel : String) : Prop where
  delivered :
    (∃ e, (executeIntoContainer host container workspaceRoot resultRel req).1 = .error e) ∧
      commands (executeIntoContainer host container workspaceRoot resultRel req).2 = [] ∨
    ∃ resp script dir last, (execute host req).1 = .ok resp ∧
      commands (executeIntoContainer host container workspaceRoot resultRel req).2 =
        [["docker", "exec", container, "sh", "-c", String.ofList script]] ∧
      readScript script = some [⟨["mkdir".toList, "-p".toList, dir], none⟩,
        ⟨["printf".toList, "%s".toList, resp.output.toList], some (dir ++ '/' :: last)⟩] ∧
      '/' ∉ last ∧ isAbsolute (dir ++ '/' :: last) = true ∧
      StrictlyBelow workspaceRoot.toList (dir ++ '/' :: last)
  refused : isAbsolute resultRel.toList = true ∨ ['.', '.'] ∈ namedSegments resultRel.toList ∨
      namedSegments resultRel.toList = [] →
    executeIntoContainer host container workspaceRoot resultRel req =
      (.error (.resultPathEscapes resultRel), [])

/-- The path names the workspace root, and its leading segments do not show it. -/
def HidesRoot (resultRel : String) : Prop :=
  isAbsolute resultRel.toList = false ∧ namedSegments resultRel.toList = [] ∧ relative resultRel ≠ []

theorem confined_of_refused (h : resultPathEscapes resultRel = true ∨ relative resultRel = []) :
    Confined host container workspaceRoot req resultRel := by
  have hrefused := executeIntoContainer_of_refused host container workspaceRoot req h
  exact ⟨.inl ⟨⟨_, by rw [hrefused]⟩, by rw [hrefused]; rfl⟩, fun _ => hrefused⟩

theorem confined_iff (resultRel : String) (hroot : isAbsolute workspaceRoot.toList = true) :
    Confined host container workspaceRoot req resultRel ↔ ¬ HidesRoot resultRel := by
  constructor
  · rintro h ⟨habsolute, hnames, hrel⟩
    have hescapes : resultPathEscapes resultRel = false := by
      rw [← Bool.not_eq_true, resultPathEscapes_iff, habsolute, hnames]
      simp
    have hrefused := h.refused (.inr (.inr hnames))
    rcases executeIntoContainer_of_passed host container workspaceRoot req hescapes hrel with
      ⟨e, events, hpassed, -, he⟩ | ⟨resp, result, -, hpassed⟩
    · rw [hpassed] at hrefused
      exact he resultRel (Except.error.inj (Prod.mk.inj hrefused).1)
    · rw [hpassed] at hrefused
      exact absurd (Prod.mk.inj hrefused).2 (by simp)
  · intro hshown
    by_cases hguard : resultPathEscapes resultRel = true ∨ relative resultRel = []
    · exact confined_of_refused host container workspaceRoot req hguard
    · rw [not_or, Bool.not_eq_true] at hguard
      obtain ⟨hescapes, hrel⟩ := hguard
      have hsafe := mt resultPathEscapes_iff.mpr (Bool.not_eq_true _ ▸ hescapes)
      rw [not_or, Bool.not_eq_true] at hsafe
      have hnames : namedSegments resultRel.toList ≠ [] := fun hnil => hshown ⟨hsafe.1, hnil, hrel⟩
      refine ⟨?_, fun h => ?_⟩
      · rcases executeIntoContainer_of_passed host container workspaceRoot req hescapes hrel with
          ⟨e, events, hpassed, hcommands, -⟩ | ⟨resp, result, hexecute, hpassed⟩
        · exact .inl ⟨⟨e, by rw [hpassed]⟩, by rw [hpassed]; exact hcommands⟩
        · right
          obtain ⟨last, htext, hlast⟩ := parentText_joined workspaceRoot (relative resultRel)
          refine ⟨resp, _, parentText workspaceRoot (joined workspaceRoot (relative resultRel)), last, hexecute,
            by rw [hpassed]; rfl, ?_, hlast, ?_, ?_⟩
          · rw [← htext]
            exact readScript_deliveryScript _ _ _
          · rw [← htext]
            exact isAbsolute_joined hroot _
          · rw [← htext]
            exact ⟨namedSegments resultRel.toList, hnames, hsafe.2,
              by rw [namedSegments_joined, namedSegments_relative]⟩
      · rcases h with habsolute | hparent | hnil
        · rw [hsafe.1] at habsolute
          cases habsolute
        · exact absurd hparent hsafe.2
        · exact absurd hnil hnames

def openHost : BrokerHost where
  digest := fun _ => []
  resolve := fun _ => .ok (some [1])
  run := fun _ => .ok ⟨some 0, ""⟩

def signRequest : BrokerRequest :=
  ⟨⟨"lease", ["user:a"], .held⟩, .sign "key" [2]⟩

theorem signature_confined : Confined openHost "job" "/ws" signRequest "out/sig" := by
  refine (confined_iff openHost "job" "/ws" signRequest "out/sig" (by decide +kernel)).mpr ?_
  rintro ⟨-, hnames, -⟩
  exact absurd hnames (by decide +kernel)

theorem dot_delivered_to_root :
    (executeIntoContainer openHost "job" "/ws" "." signRequest).2 =
        [.resolved "key", .ran (deliveryArgv "job" "/ws" "/ws/.".toList [])] ∧
      namedSegments "/ws/.".toList = namedSegments "/ws".toList := by
  decide +kernel

end Broker

end Hugit

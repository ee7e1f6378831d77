import Hugit.Fallible
import Hugit.MemoKey
import Hugit.SecretShape

/-! What a memoized check answers: a result, from the action cache or not, or an error. -/

namespace Hugit

structure Artifact where
  path : String
  digest : String
  deriving DecidableEq

structure CheckResult where
  memoKey : String
  treeHash : String
  defDigest : String
  toolchainDigest : String
  exit : Int
  artifacts : List Artifact
  stdoutRef : String
  stderrRef : String
  durationMs : Nat
  runnerRef : String
  producedAt : Nat
  deriving DecidableEq

inductive AcError where
  | notWired (endpoint : String)
  | transport (detail : String)
  | busy (detail : String)
  | notConfigured (what : String)
  | status (code : Nat)
  | decode (detail : String)
  | digestMismatch (requested returned : String)
  | invalidKey (what : String)
  deriving DecidableEq

inductive ExecError where
  | ac (e : AcError)
  | run (detail : String)
  | timeout (secs : Nat)
  deriving DecidableEq

structure CheckOutcome where
  result : CheckResult
  fromCache : Bool
  localExecutions : Nat
  deriving DecidableEq

end Hugit

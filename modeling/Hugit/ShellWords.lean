import Mathlib.Tactic

/-! Shell texts read by the quoting rules: single quotes keep every character, a backslash keeps the next
one, blanks end a word. A text with anything that would be expanded is not read. -/

namespace Hugit

inductive ShellToken where
  | word (text : List Char)
  | andIf
  | into
  deriving DecidableEq

inductive ShellMode where
  | between
  | word (text : List Char)
  | quoted (text : List Char)

/-- Characters that stand for themselves outside quotes. -/
def isPlain (ch : Char) : Bool :=
  ch.isAlphanum || ch == '-' || ch == '%' || ch == '/' || ch == '.' || ch == '_'

def ShellMode.text : ShellMode → List Char
  | .between => []
  | .word text => text
  | .quoted text => text

def ShellMode.flush : ShellMode → List ShellToken → List ShellToken
  | .word text, tokens => .word text :: tokens
  | _, tokens => tokens

def shellTokens : ShellMode → List Char → Option (List ShellToken)
  | .quoted _, [] => none
  | mode, [] => some (mode.flush [])
  | .quoted text, '\'' :: rest => shellTokens (.word text) rest
  | .quoted text, ch :: rest => shellTokens (.quoted (text ++ [ch])) rest
  | mode, '\'' :: rest => shellTokens (.quoted mode.text) rest
  | mode, '\\' :: ch :: rest => if ch = '\n' then none else shellTokens (.word (mode.text ++ [ch])) rest
  | mode, ' ' :: rest => (shellTokens .between rest).map mode.flush
  | mode, '&' :: '&' :: rest => (shellTokens .between rest).map fun tokens => mode.flush (.andIf :: tokens)
  | .between, '>' :: ' ' :: rest => (shellTokens .between rest).map (.into :: ·)
  | mode, ch :: rest => if isPlain ch then shellTokens (.word (mode.text ++ [ch])) rest else none

structure SimpleCommand where
  argv : List (List Char)
  output : Option (List Char)
  deriving DecidableEq

/-- The commands of an and-list, each with the file its output goes to. -/
def andList : List (List Char) → List ShellToken → Option (List SimpleCommand)
  | argv, [] => some [⟨argv, none⟩]
  | argv, .word text :: tokens => andList (argv ++ [text]) tokens
  | argv, .andIf :: tokens => (andList [] tokens).map (⟨argv, none⟩ :: ·)
  | argv, [.into, .word path] => some [⟨argv, some path⟩]
  | argv, .into :: .word path :: .andIf :: tokens => (andList [] tokens).map (⟨argv, some path⟩ :: ·)
  | _, _ => none

def readScript (script : List Char) : Option (List SimpleCommand) :=
  (shellTokens .between script).bind (andList [])

def escapeQuote (ch : Char) : List Char :=
  if ch = '\'' then ['\'', '\\', '\'', '\''] else [ch]

def shellQuote (text : List Char) : List Char :=
  '\'' :: text.flatMap escapeQuote ++ ['\'']

theorem shellTokens_escaped (word text rest : List Char) :
    shellTokens (.quoted word) (text.flatMap escapeQuote ++ '\'' :: rest) =
      shellTokens (.word (word ++ text)) rest := by
  induction text generalizing word with
  | nil =>
    rw [List.flatMap_nil, List.nil_append, List.append_nil, shellTokens]
  | cons ch text ih =>
    rw [List.flatMap_cons, escapeQuote]
    split_ifs with hch
    · subst hch
      have hih := ih (word ++ ['\''])
      rw [List.append_assoc, List.singleton_append] at hih
      rw [← hih]
      rfl
    · have hih := ih (word ++ [ch])
      rw [List.append_assoc, List.singleton_append] at hih
      rw [List.singleton_append, List.cons_append, shellTokens, hih]
      exact hch

theorem shellTokens_between_quote (rest : List Char) :
    shellTokens .between ('\'' :: rest) = shellTokens (.quoted []) rest := rfl

theorem shellTokens_quoted_between (text rest : List Char) :
    shellTokens .between (shellQuote text ++ rest) = shellTokens (.word text) rest := by
  have hquote : shellQuote text ++ rest = '\'' :: (text.flatMap escapeQuote ++ '\'' :: rest) := by
    simp [shellQuote]
  rw [hquote, shellTokens_between_quote, shellTokens_escaped, List.nil_append]

end Hugit

import Mathlib.Data.List.Basic

/-!
# Splitting a text shell-style

`shlex.split` without comments, in POSIX mode: words are separated by white space, quotes of
both kinds group, and a backslash escapes.
-/

namespace Python

/-- What is left open at the end of the text. -/
inductive ShlexError
  | quotation
  | escape
deriving DecidableEq, Repr

/-- The message of the `ValueError`. -/
def ShlexError.message : ShlexError → String
  | .quotation => "No closing quotation"
  | .escape => "No escaped character"

/-- Where the splitter is. A word is kept in reverse; `quoted`: it has had quotes, and counts
although it may be empty. -/
inductive Shlex
  | blank
  | word (acc : List Char) (quoted : Bool)
  | quotes (acc : List Char) (quote : Char)
  /-- Behind a backslash; `quote`: the quotes it stands in. -/
  | escape (acc : List Char) (quoted : Bool) (quote : Option Char)
deriving DecidableEq, Repr

namespace Shlex

def isSpace (c : Char) : Bool := c == ' ' || c == '\t' || c == '\r' || c == '\n'

def isQuote (c : Char) : Bool := c == '\'' || c == '"'

/-- The next character of a word. -/
def inWord (acc : List Char) (quoted : Bool) (c : Char) : Shlex :=
  if isQuote c then .quotes acc c
  else if c = '\\' then .escape acc quoted none
  else .word (c :: acc) quoted

/-- The words that a text is split into. -/
def run : Shlex → List Char → Except ShlexError (List String)
  | .blank, [] => .ok []
  | .word acc quoted, [] =>
    .ok (if acc.isEmpty && !quoted then [] else [String.ofList acc.reverse])
  | .quotes _ _, [] => .error .quotation
  | .escape _ _ _, [] => .error .escape
  | .blank, c :: cs => if isSpace c then run .blank cs else run (inWord [] false c) cs
  | .word acc quoted, c :: cs =>
    if isSpace c then
      (run .blank cs).map fun words =>
        if acc.isEmpty && !quoted then words else String.ofList acc.reverse :: words
    else run (inWord acc quoted c) cs
  | .quotes acc quote, c :: cs =>
    if c = quote then run (.word acc true) cs
    else if c = '\\' ∧ quote = '"' then run (.escape acc true (some quote)) cs
    else run (.quotes (c :: acc) quote) cs
  | .escape acc quoted none, c :: cs => run (.word (c :: acc) quoted) cs
  | .escape acc _ (some quote), c :: cs =>
    -- within quotes only the quotes themselves and the backslash can be escaped
    run (.quotes (if c = '\\' ∨ c = quote then c :: acc else c :: '\\' :: acc) quote) cs

end Shlex

/-- `shlex.split`. -/
def shlexSplit (s : String) : Except ShlexError (List String) := Shlex.blank.run s.toList

end Python

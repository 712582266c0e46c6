import Jetty.Core.Python.Anchors
import Jetty.Core.Python.Words
import Jetty.Modules.Hg.Log

/-!
# The names of functions

The surface and the `exec` driver check names with the same pattern, each in its own copy of it.
-/

namespace Jetty.Functions

open Python Hg

def isNameChar (c : CodePoint) : Bool :=
  (decide (0x61 ≤ c.val) && decide (c.val ≤ 0x7A)) ||
    (decide (0x30 ≤ c.val) && decide (c.val ≤ 0x39)) || decide (c.val ∈ [0x5F, 0x2E, 0x2D])

/-- The pattern `_NAME` without its anchors. -/
def isName (s : Text) : Bool := !s.isEmpty && decide (s.length ≤ 128) && s.all isNameChar

/-- `_NAME.match`. -/
def matchesName (s : Text) : Bool := anchored Text.newline isName s

section Checks

variable (repr : Text → Text)

/-- `_check_name`. -/
def checkName (name : Text) : Except JettyError Unit :=
  if matchesName name then .ok ()
  else .error ⟨.invalidRequest, text "invalid function name " ++ repr name⟩

/-- One round of the loop in `build`. -/
def checkExecName (fnName : Text) : Except Text Unit :=
  if matchesName fnName then .ok ()
  else .error (text "functions.exec: " ++ repr fnName ++
    text " is not a valid function name (functions-v1 §2)")

/-- The loop in `build`. -/
def checkExecNames (names : List Text) : Except Text Unit := names.forM (checkExecName repr)

end Checks

/-- A name has between 1 and 128 characters of its character set. -/
theorem inCharset_of_isName {s : Text} (h : isName s = true) : InCharset isNameChar 1 128 s := by
  rw [isName, Bool.and_eq_true, Bool.and_eq_true, decide_eq_true_eq, List.all_eq_true] at h
  obtain ⟨⟨hne, hlength⟩, hchars⟩ := h
  rw [Bool.not_eq_true', List.isEmpty_eq_false_iff] at hne
  exact ⟨hchars, List.length_pos_of_ne_nil hne, hlength⟩

end Jetty.Functions

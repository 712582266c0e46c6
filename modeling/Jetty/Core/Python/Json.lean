import Jetty.Core.Python.Text
import Mathlib.Data.Rat.Defs

/-!
# Values of JSON

What `json.loads` returns. A dictionary is the list of its entries.
-/

namespace Python

/-- A `float`. -/
inductive Double
  | finite (q : ℚ)
  | inf
  | negInf
  | nan
deriving DecidableEq

inductive Json
  | null
  | bool (b : Bool)
  | int (n : ℤ)
  | float (x : Double)
  | str (s : Text)
  | list (xs : List Json)
  | dict (entries : List (Text × Json))

namespace Json

/-- `dict.get` without a default. -/
def get? (entries : List (Text × Json)) (key : Text) : Option Json := entries.lookup key

/-- `isinstance(value, str)` of all values of a list. -/
def strings? : List Json → Option (List Text)
  | [] => some []
  | .str s :: xs => (strings? xs).map (s :: ·)
  | _ :: _ => none

end Json

end Python

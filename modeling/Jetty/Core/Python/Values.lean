import Jetty.Core.Python.Integer

/-!
# Values as Python treats them

Truth, hashability and equality of the values of JSON, and `int` with its exceptions.
-/

namespace Python

/-- `==` of two floats. -/
def Double.same : Double → Double → Bool
  | .finite p, .finite q => p = q
  | .inf, .inf | .negInf, .negInf => true
  | _, _ => false

namespace Json

/-- The number that the value is. -/
def number? : Json → Option Double
  | .bool b => some (.finite (if b then 1 else 0))
  | .int n => some (.finite n)
  | .float x => some x
  | _ => none

/-- `bool(value)`. -/
def truthy : Json → Bool
  | .null => false
  | .bool b => b
  | .int n => n ≠ 0
  | .float x => x ≠ .finite 0
  | .str s => !s.isEmpty
  | .list xs => !xs.isEmpty
  | .dict entries => !entries.isEmpty

/-- `hash(value)` does not raise. -/
def hashable : Json → Bool
  | .list _ | .dict _ => false
  | _ => true

/-- `==` of two hashable values. -/
def same (v w : Json) : Bool :=
  match v.number?, w.number? with
  | some x, some y => x.same y
  | some _, none | none, some _ => false
  | none, none =>
    match v, w with
    | .null, .null => true
    | .str s, .str t => s = t
    | _, _ => false

/-- Why `int(value)` raises. -/
inductive IntError
  | value
  /-- `TypeError` or `OverflowError`. -/
  | other
deriving DecidableEq, Repr

/-- `int(value)`. -/
def asInt (v : Json) : Except IntError ℤ :=
  match v.toInt with
  | some n => .ok n
  | none =>
    match v with
    | .str _ | .float .nan => .error .value
    | _ => .error .other

end Json

end Python

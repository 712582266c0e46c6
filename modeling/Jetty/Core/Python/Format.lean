import Jetty.Core.Python.Unicode
import Mathlib.Logic.Basic
import Mathlib.Algebra.Group.Nat.Defs

/-!
# Format strings

The parser behind `str.format`, the format specifications of strings, and the loop of
`string.Formatter.vformat` over a way to look fields up and to format values. Format
specifications are templates themselves, to a depth that `vformat` bounds.
-/

namespace Python

/-- What the parser, the loop and the format specifications of strings reject. -/
inductive FormatError
  | singleClose
  | singleOpen
  | openInFieldName
  | expectedClose
  | endBeforeConversion
  | expectedColon
  | unmatchedOpen
  | mixedNumbering
  | unknownConversion (c : Char)
  | recursion
  | badSpec
deriving DecidableEq, Repr

/-- A replacement field. -/
structure Field where
  name : String
  spec : String := ""
  conversion : Option Char := none
deriving DecidableEq, Repr

/-- The pieces of a template as `string.Formatter.parse` yields them, up to an error. -/
inductive Parsed
  | done
  | failed (e : FormatError)
  | piece (literal : String) (field : Option Field) (rest : Parsed)
deriving DecidableEq, Repr

namespace Parsed

/-- The fields the parser yields. -/
def fields : Parsed → List Field
  | .done | .failed _ => []
  | .piece _ field rest => field.toList ++ rest.fields

/-- The error that ends the iteration. -/
def error : Parsed → Option FormatError
  | .done => none
  | .failed e => some e
  | .piece _ _ rest => rest.error

end Parsed

/-- Where the parser is. What has been read of the current part is kept in reverse. -/
inductive Scan
  | literal (acc : List Char)
  /-- Behind a first brace. -/
  | brace (acc : List Char) (b : Char)
  /-- In a field name; `bracket`: in an index, where anything goes. -/
  | name (literal acc : List Char) (bracket : Bool)
  /-- Behind the `!`. -/
  | bang (literal name : List Char)
  /-- Behind the conversion. -/
  | converted (literal name : List Char) (conversion : Char)
  /-- In the format specification, `depth` braces deep. -/
  | spec (literal name : List Char) (conversion : Option Char) (depth : ℕ) (acc : List Char)
deriving DecidableEq, Repr

inductive Scanned
  | goto (s : Scan)
  | fail (e : FormatError)
  | emit (literal : String) (field : Option Field) (s : Scan)
deriving DecidableEq, Repr

namespace Scan

/-- The text of a part that was kept in reverse. -/
def text (acc : List Char) : String := String.ofList acc.reverse

/-- A field is complete. -/
def close (lit key : List Char) (spec : List Char) (conversion : Option Char) : Scanned :=
  .emit (text lit) (some ⟨text key, text spec, conversion⟩) (.literal [])

/-- The next character of a field name. -/
def nextName (lit acc : List Char) : Bool → Char → Scanned
  | true, c => .goto (.name lit (c :: acc) (c ≠ ']'))
  | false, '{' => .fail .openInFieldName
  | false, '[' => .goto (.name lit ('[' :: acc) true)
  | false, '}' => close lit acc [] none
  | false, ':' => .goto (.spec lit acc none 1 [])
  | false, '!' => .goto (.bang lit acc)
  | false, c => .goto (.name lit (c :: acc) false)

/-- The next character of a template. -/
def next : Scan → Char → Scanned
  | .literal acc, c => .goto (if c = '{' ∨ c = '}' then .brace acc c else .literal (c :: acc))
  | .brace acc b, c =>
    if c = b then .emit (text (b :: acc)) none (.literal [])
    else if b = '}' then .fail .singleClose
    else nextName acc [] false c
  | .name lit acc bracket, c => nextName lit acc bracket c
  | .bang lit key, c => .goto (.converted lit key c)
  | .converted lit key conversion, '}' => close lit key [] (some conversion)
  | .converted lit key conversion, ':' => .goto (.spec lit key (some conversion) 1 [])
  | .converted _ _ _, _ => .fail .expectedColon
  | .spec lit key conversion depth acc, '{' =>
    .goto (.spec lit key conversion (depth + 1) ('{' :: acc))
  | .spec lit key conversion depth acc, '}' =>
    if depth ≤ 1 then close lit key acc conversion
    else .goto (.spec lit key conversion (depth - 1) ('}' :: acc))
  | .spec lit key conversion depth acc, c =>
    .goto (.spec lit key conversion depth (c :: acc))

/-- The end of a template. -/
def finish : Scan → Parsed
  | .literal [] => .done
  | .literal acc => .piece (text acc) none .done
  | .brace _ b => .failed (if b = '}' then .singleClose else .singleOpen)
  | .name _ _ _ => .failed .expectedClose
  | .bang _ _ => .failed .endBeforeConversion
  | .converted _ _ _ | .spec _ _ _ _ _ => .failed .unmatchedOpen

/-- The rest of a template. -/
def run : Scan → List Char → Parsed
  | s, [] => s.finish
  | s, c :: cs =>
    match s.next c with
    | .goto s => s.run cs
    | .fail e => .failed e
    | .emit lit field s => .piece lit field (s.run cs)

end Scan

/-- `string.Formatter.parse`. -/
def parse (template : String) : Parsed := (Scan.literal []).run template.toList

/-- The format specification of a string, read from left to right. -/
structure Spec where
  fill : Char := ' '
  align : Char := '<'
  sign : Bool := false
  noNegativeZero : Bool := false
  alternate : Bool := false
  width : Option ℕ := none
  thousands : Bool := false
  precision : Option ℕ := none
  type : Char := 's'
deriving DecidableEq, Repr

namespace Spec

/-- The largest width and precision. -/
def maxSize : ℕ := 2 ^ 63 - 1

/-- Leading decimal digits: their value, unless it is too large, and what follows. -/
def integer : Option ℕ → List Char → Except FormatError (Option ℕ × List Char)
  | n, [] => .ok (n, [])
  | n, c :: cs =>
    match decimal c with
    | none => .ok (n, c :: cs)
    | some d =>
      if n.getD 0 * 10 + d ≤ maxSize then integer (some (n.getD 0 * 10 + d)) cs
      else .error .badSpec

def isAlign (c : Char) : Bool := c == '<' || c == '>' || c == '=' || c == '^'

/-- Fill character and alignment. -/
def aligned (s : Spec) : List Char → Bool × Spec × List Char
  | fill :: align :: cs =>
    if isAlign align then (true, { s with fill := fill, align := align }, cs)
    else if isAlign fill then (false, { s with align := fill }, align :: cs)
    else (false, s, fill :: align :: cs)
  | [align] => if isAlign align then (false, { s with align := align }, []) else (false, s, [align])
  | [] => (false, s, [])

/-- An optional flag. -/
def flag (test : Char → Bool) : List Char → Bool × List Char
  | c :: cs => if test c then (true, cs) else (false, c :: cs)
  | [] => (false, [])

/-- The precision behind a dot. -/
def precise : List Char → Except FormatError (Option ℕ × List Char)
  | '.' :: cs => do
    let (precision, cs) ← integer none cs
    if precision.isNone then .error .badSpec else .ok (precision, cs)
  | cs => .ok (none, cs)

/-- The grouping options; both of them together are an error. -/
def grouped (cs : List Char) : Except FormatError (Bool × List Char) :=
  let (comma, cs) := flag (· == ',') cs
  let (underscore, cs) := flag (· == '_') cs
  if comma && underscore || underscore && cs.head? == some ',' then .error .badSpec
  else .ok (comma || underscore, cs)

/-- The parser of format specifications, for the defaults of strings. -/
def parse (cs : List Char) : Except FormatError Spec := do
  let (filled, s, cs) := aligned {} cs
  let (sign, cs) := flag (fun c => c == ' ' || c == '+' || c == '-') cs
  let (noNegativeZero, cs) := flag (· == 'z') cs
  let (alternate, cs) := flag (· == '#') cs
  let (zero, cs) := if filled then (false, cs) else flag (· == '0') cs
  let (width, cs) ← integer none cs
  let (thousands, cs) ← grouped cs
  let (precision, cs) ← precise cs
  let s := { s with
    fill := if zero then '0' else s.fill
    sign, noNegativeZero, alternate, width, thousands, precision }
  match cs with
  | [] => .ok s
  | [type] => .ok { s with type := type }
  | _ => .error .badSpec

/-- Nothing but alignment, width and precision applies to a string. -/
def valid (s : Spec) : Bool :=
  s.type == 's' && !s.sign && !s.noNegativeZero && !s.alternate && !s.thousands && s.align != '='

/-- Cut and pad. -/
def apply (s : Spec) (value : List Char) : List Char :=
  let value := s.precision.elim value value.take
  let pad := s.width.getD 0 - value.length
  let left := if s.align == '>' then pad else if s.align == '^' then pad / 2 else 0
  List.replicate left s.fill ++ value ++ List.replicate (pad - left) s.fill

end Spec

/-- `str.__format__`. -/
def formatStr (value spec : String) : Except FormatError String :=
  if spec = "" then .ok value
  else do
    let s ← Spec.parse spec.toList
    if s.valid then .ok (String.ofList (s.apply value.toList)) else .error .badSpec

/-- What a subclass of `string.Formatter` decides, over the values it looks up. -/
structure Formatter (ω ε : Type) where
  getField : String → Except ε ω
  formatField : ω → String → Except ε String
  /-- `str`, `repr` and `ascii` of a value. -/
  str : ω → ω
  repr : ω → ω
  ascii : ω → ω
  /-- The exception that carries an error of the format string. -/
  valueError : FormatError → ε

namespace Formatter

variable {ω ε : Type}

/-- `convert_field`. -/
def convertField (F : Formatter ω ε) (value : ω) : Option Char → Except ε ω
  | none => .ok value
  | some 's' => .ok (F.str value)
  | some 'r' => .ok (F.repr value)
  | some 'a' => .ok (F.ascii value)
  | some c => .error (F.valueError (.unknownConversion c))

/-- The name under which a field is looked up, and the numbering of the fields without a name
after it: `none` once a field was numbered by hand. -/
def number (name : String) (auto : Option ℕ) : Except FormatError (String × Option ℕ) :=
  if name = "" then
    match auto with
    | none => .error .mixedNumbering
    | some n => .ok (toString n, some (n + 1))
  else if isDigit name.toList then
    if auto.getD 0 ≠ 0 then .error .mixedNumbering else .ok (name, none)
  else .ok (name, auto)

/-- The loop of `_vformat` over the pieces; `expand` renders a format specification. -/
def format (F : Formatter ω ε)
    (expand : String → Option ℕ → Except ε (String × Option ℕ)) :
    Parsed → Option ℕ → Except ε (String × Option ℕ)
  | .done, auto => .ok ("", auto)
  | .failed e, _ => .error (F.valueError e)
  | .piece literal none rest, auto => do
    let (out, auto) ← F.format expand rest auto
    .ok (literal ++ out, auto)
  | .piece literal (some field) rest, auto => do
    let (name, auto) ← (number field.name auto).mapError F.valueError
    let value ← F.getField name
    let value ← F.convertField value field.conversion
    let (spec, auto) ← expand field.spec auto
    let text ← F.formatField value spec
    let (out, auto) ← F.format expand rest auto
    .ok (literal ++ text ++ out, auto)

/-- `_vformat`, `depth` more than its `recursion_depth`. -/
def vformatAux (F : Formatter ω ε) : ℕ → String → Option ℕ → Except ε (String × Option ℕ)
  | 0, _, _ => .error (F.valueError .recursion)
  | depth + 1, template, auto => F.format (F.vformatAux depth) (parse template) auto

/-- `vformat`. -/
def vformat (F : Formatter ω ε) (template : String) : Except ε String :=
  (F.vformatAux 3 template (some 0)).map Prod.fst

end Formatter

end Python

import Jetty.Core.Python.Dict
import Jetty.Core.Python.JsonStrings
import Jetty.Core.Python.Words

/-!
# The text of JSON

`json.dumps` in its layouts, and `json.loads`. How floating-point numbers are written and read is
left to a parameter.
-/

namespace Python

namespace Json

def comma : CodePoint := 0x2C

def colon : CodePoint := 0x3A

def openBracket : CodePoint := 0x5B

def closeBracket : CodePoint := 0x5D

def openBrace : CodePoint := 0x7B

def closeBrace : CodePoint := 0x7D

def minus : CodePoint := 0x2D

def zero : CodePoint := 0x30

def point : CodePoint := 0x2E

/-- `WHITESPACE`. -/
def isBlank (c : CodePoint) : Bool :=
  c.val == 0x20 || c.val == 0x9 || c.val == 0xA || c.val == 0xD

/-- A text without the blanks at its beginning. -/
def skip (s : Text) : Text := s.dropWhile isBlank

def isDigit (c : CodePoint) : Bool := decide (0x30 ≤ c.val) && decide (c.val ≤ 0x39)

/-- `float.__repr__` of the finite numbers, and `float` of a text. -/
structure Floats where
  repr : ℚ → Text
  ofText : Text → Double

/-- How `json.dumps` lays its text out: `ensure_ascii`, `indent`, and what the separators have
behind the comma and the colon. -/
structure Layout where
  ascii : Bool
  indent : Option ℕ
  afterComma : Text
  afterColon : Text
  blank : (afterComma ++ afterColon).all isBlank = true

/-- The layout of a `JSONResponse`. -/
def responseLayout : Layout := ⟨false, none, [], [], rfl⟩

section Printing

variable (F : Floats) (L : Layout)

/-- `_newline_indent`. -/
def Layout.newline (level : ℕ) : Text :=
  match L.indent with
  | none => []
  | some width => Text.newline :: List.replicate (width * level) 0x20

/-- What separates two items. -/
def Layout.separator (level : ℕ) : Text := comma :: (L.afterComma ++ L.newline level)

/-- `int.__repr__`. -/
def intText : ℤ → Text
  | .ofNat n => numeral n
  | .negSucc n => minus :: numeral (n + 1)

/-- `floatstr`. -/
def Floats.text : Double → Text
  | .finite q => F.repr q
  | .inf => Python.text "Infinity"
  | .negInf => Python.text "-Infinity"
  | .nan => Python.text "NaN"

mutual

/-- The text of a value inside of so many lists and dictionaries. -/
def dumpsAt (level : ℕ) : Json → Text
  | .null => text "null"
  | .bool true => text "true"
  | .bool false => text "false"
  | .int n => intText n
  | .float x => F.text x
  | .str s => encodeString L.ascii s
  | .list [] => [openBracket, closeBracket]
  | .list (x :: xs) =>
    openBracket :: (L.newline (level + 1) ++ (dumpsAt (level + 1) x ++
      (dumpsItems (level + 1) xs ++ (L.newline level ++ [closeBracket]))))
  | .dict [] => [openBrace, closeBrace]
  | .dict (e :: es) =>
    openBrace :: (L.newline (level + 1) ++ (dumpsEntry (level + 1) e ++
      (dumpsEntries (level + 1) es ++ (L.newline level ++ [closeBrace]))))

/-- The items of a list behind the first one. -/
def dumpsItems (level : ℕ) : List Json → Text
  | [] => []
  | x :: xs => L.separator level ++ (dumpsAt level x ++ dumpsItems level xs)

/-- A key and its value. -/
def dumpsEntry (level : ℕ) : Text × Json → Text
  | (k, v) => encodeString L.ascii k ++ (colon :: (L.afterColon ++ dumpsAt level v))

/-- The entries of a dictionary behind the first one. -/
def dumpsEntries (level : ℕ) : List (Text × Json) → Text
  | [] => []
  | e :: es => L.separator level ++ (dumpsEntry level e ++ dumpsEntries level es)

end

/-- `json.dumps`. -/
def dumps (v : Json) : Text := dumpsAt F L 0 v

end Printing

section Scanning

variable (F : Floats)

/-- The words for values. -/
def constants : List (Text × Json) :=
  [(text "null", .null), (text "true", .bool true), (text "false", .bool false),
    (text "NaN", .float .nan), (text "Infinity", .float .inf), (text "-Infinity", .float .negInf)]

def scanConstant (s : Text) : Option (Json × Text) :=
  constants.findSome? fun p => if p.1.isPrefixOf s then some (p.2, s.drop p.1.length) else none

/-- The digits at the beginning of a text. -/
def takeDigits (s : Text) : Text := s.takeWhile isDigit

def dropDigits (s : Text) : Text := s.dropWhile isDigit

/-- The fraction of a number, if there is one, and what stands behind it. -/
def scanFraction : Text → Text × Text
  | [] => ([], [])
  | c :: s =>
    if c = point ∧ takeDigits s ≠ [] then (c :: takeDigits s, dropDigits s) else ([], c :: s)

/-- The sign of an exponent. -/
def exponentSign : Text → Text × Text
  | [] => ([], [])
  | c :: s => if c.val = 0x2B ∨ c.val = 0x2D then ([c], s) else ([], c :: s)

/-- The exponent of a number, if there is one, and what stands behind it. -/
def scanExponent : Text → Text × Text
  | [] => ([], [])
  | c :: s =>
    if (c.val = 0x65 ∨ c.val = 0x45) ∧ takeDigits (exponentSign s).2 ≠ [] then
      (c :: ((exponentSign s).1 ++ takeDigits (exponentSign s).2), dropDigits (exponentSign s).2)
    else ([], c :: s)

/-- The digits before the point, and what stands behind them. -/
def scanInteger : Text → Option (Text × Text)
  | [] => none
  | c :: s =>
    if c = zero then some ([zero], s)
    else if isDigit c then some (takeDigits (c :: s), dropDigits (c :: s))
    else none

/-- The sign of a number. -/
def numberSign : Text → Text × Text
  | [] => ([], [])
  | c :: s => if c = minus then ([minus], s) else ([], c :: s)

/-- `_match_number`: an `int`, or a `float` where there is a fraction or an exponent. -/
def scanNumber (s : Text) : Option (Json × Text) :=
  let (sign, s) := numberSign s
  match scanInteger s with
  | none => none
  | some (integer, s) =>
    let (fraction, s) := scanFraction s
    let (exponent, s) := scanExponent s
    if fraction ++ exponent = [] then
      (natOfText integer).map fun n : ℕ => (.int (if sign = [] then (n : ℤ) else -n), s)
    else some (.float (F.ofText (sign ++ (integer ++ (fraction ++ exponent)))), s)

/-- Behind an item: whether another one follows, and what stands there; nothing where there is
neither a comma nor the bracket that closes. -/
def scanDelimiter (close : CodePoint) (s : Text) : Option (Bool × Text) :=
  match skip s with
  | [] => none
  | c :: s =>
    if c = close then some (false, s) else if c = comma then some (true, skip s) else none

/-- A key and its colon, and what stands behind them. -/
def scanKey : Text → Option (Text × Text)
  | [] => none
  | c :: s =>
    if c = quote then do
      let (k, s) ← scanString s.length s
      match skip s with
      | [] => none
      | c :: s => if c = colon then some (k, skip s) else none
    else none

/-- `dict` of the entries; the last one of a key counts. -/
def ofEntries (es : List (Text × Json)) : Json :=
  .dict (es.foldl (fun d e => d.set e.1 e.2) Dict.empty).entries

mutual

/-- `scan_once`: a value, and what stands behind it. -/
def scanOnce : ℕ → Text → Option (Json × Text)
  | 0, _ => none
  | _ + 1, [] => none
  | fuel + 1, c :: s =>
    if c = quote then (scanString s.length s).map fun p => (.str p.1, p.2)
    else if c = openBracket then
      if (skip s).head? = some closeBracket then some (.list [], (skip s).tail)
      else (scanItems fuel (skip s)).map fun p => (.list p.1, p.2)
    else if c = openBrace then
      if (skip s).head? = some closeBrace then some (.dict [], (skip s).tail)
      else (scanEntries fuel (skip s)).map fun p => (ofEntries p.1, p.2)
    else (scanConstant (c :: s)).or (scanNumber F (c :: s))

/-- `JSONArray`, from its first item on. -/
def scanItems : ℕ → Text → Option (List Json × Text)
  | 0, _ => none
  | fuel + 1, s => do
    let (x, s) ← scanOnce fuel s
    let (more, s) ← scanDelimiter closeBracket s
    if more then
      let (xs, s) ← scanItems fuel s
      return (x :: xs, s)
    else return ([x], s)

/-- `JSONObject`, from its first key on. -/
def scanEntries : ℕ → Text → Option (List (Text × Json) × Text)
  | 0, _ => none
  | fuel + 1, s => do
    let (k, s) ← scanKey s
    let (v, s) ← scanOnce fuel s
    let (more, s) ← scanDelimiter closeBrace s
    if more then
      let (es, s) ← scanEntries fuel s
      return ((k, v) :: es, s)
    else return ([(k, v)], s)

end

/-- The mark that `json.loads` refuses at the beginning of a text. -/
def byteOrderMark : CodePoint := 0xFEFF

/-- `json.loads`; nothing where it raises `ValueError`. -/
def loads (s : Text) : Option Json :=
  if s.head? = some byteOrderMark then none
  else
    match scanOnce F (2 * s.length + 1) (skip s) with
    | none => none
    | some (v, rest) => if skip rest = [] then some v else none

end Scanning

/-! ### Numbers

A number is scanned as far as it goes, and what `int.__repr__` and `float.__repr__` write is one. -/

/-- The text does not begin with a digit. -/
def NoDigit (s : Text) : Prop := ∀ c ∈ s.head?, isDigit c = false

/-- A number does not go on with the text. -/
def Ends (s : Text) : Prop :=
  ∀ c ∈ s.head?, isDigit c = false ∧ c ≠ point ∧ c.val ≠ 0x65 ∧ c.val ≠ 0x45

/-- The digits of an integer; there is no other digit behind a leading zero. -/
def IsInteger (s : Text) : Prop :=
  s = [zero] ∨ ∃ c ds, s = c :: ds ∧ c ≠ zero ∧ ∀ d ∈ c :: ds, isDigit d = true

def IsFraction (s : Text) : Prop :=
  s = [] ∨ ∃ ds, s = point :: ds ∧ ds ≠ [] ∧ ∀ d ∈ ds, isDigit d = true

def IsExponent (s : Text) : Prop :=
  s = [] ∨ ∃ e sign ds, s = e :: (sign ++ ds) ∧ (e.val = 0x65 ∨ e.val = 0x45) ∧
    (sign = [] ∨ ∃ c : CodePoint, sign = [c] ∧ (c.val = 0x2B ∨ c.val = 0x2D)) ∧ ds ≠ [] ∧
    ∀ d ∈ ds, isDigit d = true

/-- The parts of a number in JSON. -/
structure Numeric (sign integer fraction exponent : Text) : Prop where
  sign : sign = [] ∨ sign = [minus]
  integer : IsInteger integer
  fraction : IsFraction fraction
  exponent : IsExponent exponent

/-- A floating-point number is written as one of JSON, from which it is read again. -/
def Floats.Faithful (F : Floats) : Double → Prop
  | .finite q => ∃ sign integer fraction exponent, Numeric sign integer fraction exponent ∧
      fraction ++ exponent ≠ [] ∧ F.repr q = sign ++ (integer ++ (fraction ++ exponent)) ∧
      F.ofText (F.repr q) = .finite q
  | _ => True

private theorem Ends.noDigit {s : Text} (h : Ends s) : NoDigit s := fun c hc => (h c hc).1

/-- A number ends before a character that continues none. -/
theorem ends_cons {c : CodePoint} (h : isDigit c = false) (hpoint : c ≠ point)
    (he : c.val ≠ 0x65) (hE : c.val ≠ 0x45) (s : Text) : Ends (c :: s) := by
  intro d hd
  obtain rfl := Option.some.inj hd
  exact ⟨h, hpoint, he, hE⟩

private theorem takeDigits_append {ds rest : Text} (h : ∀ d ∈ ds, isDigit d = true)
    (hrest : NoDigit rest) : takeDigits (ds ++ rest) = ds ∧ dropDigits (ds ++ rest) = rest := by
  have hnone : takeDigits rest = [] ∧ dropDigits rest = rest := by
    cases rest with
    | nil => exact ⟨rfl, rfl⟩
    | cons c rest =>
        have hc := Bool.eq_false_iff.mp (hrest c rfl)
        exact ⟨List.takeWhile_cons_of_neg hc, List.dropWhile_cons_of_neg hc⟩
  constructor
  · rw [takeDigits, List.takeWhile_append_of_pos h, ← takeDigits, hnone.1, List.append_nil]
  · rw [dropDigits, List.dropWhile_append_of_pos h, ← dropDigits, hnone.2]

/-- A digit is a character from `0` to `9`. -/
theorem isDigit_ne {c : CodePoint} (h : isDigit c = true) : 0x30 ≤ c.val ∧ c.val ≤ 0x39 := by
  unfold isDigit at h
  rw [Bool.and_eq_true, decide_eq_true_iff, decide_eq_true_iff] at h
  exact h

/-- An integer begins with a digit. -/
theorem IsInteger.head {s : Text} (h : IsInteger s) : ∃ c ds, s = c :: ds ∧ isDigit c = true := by
  obtain rfl | ⟨c, ds, rfl, -, hdigits⟩ := h
  · exact ⟨zero, [], rfl, by decide⟩
  · exact ⟨c, ds, rfl, hdigits c List.mem_cons_self⟩

private theorem scanInteger_append {s rest : Text} (h : IsInteger s) (hrest : NoDigit rest) :
    scanInteger (s ++ rest) = some (s, rest) := by
  obtain rfl | ⟨c, ds, rfl, hne, hdigits⟩ := h
  · rfl
  · obtain ⟨htake, hdrop⟩ := takeDigits_append hdigits hrest
    rw [List.cons_append] at htake hdrop ⊢
    rw [scanInteger, if_neg hne, if_pos (hdigits c List.mem_cons_self), htake, hdrop]

private theorem IsExponent.noDigit {s rest : Text} (h : IsExponent s) (hrest : Ends rest) :
    NoDigit (s ++ rest) ∧ (s ++ rest).head? ≠ some point := by
  obtain rfl | ⟨e, sign, ds, rfl, he, -, -, -⟩ := h
  · exact ⟨hrest.noDigit, fun hpoint => (hrest point hpoint).2.1 rfl⟩
  · constructor
    · intro c hc
      obtain rfl := Option.some.inj hc
      rw [isDigit, Bool.and_eq_false_iff, decide_eq_false_iff_not, decide_eq_false_iff_not]
      omega
    · intro hpoint
      obtain rfl := Option.some.inj hpoint
      rcases he with he | he <;> exact absurd he (by decide)

private theorem scanFraction_append {s rest : Text} (h : IsFraction s) (hrest : NoDigit rest)
    (hpoint : rest.head? ≠ some point) : scanFraction (s ++ rest) = (s, rest) := by
  obtain rfl | ⟨ds, rfl, hne, hdigits⟩ := h
  · cases rest with
    | nil => rfl
    | cons c rest =>
        rw [List.nil_append, scanFraction, if_neg]
        rintro ⟨rfl, -⟩
        exact hpoint rfl
  · obtain ⟨htake, hdrop⟩ := takeDigits_append hdigits hrest
    rw [List.cons_append, scanFraction, htake, hdrop, if_pos ⟨rfl, hne⟩]

private theorem exponentSign_append {sign ds rest : Text}
    (h : sign = [] ∨ ∃ c : CodePoint, sign = [c] ∧ (c.val = 0x2B ∨ c.val = 0x2D)) (hne : ds ≠ [])
    (hdigits : ∀ d ∈ ds, isDigit d = true) :
    exponentSign (sign ++ (ds ++ rest)) = (sign, ds ++ rest) := by
  obtain rfl | ⟨c, rfl, hc⟩ := h
  · cases ds with
    | nil => exact absurd rfl hne
    | cons d ds =>
        have hd := isDigit_ne (hdigits d List.mem_cons_self)
        rw [List.nil_append, List.cons_append, exponentSign, if_neg (by omega)]
  · rw [List.cons_append, exponentSign, if_pos hc, List.nil_append]

private theorem scanExponent_append {s rest : Text} (h : IsExponent s) (hrest : Ends rest) :
    scanExponent (s ++ rest) = (s, rest) := by
  obtain rfl | ⟨e, sign, ds, rfl, he, hsign, hne, hdigits⟩ := h
  · cases rest with
    | nil => rfl
    | cons c rest =>
        obtain ⟨-, -, hnot⟩ := hrest c rfl
        rw [List.nil_append, scanExponent, if_neg fun hc => hc.1.elim hnot.1 hnot.2]
  · obtain ⟨htake, hdrop⟩ := takeDigits_append hdigits hrest.noDigit
    rw [List.cons_append, List.append_assoc, scanExponent,
      exponentSign_append hsign hne hdigits, htake, hdrop, if_pos ⟨he, hne⟩]

private theorem numberSign_append {sign integer rest : Text} (h : sign = [] ∨ sign = [minus])
    (hinteger : IsInteger integer) :
    numberSign (sign ++ (integer ++ rest)) = (sign, integer ++ rest) := by
  obtain rfl | rfl := h
  · obtain ⟨c, ds, rfl, hc⟩ := hinteger.head
    rw [List.nil_append, List.cons_append, numberSign, if_neg]
    rintro rfl
    exact absurd hc (by decide)
  · rw [List.cons_append, numberSign, if_pos rfl, List.nil_append]

/-- A number is read as far as it goes. -/
theorem scanNumber_append (F : Floats) {sign integer fraction exponent rest : Text}
    (h : Numeric sign integer fraction exponent) (hrest : Ends rest) :
    scanNumber F (sign ++ (integer ++ (fraction ++ (exponent ++ rest)))) =
      if fraction ++ exponent = [] then
        (natOfText integer).map fun n : ℕ => (.int (if sign = [] then (n : ℤ) else -n), rest)
      else some (.float (F.ofText (sign ++ (integer ++ (fraction ++ exponent)))), rest) := by
  obtain ⟨hdigit, hpoint⟩ := h.exponent.noDigit hrest
  have hfraction : NoDigit (fraction ++ (exponent ++ rest)) := by
    obtain rfl | ⟨ds, rfl, -, -⟩ := h.fraction
    · exact hdigit
    · intro c hc
      obtain rfl := Option.some.inj hc
      decide
  unfold scanNumber
  rw [numberSign_append h.sign h.integer]
  dsimp only
  rw [scanInteger_append h.integer hfraction]
  dsimp only
  rw [scanFraction_append h.fraction hdigit hpoint]
  dsimp only
  rw [scanExponent_append h.exponent hrest]

/-- A numeral has no leading zero. -/
theorem head_numeral {n : ℕ} (h : 0 < n) : ∃ c ds, numeral n = c :: ds ∧ c ≠ zero := by
  induction n using Nat.strong_induction_on with
  | _ n ih =>
    by_cases hlt : n < 10
    · have hall : ∀ n < 10, 0 < n → numeral n = [Fin.ofNat _ (0x30 + n)] ∧
          (Fin.ofNat 0x110000 (0x30 + n) : CodePoint) ≠ zero := by decide
      obtain ⟨heq, hne⟩ := hall n hlt h
      exact ⟨_, _, heq, hne⟩
    · obtain ⟨c, ds, hc, hne⟩ := ih (n / 10) (by omega) (by omega)
      have hsplit : numeral n = numeral (n / 10) ++ text (toString (n % 10)) := by
        unfold numeral text
        rw [← List.map_append, Nat.toString_eq_ofList_toDigits, Nat.toString_eq_ofList_toDigits,
          Nat.toString_eq_ofList_toDigits, String.toList_ofList, String.toList_ofList,
          String.toList_ofList, Nat.toDigits_of_base_le (by decide) (by omega),
          Nat.toDigits_of_lt_base (Nat.mod_lt n (by decide))]
      exact ⟨c, _, by rw [hsplit, hc, List.cons_append], hne⟩

/-- A numeral is an integer. -/
theorem isInteger_numeral (n : ℕ) : IsInteger (numeral n) := by
  by_cases hzero : n = 0
  · rw [hzero]
    exact .inl (by decide)
  · obtain ⟨c, ds, heq, hne⟩ := head_numeral (Nat.pos_of_ne_zero hzero)
    refine .inr ⟨c, ds, heq, hne, fun d hd => ?_⟩
    obtain ⟨hlow, hhigh⟩ := digit_of_mem_numeral (heq ▸ hd : d ∈ numeral n)
    rw [isDigit, decide_eq_true hlow, decide_eq_true hhigh]
    rfl

private theorem natOfText_numeral {n : ℕ} (h : (numeral n).length ≤ 4300) :
    natOfText (numeral n) = some n := by
  rw [natOfText, digits_of_ascii (fun _ hc => digit_of_mem_numeral hc) (.inl (numeral_ne_nil n))]
  dsimp only
  rw [List.length_map, if_neg (Nat.not_lt.mpr h), foldl_numeral]

/-- The scanner reads an integer back, whatever comes after it. -/
theorem scanNumber_intText (F : Floats) {n : ℤ} (h : (numeral n.natAbs).length ≤ 4300)
    {rest : Text} (hrest : Ends rest) :
    scanNumber F (intText n ++ rest) = some (.int n, rest) := by
  have hparts {sign : Text} (hsign : sign = [] ∨ sign = [minus]) (m : ℕ) :
      Numeric sign (numeral m) [] [] := ⟨hsign, isInteger_numeral m, .inl rfl, .inl rfl⟩
  cases n with
  | ofNat n =>
      have hscan := scanNumber_append F (hparts (.inl rfl) n) hrest
      have hread : natOfText (numeral n) = some n := natOfText_numeral h
      rw [List.append_nil, if_pos rfl, hread] at hscan
      exact hscan
  | negSucc n =>
      have hscan := scanNumber_append F (hparts (.inr rfl) (n + 1)) hrest
      have hread : natOfText (numeral (n + 1)) = some (n + 1) := natOfText_numeral h
      rw [List.append_nil, if_pos rfl, hread] at hscan
      exact hscan

/-- The scanner reads a float back, whatever comes after it. -/
theorem scanNumber_repr {F : Floats} {q : ℚ} (h : F.Faithful (.finite q)) {rest : Text}
    (hrest : Ends rest) : scanNumber F (F.repr q ++ rest) = some (.float (.finite q), rest) := by
  obtain ⟨sign, integer, fraction, exponent, hparts, hne, hrepr, hback⟩ := h
  have hscan := scanNumber_append F hparts hrest
  rw [if_neg hne, ← hrepr, hback] at hscan
  rw [← hscan, hrepr]
  simp only [List.append_assoc]

/-- The head of a number. -/
theorem Numeric.head {sign integer fraction exponent : Text}
    (h : Numeric sign integer fraction exponent) :
    ∃ c s, sign ++ (integer ++ (fraction ++ exponent)) = c :: s ∧
      (isDigit c = true ∨ c = minus ∧ ∃ d ds, s = d :: ds ∧ isDigit d = true) := by
  obtain ⟨d, ds, hinteger, hd⟩ := h.integer.head
  obtain hsign | hsign := h.sign
  · exact ⟨d, _, by rw [hsign, hinteger]; rfl, .inl hd⟩
  · exact ⟨minus, _, by rw [hsign]; rfl, .inr ⟨rfl, d, _, by rw [hinteger]; rfl, hd⟩⟩

/-- A number is none of the words. -/
theorem scanConstant_number {c : CodePoint} {s : Text}
    (h : isDigit c = true ∨ c = minus ∧ ∃ d ds, s = d :: ds ∧ isDigit d = true) :
    scanConstant (c :: s) = none := by
  rw [scanConstant, List.findSome?_eq_none_iff]
  intro p hp
  refine if_neg fun hprefix => ?_
  have hword : ∃ w ws, p.1 = w :: ws ∧ isDigit w = false ∧
      (w = minus → ∃ v vs, ws = v :: vs ∧ isDigit v = false) := by
    simp only [constants, List.mem_cons, List.not_mem_nil, or_false] at hp
    rcases hp with rfl | rfl | rfl | rfl | rfl | rfl
    · exact ⟨_, _, rfl, by decide, fun hminus => absurd hminus (by decide)⟩
    · exact ⟨_, _, rfl, by decide, fun hminus => absurd hminus (by decide)⟩
    · exact ⟨_, _, rfl, by decide, fun hminus => absurd hminus (by decide)⟩
    · exact ⟨_, _, rfl, by decide, fun hminus => absurd hminus (by decide)⟩
    · exact ⟨_, _, rfl, by decide, fun hminus => absurd hminus (by decide)⟩
    · exact ⟨_, _, rfl, by decide, fun _ => ⟨_, _, rfl, by decide⟩⟩
  obtain ⟨w, ws, hw, hdigit, hminus⟩ := hword
  rw [hw, List.isPrefixOf_cons_cons, Bool.and_eq_true, beq_iff_eq] at hprefix
  obtain ⟨rfl, hprefix⟩ := hprefix
  rcases h with h | ⟨rfl, d, ds, rfl, hd⟩
  · exact absurd h (Bool.eq_false_iff.mp hdigit)
  · obtain ⟨v, vs, rfl, hv⟩ := hminus rfl
    rw [List.isPrefixOf_cons_cons, Bool.and_eq_true, beq_iff_eq] at hprefix
    exact absurd ( hprefix.1 ▸ hd) (Bool.eq_false_iff.mp hv)

end Json

end Python

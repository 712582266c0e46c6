import Jetty.Core.Python.JsonText

/-!
# Reading the text of JSON back

What `json.dumps` writes, in whichever layout, `json.loads` reads as the same value.
-/

namespace Python

namespace Json

section Values

variable (F : Floats) (L : Layout)

mutual

/-- A value that reads as itself: integers that `int` converts, no key twice, and with
`ensure_ascii` no surrogates that would be joined. -/
def Printable : Json → Prop
  | .null => True
  | .bool _ => True
  | .int n => (numeral n.natAbs).length ≤ 4300
  | .float x => F.Faithful x
  | .str s => L.ascii = true → Joined s
  | .list xs => PrintableItems xs
  | .dict es => (es.map Prod.fst).Nodup ∧ PrintableEntries es

def PrintableItems : List Json → Prop
  | [] => True
  | x :: xs => Printable x ∧ PrintableItems xs

def PrintableEntry : Text × Json → Prop
  | (k, v) => (L.ascii = true → Joined k) ∧ Printable v

def PrintableEntries : List (Text × Json) → Prop
  | [] => True
  | e :: es => PrintableEntry e ∧ PrintableEntries es

end

/-- Induction over a value: a list by its items, a dictionary by its values. -/
@[elab_as_elim]
theorem induction {motive : Json → Prop} (null : motive .null) (bool : ∀ b, motive (.bool b))
    (int : ∀ n, motive (.int n)) (float : ∀ x, motive (.float x)) (str : ∀ s, motive (.str s))
    (list : ∀ xs, (∀ x ∈ xs, motive x) → motive (.list xs))
    (dict : ∀ es, (∀ e ∈ es, motive e.2) → motive (.dict es)) (v : Json) : motive v :=
  @Json.rec motive (fun xs => ∀ x ∈ xs, motive x) (fun es => ∀ e ∈ es, motive e.2)
    (fun e => motive e.2) null bool int float str list dict (fun _ h => absurd h List.not_mem_nil)
    (fun _ _ hx hxs => List.forall_mem_cons.mpr ⟨hx, hxs⟩) (fun _ h => absurd h List.not_mem_nil)
    (fun _ _ he hes => List.forall_mem_cons.mpr ⟨he, hes⟩) (fun _ _ hv => hv) v

variable {F L}

private theorem PrintableEntry.value {e : Text × Json} (h : PrintableEntry F L e) :
    Printable F L e.2 := by
  obtain ⟨k, v⟩ := e
  exact h.2

/-- A list is printable if its members are. -/
theorem printableItems_of_forall {xs : List Json} (h : ∀ x ∈ xs, Printable F L x) :
    PrintableItems F L xs := by
  induction xs with
  | nil => trivial
  | cons x xs ih =>
      obtain ⟨hx, hxs⟩ := List.forall_mem_cons.mp h
      exact ⟨hx, ih hxs⟩

/-- An object is printable if its names and values are. -/
theorem printableEntries_of_forall {es : List (Text × Json)}
    (h : ∀ e ∈ es, (L.ascii = true → Joined e.1) ∧ Printable F L e.2) :
    PrintableEntries F L es := by
  induction es with
  | nil => trivial
  | cons e es ih =>
      obtain ⟨k, v⟩ := e
      obtain ⟨he, hes⟩ := List.forall_mem_cons.mp h
      exact ⟨he, ih hes⟩

private theorem PrintableItems.forall_mem {xs : List Json} (h : PrintableItems F L xs) :
    ∀ x ∈ xs, Printable F L x := by
  induction xs with
  | nil => exact fun _ hx => absurd hx List.not_mem_nil
  | cons x xs ih => exact List.forall_mem_cons.mpr ⟨h.1, ih h.2⟩

private theorem PrintableEntries.forall_mem {es : List (Text × Json)}
    (h : PrintableEntries F L es) : ∀ e ∈ es, Printable F L e.2 := by
  induction es with
  | nil => exact fun _ he => absurd he List.not_mem_nil
  | cons e es ih => exact List.forall_mem_cons.mpr ⟨h.1.value, ih h.2⟩

private theorem skip_of_blank {blanks : Text} (h : blanks.all isBlank = true) (s : Text) :
    skip (blanks ++ s) = skip s :=
  List.dropWhile_append_of_pos (List.all_eq_true.mp h)

private theorem skip_cons {c : CodePoint} (h : isBlank c = false) (s : Text) : skip (c :: s) = c ::
    s :=
  List.dropWhile_cons_of_neg (Bool.eq_false_iff.mp h)

private theorem Layout.newline_blank (level : ℕ) : (L.newline level).all isBlank = true := by
  unfold Layout.newline
  cases L.indent with
  | none => rfl
  | some width =>
      rw [List.all_cons, Bool.and_eq_true, List.all_replicate]
      exact ⟨by decide, by split <;> rfl⟩

private theorem skip_newline (level : ℕ) (s : Text) : skip (L.newline level ++ s) = skip s :=
  skip_of_blank (Layout.newline_blank level) s

/-- What a number begins with. -/
def NumberHead (s : Text) : Prop :=
  ∃ c cs, s = c :: cs ∧ (isDigit c = true ∨ c = minus ∧ ∃ d ds, cs = d :: ds ∧ isDigit d = true)

private theorem numberHead_intText (n : ℤ) : NumberHead (intText n) := by
  cases n with
  | ofNat n =>
      obtain ⟨c, ds, heq, hc⟩ := (isInteger_numeral n).head
      exact ⟨c, ds, heq, .inl hc⟩
  | negSucc n =>
      obtain ⟨c, ds, heq, hc⟩ := (isInteger_numeral (n + 1)).head
      exact ⟨minus, numeral (n + 1), rfl, .inr ⟨rfl, c, ds, heq, hc⟩⟩

private theorem numberHead_repr {q : ℚ} (h : F.Faithful (.finite q)) : NumberHead (F.repr q) := by
  obtain ⟨sign, integer, fraction, exponent, hparts, -, hrepr, -⟩ := h
  rw [hrepr]
  exact hparts.head

/-- What a value begins with. -/
def Opens (s : Text) : Prop :=
  ∃ c cs, s = c :: cs ∧ isBlank c = false ∧ c ≠ closeBracket ∧ c.val < 0x80

private theorem NumberHead.opens {s : Text} (h : NumberHead s) : Opens s := by
  obtain ⟨c, cs, rfl, hc⟩ := h
  refine ⟨c, cs, rfl, ?_⟩
  obtain hdigit | ⟨rfl, -⟩ := hc
  · have hbounds := isDigit_ne hdigit
    refine ⟨?_, ?_, by omega⟩
    · simp only [isBlank, Bool.or_eq_false_iff, beq_eq_false_iff_ne]
      omega
    · rintro rfl
      exact absurd hdigit (by decide)
  · exact ⟨by decide, by decide, by decide⟩

private theorem opens_dumpsAt {v : Json} (h : Printable F L v) (level : ℕ) :
    Opens (dumpsAt F L level v) := by
  cases v with
  | null => exact ⟨_, _, rfl, by decide, by decide, by decide⟩
  | bool b => cases b <;> exact ⟨_, _, rfl, by decide, by decide, by decide⟩
  | int n => exact (numberHead_intText n).opens
  | float x =>
      cases x with
      | finite q => exact (numberHead_repr h).opens
      | inf => exact ⟨_, _, rfl, by decide, by decide, by decide⟩
      | negInf => exact ⟨_, _, rfl, by decide, by decide, by decide⟩
      | nan => exact ⟨_, _, rfl, by decide, by decide, by decide⟩
  | str s => exact ⟨quote, _, rfl, by decide, by decide, by decide⟩
  | list xs => cases xs <;> exact ⟨openBracket, _, rfl, by decide, by decide, by decide⟩
  | dict es => cases es <;> exact ⟨openBrace, _, rfl, by decide, by decide, by decide⟩

private theorem Opens.skip {s : Text} (h : Opens s) (rest : Text) : skip
    (s ++ rest) = s ++ rest := by
  obtain ⟨c, cs, rfl, hc, -⟩ := h
  exact skip_cons hc (cs ++ rest)

/-- Behind an item that is not the last one. -/
theorem scanDelimiter_separator {close : CodePoint} (hclose : close ≠ comma) (level : ℕ)
    {s : Text} (hs : skip s = s) :
    scanDelimiter close (L.separator level ++ s) = some (true, s) := by
  have hcomma : isBlank comma = false := by decide
  have hblank : (L.afterComma ++ L.newline level).all isBlank = true := by
    rw [List.all_append, Bool.and_eq_true]
    exact ⟨(Bool.and_eq_true _ _ ▸ List.all_append ▸ L.blank : _ ∧ _).1,
      Layout.newline_blank level⟩
  rw [scanDelimiter, Layout.separator, List.cons_append, skip_cons hcomma]
  dsimp only
  rw [if_neg hclose.symm, if_pos rfl, skip_of_blank hblank, hs]

/-- Behind the last item. -/
theorem scanDelimiter_close {close : CodePoint} (hblank : isBlank close = false) (level : ℕ)
    (rest : Text) :
    scanDelimiter close (L.newline level ++ (close :: rest)) = some (false, rest) := by
  rw [scanDelimiter, skip_newline, skip_cons hblank]
  dsimp only
  rw [if_pos rfl]

private theorem ends_newline {close : CodePoint} (hclose : Ends [close]) (level : ℕ) (rest : Text) :
    Ends (L.newline level ++ (close :: rest)) := by
  unfold Layout.newline
  cases L.indent with
  | none => exact hclose
  | some width => exact ends_cons (by decide) (by decide) (by decide) (by decide) _

private theorem ends_separator (level : ℕ) (rest : Text) : Ends (L.separator level ++ rest) :=
  ends_cons (by decide) (by decide) (by decide) (by decide) _

private theorem ends_items {close : CodePoint} (hclose : Ends [close]) (level level' : ℕ)
    (xs : List Json) (rest : Text) :
    Ends (dumpsItems F L level xs ++ (L.newline level' ++ (close :: rest))) := by
  cases xs with
  | nil => exact ends_newline hclose level' rest
  | cons x xs =>
      rw [dumpsItems, List.append_assoc]
      exact ends_separator level _

private theorem ends_entries {close : CodePoint} (hclose : Ends [close]) (level level' : ℕ)
    (es : List (Text × Json)) (rest : Text) :
    Ends (dumpsEntries F L level es ++ (L.newline level' ++ (close :: rest))) := by
  cases es with
  | nil => exact ends_newline hclose level' rest
  | cons e es =>
      rw [dumpsEntries, List.append_assoc]
      exact ends_separator level _

/-- A value is read back, wherever it stands. -/
def Reads (F : Floats) (L : Layout) (v : Json) : Prop :=
  ∀ (level : ℕ) (rest : Text) (fuel : ℕ), Printable F L v → Ends rest →
    2 * (dumpsAt F L level v).length ≤ fuel →
      scanOnce F fuel (dumpsAt F L level v ++ rest) = some (v, rest)

private theorem scanOnce_number {s rest : Text} {v : Json} (hhead : NumberHead s)
    (h : scanNumber F (s ++ rest) = some (v, rest)) {fuel : ℕ} (hfuel : 2 * s.length ≤ fuel) :
    scanOnce F fuel (s ++ rest) = some (v, rest) := by
  obtain ⟨c, cs, rfl, hc⟩ := hhead
  obtain ⟨fuel, rfl⟩ : ∃ k, fuel = k + 1 := ⟨fuel - 1, by rw [List.length_cons] at hfuel; omega⟩
  have hnot : c ≠ quote ∧ c ≠ openBracket ∧ c ≠ openBrace := by
    obtain hdigit | ⟨rfl, -⟩ := hc
    · have hbounds := isDigit_ne hdigit
      refine ⟨?_, ?_, ?_⟩ <;> rintro rfl <;> exact absurd hdigit (by decide)
    · decide
  have hword : scanConstant (c :: (cs ++ rest)) = none := by
    refine scanConstant_number (hc.imp_right fun hminus => ?_)
    obtain ⟨hminus, d, ds, rfl, hd⟩ := hminus
    exact ⟨hminus, d, _, rfl, hd⟩
  rw [List.cons_append] at h ⊢
  rw [scanOnce, if_neg hnot.1, if_neg hnot.2.1, if_neg hnot.2.2, hword, Option.none_or, h]

private theorem scanString_encodeString {s : Text} (h : L.ascii = true → Joined s) (rest : Text) :
    ∃ more, encodeString L.ascii s ++ rest = quote :: more ∧
      scanString more.length more = some (s, rest) := by
  refine ⟨s.flatMap (escapePoint L.ascii) ++ quote :: rest, ?_, ?_⟩
  · simp only [encodeString, List.cons_append, List.append_assoc, List.nil_append]
  · refine scanString_flatMap h rest ?_
    have hlength := length_le_flatMap L.ascii s
    rw [List.length_append, List.length_cons]
    omega

private theorem reads_str (s : Text) : Reads F L (.str s) := by
  intro level rest fuel h _ hfuel
  obtain ⟨more, heq, hscan⟩ := scanString_encodeString h rest
  obtain ⟨fuel, rfl⟩ : ∃ k, fuel = k + 1 := by
    refine ⟨fuel - 1, ?_⟩
    rw [dumpsAt, encodeString, List.length_append, List.length_cons] at hfuel
    omega
  rw [dumpsAt, heq, scanOnce, if_pos rfl, hscan, Option.map_some]

/-- The items of a list are read back. -/
theorem scanItems_dumpsItems {x : Json} {xs : List Json} (hx : Reads F L x)
    (hxs : ∀ y ∈ xs, Reads F L y) (hprint : Printable F L x) (hprints : PrintableItems F L xs)
    (level level' : ℕ) (rest : Text) {fuel : ℕ}
    (hfuel : 2 * (dumpsAt F L level x ++ dumpsItems F L level xs).length + 1 ≤ fuel) :
    scanItems F fuel (dumpsAt F L level x ++ (dumpsItems F L level xs ++
      (L.newline level' ++ (closeBracket :: rest)))) = some (x :: xs, rest) := by
  have hclose : Ends [closeBracket] :=
    ends_cons (by decide) (by decide) (by decide) (by decide) []
  induction xs generalizing x fuel with
  | nil =>
      obtain ⟨fuel, rfl⟩ : ∃ k, fuel = k + 1 := ⟨fuel - 1, by omega⟩
      rw [dumpsItems, List.append_nil] at hfuel
      have hfirst := hx level (L.newline level' ++ (closeBracket :: rest)) fuel hprint
        (ends_newline hclose level' rest) (by omega)
      rw [dumpsItems, List.nil_append, scanItems, hfirst]
      simp only [Option.bind_eq_bind, Option.bind_some,
        scanDelimiter_close (by decide : isBlank closeBracket = false), Bool.false_eq_true,
        if_false, Option.pure_def]
  | cons y ys ih =>
      obtain ⟨fuel, rfl⟩ : ∃ k, fuel = k + 1 := ⟨fuel - 1, by omega⟩
      rw [dumpsItems, List.length_append, List.length_append] at hfuel
      have hseparator : 0 < (L.separator level).length := Nat.succ_pos _
      have hfirst := hx level (dumpsItems F L level (y :: ys) ++
        (L.newline level' ++ (closeBracket :: rest))) fuel hprint
        (ends_items hclose level level' (y :: ys) rest) (by omega)
      obtain ⟨hy, hys⟩ := List.forall_mem_cons.mp hxs
      have hlength : 2 * (dumpsAt F L level y ++ dumpsItems F L level ys).length + 1 ≤ fuel := by
        omega
      have hrest := ih hy hys hprints.1 hprints.2 hlength
      have hskip := (opens_dumpsAt hprints.1 level).skip (dumpsItems F L level ys ++
        (L.newline level' ++ (closeBracket :: rest)))
      rw [scanItems, hfirst]
      simp only [Option.bind_eq_bind, Option.bind_some, dumpsItems, List.append_assoc,
        scanDelimiter_separator (by decide : closeBracket ≠ comma) level hskip, if_true, hrest,
        Option.pure_def]

private theorem scanKey_dumpsEntry {k : Text} {v : Json} (h : PrintableEntry F L (k, v)) (level : ℕ)
    (rest : Text) : scanKey (dumpsEntry F L level (k, v) ++ rest) =
      some (k, dumpsAt F L level v ++ rest) := by
  have hshape : dumpsEntry F L level (k, v) ++ rest = encodeString L.ascii k ++
      (colon :: (L.afterColon ++ (dumpsAt F L level v ++ rest))) := by
    simp only [dumpsEntry, List.append_assoc, List.cons_append]
  have hblank : L.afterColon.all isBlank = true :=
    (Bool.and_eq_true _ _ ▸ List.all_append ▸ L.blank : _ ∧ _).2
  have hcolon : isBlank colon = false := by decide
  obtain ⟨more, heq, hscan⟩ := scanString_encodeString h.1
    (colon :: (L.afterColon ++ (dumpsAt F L level v ++ rest)))
  rw [hshape, heq, scanKey, if_pos rfl, hscan]
  simp only [Option.bind_eq_bind, Option.bind_some, skip_cons hcolon, if_true,
    skip_of_blank hblank, (opens_dumpsAt h.2 level).skip rest]

private theorem opens_dumpsEntry (e : Text × Json) (level : ℕ) : Opens
    (dumpsEntry F L level e) := by
  obtain ⟨k, v⟩ := e
  exact ⟨quote, _, rfl, by decide, by decide, by decide⟩

/-- The entries of a dictionary are read back. -/
theorem scanEntries_dumpsEntries {e : Text × Json} {es : List (Text × Json)}
    (he : Reads F L e.2) (hes : ∀ e' ∈ es, Reads F L e'.2) (hprint : PrintableEntry F L e)
    (hprints : PrintableEntries F L es) (level level' : ℕ) (rest : Text) {fuel : ℕ}
    (hfuel : 2 * (dumpsEntry F L level e ++ dumpsEntries F L level es).length + 1 ≤ fuel) :
    scanEntries F fuel (dumpsEntry F L level e ++ (dumpsEntries F L level es ++
      (L.newline level' ++ (closeBrace :: rest)))) = some (e :: es, rest) := by
  have hclose : Ends [closeBrace] :=
    ends_cons (by decide) (by decide) (by decide) (by decide) []
  have hvalue (k : Text) (v : Json) :
      (dumpsAt F L level v).length ≤ (dumpsEntry F L level (k, v)).length := by
    simp only [dumpsEntry, List.length_append, List.length_cons]
    omega
  induction es generalizing e fuel with
  | nil =>
      obtain ⟨k, v⟩ := e
      obtain ⟨fuel, rfl⟩ : ∃ n, fuel = n + 1 := ⟨fuel - 1, by omega⟩
      rw [dumpsEntries, List.append_nil] at hfuel
      have hle := hvalue k v
      have hkey := scanKey_dumpsEntry hprint level (L.newline level' ++ (closeBrace :: rest))
      have hfirst := he level (L.newline level' ++ (closeBrace :: rest)) fuel hprint.2
        (ends_newline hclose level' rest) (by dsimp only; omega)
      rw [dumpsEntries, List.nil_append, scanEntries, hkey]
      simp only [Option.bind_eq_bind, Option.bind_some, hfirst,
        scanDelimiter_close (by decide : isBlank closeBrace = false), Bool.false_eq_true,
        if_false, Option.pure_def]
  | cons e' es ih =>
      obtain ⟨k, v⟩ := e
      obtain ⟨fuel, rfl⟩ : ∃ n, fuel = n + 1 := ⟨fuel - 1, by omega⟩
      rw [dumpsEntries, List.length_append, List.length_append] at hfuel
      have hle := hvalue k v
      have hseparator : 0 < (L.separator level).length := Nat.succ_pos _
      have hkey := scanKey_dumpsEntry hprint level (dumpsEntries F L level (e' :: es) ++
        (L.newline level' ++ (closeBrace :: rest)))
      have hfirst := he level (dumpsEntries F L level (e' :: es) ++
        (L.newline level' ++ (closeBrace :: rest))) fuel hprint.2
        (ends_entries hclose level level' (e' :: es) rest) (by dsimp only; omega)
      obtain ⟨he', hes⟩ := List.forall_mem_cons.mp hes
      have hlength :
          2 * (dumpsEntry F L level e' ++ dumpsEntries F L level es).length + 1 ≤ fuel := by
        omega
      have hrest := ih he' hes hprints.1 hprints.2 hlength
      have hopens : Opens (dumpsEntry F L level e') := opens_dumpsEntry e' level
      have hskip := hopens.skip (dumpsEntries F L level es ++
        (L.newline level' ++ (closeBrace :: rest)))
      rw [scanEntries, hkey]
      simp only [Option.bind_eq_bind, Option.bind_some, hfirst]
      simp only [dumpsEntries, List.append_assoc, Option.bind_some,
        scanDelimiter_separator (by decide : closeBrace ≠ comma) level hskip, if_true, hrest,
        Option.pure_def]

/-- `dict` keeps entries whose keys are distinct. -/
theorem ofEntries_eq {es : List (Text × Json)} (h : (es.map Prod.fst).Nodup) :
    ofEntries es = .dict es := by
  have hfold : ∀ (es : List (Text × Json)) (d : Dict Text Json),
      (d.keys ++ es.map Prod.fst).Nodup →
        (es.foldl (fun d e => d.set e.1 e.2) d).entries = d.entries ++ es := by
    intro es
    induction es with
    | nil => exact fun d _ => (List.append_nil _).symm
    | cons e es ih =>
        intro d hnodup
        have hnew : e.1 ∉ d.keys := fun hmem =>
          (List.nodup_append.mp hnodup).2.2 e.1 hmem e.1 List.mem_cons_self rfl
        have hset : (d.set e.1 e.2).entries = d.entries ++ [e] := by
          unfold Dict.set
          rw [dif_neg hnew]
        have hkeys : (d.set e.1 e.2).keys = d.keys ++ [e.1] := by rw [Dict.keys_set, if_neg hnew]
        rw [List.foldl_cons, ih _ (by rwa [hkeys, List.append_assoc, List.singleton_append]), hset,
          List.append_assoc, List.singleton_append]
  rw [ofEntries, hfold es .empty h]
  rfl

private theorem scanOnce_constant {w : Text} {v : Json} (h : (w, v) ∈ constants) {fuel : ℕ}
    (hfuel : 2 * w.length ≤ fuel) (rest : Text) :
    scanOnce F fuel (w ++ rest) = some (v, rest) := by
  obtain ⟨fuel, rfl⟩ : ∃ k, fuel = k + 1 := by
    refine ⟨fuel - 1, ?_⟩
    have hpos : ∀ p ∈ constants, 0 < p.1.length := by
      simp only [constants, List.forall_mem_cons]
      decide
    have hw : 0 < w.length := hpos _ h
    omega
  simp only [constants, List.mem_cons, List.not_mem_nil, or_false, Prod.mk.injEq] at h
  rcases h with ⟨rfl, rfl⟩ | ⟨rfl, rfl⟩ | ⟨rfl, rfl⟩ | ⟨rfl, rfl⟩ | ⟨rfl, rfl⟩ | ⟨rfl, rfl⟩ <;> rfl

private theorem reads_float (x : Double) : Reads F L (.float x) := by
  intro level rest fuel h hends hfuel
  cases x with
  | finite q => exact scanOnce_number (numberHead_repr h) (scanNumber_repr h hends) hfuel
  | inf => exact scanOnce_constant (w := text "Infinity") (by simp [constants]) hfuel rest
  | negInf => exact scanOnce_constant (w := text "-Infinity") (by simp [constants]) hfuel rest
  | nan => exact scanOnce_constant (w := text "NaN") (by simp [constants]) hfuel rest

/-- In a list, what does not close it at once is its first item. -/
theorem scanOnce_list {s : Text} (hopens : Opens (skip s)) (fuel : ℕ) :
    scanOnce F (fuel + 1) (openBracket :: s) =
      (scanItems F fuel (skip s)).map fun p => (.list p.1, p.2) := by
  obtain ⟨c, cs, hskip, -, hc⟩ := hopens
  have hquote : openBracket ≠ quote := by decide
  rw [scanOnce, if_neg hquote, if_pos rfl, hskip, if_neg]
  exact fun hhead => hc.1 (Option.some.inj hhead)

/-- In a dictionary, a quote opens the first key. -/
theorem scanOnce_dict {s : Text} (hopens : (skip s).head? = some quote) (fuel : ℕ) :
    scanOnce F (fuel + 1) (openBrace :: s) =
      (scanEntries F fuel (skip s)).map fun p => (ofEntries p.1, p.2) := by
  have hquote : openBrace ≠ quote := by decide
  have hbracket : openBrace ≠ openBracket := by decide
  have hbrace : quote ≠ closeBrace := by decide
  rw [scanOnce, if_neg hquote, if_neg hbracket, if_pos rfl, if_neg]
  rw [hopens]
  exact fun hhead => hbrace (Option.some.inj hhead)

private theorem reads_list {xs : List Json} (ih : ∀ x ∈ xs, Reads F L x) : Reads F L
    (.list xs) := by
  intro level rest fuel h _ hfuel
  cases xs with
  | nil =>
      obtain ⟨fuel, rfl⟩ : ∃ k, fuel = k + 1 := ⟨fuel - 1, by
        rw [dumpsAt, List.length_cons] at hfuel
        omega⟩
      rfl
  | cons x xs =>
      obtain ⟨hx, hxs⟩ := List.forall_mem_cons.mp ih
      simp only [dumpsAt, List.length_cons, List.length_append] at hfuel
      obtain ⟨fuel, rfl⟩ : ∃ k, fuel = k + 1 := ⟨fuel - 1, by omega⟩
      have hlength : 2 * (dumpsAt F L (level + 1) x ++ dumpsItems F L (level + 1) xs).length + 1 ≤
          fuel := by
        rw [List.length_append]
        omega
      have hitems := scanItems_dumpsItems hx hxs h.1 h.2 (level + 1) level rest hlength
      have hskip := (opens_dumpsAt h.1 (level + 1)).skip (dumpsItems F L (level + 1) xs ++
        (L.newline level ++ (closeBracket :: rest)))
      have hopens : Opens (dumpsAt F L (level + 1) x ++ (dumpsItems F L (level + 1) xs ++
          (L.newline level ++ (closeBracket :: rest)))) := by
        obtain ⟨c, cs, heq, hc⟩ := opens_dumpsAt h.1 (level + 1)
        exact ⟨c, _, by rw [heq, List.cons_append], hc⟩
      simp only [dumpsAt, List.cons_append, List.append_assoc, List.nil_append]
      rw [scanOnce_list (by rwa [skip_newline, hskip]), skip_newline, hskip, hitems,
        Option.map_some]

private theorem reads_dict {es : List (Text × Json)} (ih : ∀ e ∈ es, Reads F L e.2) :
    Reads F L (.dict es) := by
  intro level rest fuel h _ hfuel
  cases es with
  | nil =>
      obtain ⟨fuel, rfl⟩ : ∃ k, fuel = k + 1 := ⟨fuel - 1, by
        rw [dumpsAt, List.length_cons] at hfuel
        omega⟩
      rfl
  | cons e es =>
      obtain ⟨he, hes⟩ := List.forall_mem_cons.mp ih
      simp only [dumpsAt, List.length_cons, List.length_append] at hfuel
      obtain ⟨fuel, rfl⟩ : ∃ k, fuel = k + 1 := ⟨fuel - 1, by omega⟩
      have hlength :
          2 * (dumpsEntry F L (level + 1) e ++ dumpsEntries F L (level + 1) es).length + 1 ≤
            fuel := by
        rw [List.length_append]
        omega
      have hentries := scanEntries_dumpsEntries he hes h.2.1 h.2.2 (level + 1) level rest hlength
      have hopens : Opens (dumpsEntry F L (level + 1) e) := opens_dumpsEntry e (level + 1)
      have hskip := hopens.skip (dumpsEntries F L (level + 1) es ++
        (L.newline level ++ (closeBrace :: rest)))
      have hhead : (dumpsEntry F L (level + 1) e ++ (dumpsEntries F L (level + 1) es ++
          (L.newline level ++ (closeBrace :: rest)))).head? = some quote := by
        obtain ⟨k, v⟩ := e
        rfl
      simp only [dumpsAt, List.cons_append, List.append_assoc, List.nil_append]
      rw [scanOnce_dict (by rwa [skip_newline, hskip]), skip_newline, hskip, hentries,
        Option.map_some, ofEntries_eq h.1]

private theorem reads (v : Json) : Reads F L v := by
  induction v using induction with
  | null =>
      intro level rest fuel _ _ hfuel
      exact scanOnce_constant (w := text "null") (by simp [constants]) hfuel rest
  | bool b =>
      intro level rest fuel _ _ hfuel
      cases b with
      | false => exact scanOnce_constant (w := text "false") (by simp [constants]) hfuel rest
      | true => exact scanOnce_constant (w := text "true") (by simp [constants]) hfuel rest
  | int n =>
      intro level rest fuel h hends hfuel
      exact scanOnce_number (numberHead_intText n) (scanNumber_intText F h hends) hfuel
  | float x => exact reads_float x
  | str s => exact reads_str s
  | list xs ih => exact reads_list ih
  | dict es ih => exact reads_dict ih

/-- What `json.dumps` has written, in whichever layout, `json.loads` reads as the same value. -/
theorem loads_dumps {v : Json} (h : Printable F L v) : loads F (dumps F L v) = some v := by
  obtain ⟨c, cs, heq, hblank, -, hascii⟩ := opens_dumpsAt h 0
  have hmark : (dumps F L v).head? ≠ some byteOrderMark := by
    rw [dumps, heq]
    intro hhead
    obtain rfl := Option.some.inj hhead
    exact absurd hascii (by decide)
  have hread : scanOnce F (2 * (dumps F L v).length + 1) (dumpsAt F L 0 v ++ []) = some (v, []) :=
    reads v 0 [] _ h (fun _ hc => by cases hc) (Nat.le_succ _)
  have hskip : skip (dumps F L v) = dumpsAt F L 0 v ++ [] := by
    rw [List.append_nil, dumps, heq, skip_cons hblank]
  rw [loads, if_neg hmark, hskip, hread]
  rfl

/-- Values that are dumped one by one are loaded one by one. -/
theorem mapM_loads_dumps {vs : List Json} (h : ∀ v ∈ vs, Printable F L v) :
    (vs.map (dumps F L)).mapM (loads F) = some vs := by
  induction vs with
  | nil => rfl
  | cons v vs ih =>
      obtain ⟨hv, hvs⟩ := List.forall_mem_cons.mp h
      rw [List.map_cons, List.mapM_cons, loads_dumps hv, ih hvs]
      rfl

end Values

/-! ### Characters

A text of JSON has visible characters, what its layout puts between them, and without
`ensure_ascii` the characters of its strings. -/

mutual

/-- All strings of a value have a property, keys included. -/
def AllTexts (Q : Text → Prop) : Json → Prop
  | .str s => Q s
  | .list xs => AllTextsItems Q xs
  | .dict es => AllTextsEntries Q es
  | _ => True

def AllTextsItems (Q : Text → Prop) : List Json → Prop
  | [] => True
  | x :: xs => AllTexts Q x ∧ AllTextsItems Q xs

def AllTextsEntry (Q : Text → Prop) : Text × Json → Prop
  | (k, v) => Q k ∧ AllTexts Q v

def AllTextsEntries (Q : Text → Prop) : List (Text × Json) → Prop
  | [] => True
  | e :: es => AllTextsEntry Q e ∧ AllTextsEntries Q es

end

mutual

/-- All floating-point numbers of a value have a property. -/
def AllDoubles (Q : Double → Prop) : Json → Prop
  | .float x => Q x
  | .list xs => AllDoublesItems Q xs
  | .dict es => AllDoublesEntries Q es
  | _ => True

/-- The items of a list. -/
def AllDoublesItems (Q : Double → Prop) : List Json → Prop
  | [] => True
  | x :: xs => AllDoubles Q x ∧ AllDoublesItems Q xs

/-- The entries of a dictionary. -/
def AllDoublesEntries (Q : Double → Prop) : List (Text × Json) → Prop
  | [] => True
  | e :: es => AllDoubles Q e.2 ∧ AllDoublesEntries Q es

end

private theorem AllTextsEntry.key {Q : Text → Prop} {e : Text × Json} (h : AllTextsEntry Q e) :
    Q e.1 := by
  obtain ⟨k, v⟩ := e
  exact h.1

private theorem AllTextsEntry.value {Q : Text → Prop} {e : Text × Json} (h : AllTextsEntry Q e) :
    AllTexts Q e.2 := by
  obtain ⟨k, v⟩ := e
  exact h.2

/-- What the texts of all members have those of the list have. -/
theorem allTextsItems_of_forall {Q : Text → Prop} {xs : List Json} (h : ∀ x ∈ xs, AllTexts Q x) :
    AllTextsItems Q xs := by
  induction xs with
  | nil => trivial
  | cons x xs ih =>
      obtain ⟨hx, hxs⟩ := List.forall_mem_cons.mp h
      exact ⟨hx, ih hxs⟩

/-- What the names and the texts of all values have those of the object have. -/
theorem allTextsEntries_of_forall {Q : Text → Prop} {es : List (Text × Json)}
    (h : ∀ e ∈ es, Q e.1 ∧ AllTexts Q e.2) : AllTextsEntries Q es := by
  induction es with
  | nil => trivial
  | cons e es ih =>
      obtain ⟨k, v⟩ := e
      obtain ⟨he, hes⟩ := List.forall_mem_cons.mp h
      exact ⟨he, ih hes⟩

private theorem AllTextsItems.forall_mem {Q : Text → Prop} {xs : List Json}
    (h : AllTextsItems Q xs) : ∀ x ∈ xs, AllTexts Q x := by
  induction xs with
  | nil => exact fun _ hx => absurd hx List.not_mem_nil
  | cons x xs ih => exact List.forall_mem_cons.mpr ⟨h.1, ih h.2⟩

/-- What the texts of an object have those of each entry have. -/
theorem AllTextsEntries.forall_mem {Q : Text → Prop} {es : List (Text × Json)}
    (h : AllTextsEntries Q es) : ∀ e ∈ es, Q e.1 ∧ AllTexts Q e.2 := by
  induction es with
  | nil => exact fun _ he => absurd he List.not_mem_nil
  | cons e es ih => exact List.forall_mem_cons.mpr ⟨⟨h.1.key, h.1.value⟩, ih h.2⟩

/-- What the texts of a value have may be weakened. -/
theorem AllTexts.mono {Q R : Text → Prop} {v : Json} (h : AllTexts Q v) (hQ : ∀ s, Q s → R s) :
    AllTexts R v := by
  induction v using induction with
  | null | bool | int | float => trivial
  | str s => exact hQ s h
  | list xs ih =>
      have hitems : AllTextsItems Q xs := h
      exact allTextsItems_of_forall fun x hx => ih x hx (hitems.forall_mem x hx)
  | dict es ih =>
      have hentries : AllTextsEntries Q es := h
      refine allTextsEntries_of_forall fun e he => ?_
      obtain ⟨hkey, hvalue⟩ := hentries.forall_mem e he
      exact ⟨hQ _ hkey, ih e he hvalue⟩

/-- What all texts have the texts of a value have. -/
theorem allTexts_of_forall {Q : Text → Prop} (h : ∀ s, Q s) (v : Json) : AllTexts Q v := by
  induction v using induction with
  | null | bool | int | float => trivial
  | str s => exact h s
  | list xs ih => exact allTextsItems_of_forall ih
  | dict es ih => exact allTextsEntries_of_forall fun e he => ⟨h e.1, ih e he⟩

private theorem allDoublesItems_of_forall {Q : Double → Prop} {xs : List Json}
    (h : ∀ x ∈ xs, AllDoubles Q x) : AllDoublesItems Q xs := by
  induction xs with
  | nil => trivial
  | cons x xs ih =>
      obtain ⟨hx, hxs⟩ := List.forall_mem_cons.mp h
      exact ⟨hx, ih hxs⟩

private theorem allDoublesEntries_of_forall {Q : Double → Prop} {es : List (Text × Json)}
    (h : ∀ e ∈ es, AllDoubles Q e.2) : AllDoublesEntries Q es := by
  induction es with
  | nil => trivial
  | cons e es ih =>
      obtain ⟨he, hes⟩ := List.forall_mem_cons.mp h
      exact ⟨he, ih hes⟩

private theorem AllDoublesItems.forall_mem {Q : Double → Prop} {xs : List Json}
    (h : AllDoublesItems Q xs) : ∀ x ∈ xs, AllDoubles Q x := by
  induction xs with
  | nil => exact fun _ hx => absurd hx List.not_mem_nil
  | cons x xs ih => exact List.forall_mem_cons.mpr ⟨h.1, ih h.2⟩

private theorem AllDoublesEntries.forall_mem {Q : Double → Prop} {es : List (Text × Json)}
    (h : AllDoublesEntries Q es) : ∀ e ∈ es, AllDoubles Q e.2 := by
  induction es with
  | nil => exact fun _ he => absurd he List.not_mem_nil
  | cons e es ih => exact List.forall_mem_cons.mpr ⟨h.1, ih h.2⟩

/-- What all floats have the floats of a value have. -/
theorem allDoubles_of_forall {Q : Double → Prop} (h : ∀ x, Q x) (v : Json) : AllDoubles Q v := by
  induction v using induction with
  | null | bool | int | str => trivial
  | float x => exact h x
  | list xs ih => exact allDoublesItems_of_forall ih
  | dict es ih => exact allDoublesEntries_of_forall ih

section Characters

variable {F : Floats} {L : Layout} {P : CodePoint → Prop}

private theorem forall_of_visible {s : Text}
    (hplain : ∀ c : CodePoint, 0x20 ≤ c.val → c.val ≤ 0x7E → P c)
    (h : ∀ c ∈ s, 0x20 ≤ c.val ∧ c.val ≤ 0x7E) : ∀ c ∈ s, P c :=
  fun c hc => hplain c (h c hc).1 (h c hc).2

private theorem visible_of_digits {s : Text} (h : ∀ c ∈ s, isDigit c = true) :
    ∀ c ∈ s, 0x20 ≤ c.val ∧ c.val ≤ 0x7E := by
  intro c hc
  have hbounds := isDigit_ne (h c hc)
  omega

private theorem Numeric.visible {sign integer fraction exponent : Text}
    (h : Numeric sign integer fraction exponent) :
    ∀ c ∈ sign ++ (integer ++ (fraction ++ exponent)), 0x20 ≤ c.val ∧ c.val ≤ 0x7E := by
  have hminus : ∀ c ∈ [minus], 0x20 ≤ c.val ∧ c.val ≤ 0x7E := by
    simp only [List.forall_mem_singleton]
    decide
  have hpoint : 0x20 ≤ point.val ∧ point.val ≤ 0x7E := by decide
  simp only [List.forall_mem_append]
  refine ⟨?_, ?_, ?_, ?_⟩
  · obtain hsign | hsign := h.sign
    · rw [hsign]
      exact fun _ hc => absurd hc List.not_mem_nil
    · rw [hsign]
      exact hminus
  · obtain hinteger | ⟨c, ds, hinteger, -, hdigits⟩ := h.integer
    · rw [hinteger]
      exact visible_of_digits (List.forall_mem_singleton.mpr (by decide))
    · rw [hinteger]
      exact visible_of_digits hdigits
  · obtain hfraction | ⟨ds, hfraction, -, hdigits⟩ := h.fraction
    · rw [hfraction]
      exact fun _ hc => absurd hc List.not_mem_nil
    · rw [hfraction]
      exact List.forall_mem_cons.mpr ⟨hpoint, visible_of_digits hdigits⟩
  · obtain hexponent | ⟨e, sign, ds, hexponent, he, hsign, -, hdigits⟩ := h.exponent
    · rw [hexponent]
      exact fun _ hc => absurd hc List.not_mem_nil
    · rw [hexponent]
      refine List.forall_mem_cons.mpr ⟨by omega, List.forall_mem_append.mpr
        ⟨?_, visible_of_digits hdigits⟩⟩
      obtain rfl | ⟨c, rfl, hc⟩ := hsign
      · exact fun _ hc => absurd hc List.not_mem_nil
      · exact List.forall_mem_singleton.mpr (by omega)

private theorem visible_intText (n : ℤ) : ∀ c ∈ intText n, 0x20 ≤ c.val ∧ c.val ≤ 0x7E := by
  have hnumeral (m : ℕ) : ∀ c ∈ numeral m, 0x20 ≤ c.val ∧ c.val ≤ 0x7E := by
    intro c hc
    have hbounds := digit_of_mem_numeral hc
    omega
  cases n with
  | ofNat n => exact hnumeral n
  | negSucc n => exact List.forall_mem_cons.mpr ⟨by decide, hnumeral (n + 1)⟩

private theorem visible_escapeUnit (n : ℕ) : ∀ c ∈ escapeUnit n, 0x20 ≤ c.val ∧ c.val ≤ 0x7E := by
  have hdigit (m : ℕ) : 0x20 ≤ (hexDigit (m % 16)).val ∧ (hexDigit (m % 16)).val ≤ 0x7E := by
    have hall : ∀ k < 16, 0x20 ≤ (hexDigit k).val ∧ (hexDigit k).val ≤ 0x7E := by decide
    exact hall _ (Nat.mod_lt m (by decide))
  simp only [escapeUnit, hex4, List.forall_mem_cons]
  exact ⟨by decide, by decide, hdigit _, hdigit _, hdigit _, hdigit _,
    fun _ hc => absurd hc List.not_mem_nil⟩

/-- A string is quoted visibly; without `ensure_ascii` it may have characters of its own. -/
theorem mem_encodeString (ascii : Bool) (s : Text) : ∀ c ∈ encodeString ascii s,
    (0x20 ≤ c.val ∧ c.val ≤ 0x7E) ∨ ascii = false ∧ c ∈ s := by
  have hquote : 0x20 ≤ quote.val ∧ quote.val ≤ 0x7E := by decide
  have hbackslash : 0x20 ≤ backslash.val ∧ backslash.val ≤ 0x7E := by decide
  have hshort {c e : CodePoint} (h : shortEscape c = some e) : 0x20 ≤ e.val ∧ e.val ≤ 0x7E := by
    unfold shortEscape at h
    split_ifs at h
    all_goals
      obtain rfl := (Option.some.inj h).symm
      decide
  have hpoint (c : CodePoint) : ∀ d ∈ escapePoint ascii c,
      (0x20 ≤ d.val ∧ d.val ≤ 0x7E) ∨ ascii = false ∧ d = c := by
    unfold escapePoint escapeUnits
    cases heq : shortEscape c with
    | some e =>
        simp only [List.forall_mem_cons]
        exact ⟨.inl hbackslash, .inl (hshort heq), fun _ hc => absurd hc List.not_mem_nil⟩
    | none =>
        dsimp only
        split_ifs with hescape hunit
        · exact fun d hd => .inl (visible_escapeUnit c.val d hd)
        · exact fun d hd => .inl (List.forall_mem_append.mpr
            ⟨visible_escapeUnit _, visible_escapeUnit _⟩ d hd)
        · refine List.forall_mem_singleton.mpr ?_
          obtain ⟨hlow, hhigh⟩ := not_or.mp hescape
          cases ascii with
          | false => exact .inr ⟨rfl, rfl⟩
          | true => exact .inl ⟨by omega, Nat.not_lt.mp fun h => hhigh ⟨rfl, h⟩⟩
  rw [encodeString, List.cons_append]
  refine List.forall_mem_cons.mpr ⟨.inl hquote, List.forall_mem_append.mpr
    ⟨?_, List.forall_mem_singleton.mpr (.inl hquote)⟩⟩
  intro d hd
  obtain ⟨c, hmem, hc⟩ := List.mem_flatMap.mp hd
  rcases hpoint c d hc with hvisible | ⟨hascii, rfl⟩
  · exact .inl hvisible
  · exact .inr ⟨hascii, hmem⟩

private theorem forall_of_word {w : Text}
    (hplain : ∀ c : CodePoint, 0x20 ≤ c.val → c.val ≤ 0x7E → P c)
    (h : w.all (fun c => decide (0x20 ≤ c.val) && decide (c.val ≤ 0x7E)) = true) :
    ∀ c ∈ w, P c := by
  refine forall_of_visible hplain fun c hc => ?_
  have hboth := List.all_eq_true.mp h c hc
  rwa [Bool.and_eq_true, decide_eq_true_iff, decide_eq_true_iff] at hboth

/-- The numbers of a value that reads as itself are written visibly. -/
theorem Printable.floats (hplain : ∀ c : CodePoint, 0x20 ≤ c.val → c.val ≤ 0x7E → P c) {v : Json}
    (h : Printable F L v) : AllDoubles (fun x => ∀ c ∈ F.text x, P c) v := by
  induction v using induction with
  | null | bool | int | str => trivial
  | float x =>
      cases x with
      | finite q =>
          obtain ⟨sign, integer, fraction, exponent, hparts, -, hrepr, -⟩ := h
          show ∀ c ∈ F.repr q, P c
          rw [hrepr]
          exact forall_of_visible hplain hparts.visible
      | inf => exact forall_of_word hplain (w := text "Infinity") (by decide)
      | negInf => exact forall_of_word hplain (w := text "-Infinity") (by decide)
      | nan => exact forall_of_word hplain (w := text "NaN") (by decide)
  | list xs ih =>
      have hitems : PrintableItems F L xs := h
      exact allDoublesItems_of_forall fun x hx => ih x hx (hitems.forall_mem x hx)
  | dict es ih =>
      exact allDoublesEntries_of_forall fun e he => ih e he (h.2.forall_mem e he)

private theorem forall_mem_dumpsItems {xs : List Json} {level : ℕ}
    (hseparator : ∀ c ∈ L.separator level, P c)
    (h : ∀ x ∈ xs, ∀ c ∈ dumpsAt F L level x, P c) : ∀ c ∈ dumpsItems F L level xs, P c := by
  induction xs with
  | nil => exact fun _ hc => absurd hc List.not_mem_nil
  | cons x xs ih =>
      obtain ⟨hx, hxs⟩ := List.forall_mem_cons.mp h
      rw [dumpsItems]
      simp only [List.forall_mem_append]
      exact ⟨hseparator, hx, ih hxs⟩

private theorem forall_mem_dumpsEntries {es : List (Text × Json)} {level : ℕ}
    (hseparator : ∀ c ∈ L.separator level, P c)
    (h : ∀ e ∈ es, ∀ c ∈ dumpsEntry F L level e, P c) :
    ∀ c ∈ dumpsEntries F L level es, P c := by
  induction es with
  | nil => exact fun _ hc => absurd hc List.not_mem_nil
  | cons e es ih =>
      obtain ⟨he, hes⟩ := List.forall_mem_cons.mp h
      rw [dumpsEntries]
      simp only [List.forall_mem_append]
      exact ⟨hseparator, he, ih hes⟩

/-- A text consists of visible characters, of what the layout puts between them, of those of the
floating-point numbers, and without `ensure_ascii` of the characters of the strings. -/
theorem forall_mem_dumpsAt (hplain : ∀ c : CodePoint, 0x20 ≤ c.val → c.val ≤ 0x7E → P c)
    (hlayout : ∀ level, ∀ c ∈ L.afterComma ++ (L.afterColon ++ L.newline level), P c)
    {v : Json} (hfloats : AllDoubles (fun x => ∀ c ∈ F.text x, P c) v)
    (htexts : AllTexts (fun s => L.ascii = false → ∀ c ∈ s, P c) v) (level : ℕ) :
    ∀ c ∈ dumpsAt F L level v, P c := by
  have hstring {s : Text} (hs : L.ascii = false → ∀ c ∈ s, P c) :
      ∀ c ∈ encodeString L.ascii s, P c := by
    intro c hc
    rcases mem_encodeString L.ascii s c hc with hvisible | ⟨hascii, hmem⟩
    · exact hplain c hvisible.1 hvisible.2
    · exact hs hascii c hmem
  have hmark {c : CodePoint} (hc : 0x20 ≤ c.val ∧ c.val ≤ 0x7E) : P c := hplain c hc.1 hc.2
  simp only [List.forall_mem_append] at hlayout
  have hseparator (level : ℕ) : ∀ c ∈ L.separator level, P c := by
    obtain ⟨hcomma, -, hnewline⟩ := hlayout level
    refine List.forall_mem_cons.mpr ⟨hmark (by decide), ?_⟩
    exact List.forall_mem_append.mpr ⟨hcomma, hnewline⟩
  have hentry {e : Text × Json} {level : ℕ} (hk : L.ascii = false → ∀ c ∈ e.1, P c)
      (hv : ∀ c ∈ dumpsAt F L level e.2, P c) : ∀ c ∈ dumpsEntry F L level e, P c := by
    obtain ⟨k, v⟩ := e
    rw [dumpsEntry]
    simp only [List.forall_mem_append, List.forall_mem_cons]
    exact ⟨hstring hk, hmark (by decide), (hlayout level).2.1, hv⟩
  have hbetween {opening closing : CodePoint} {level : ℕ} {first others : Text}
      (hopening : 0x20 ≤ opening.val ∧ opening.val ≤ 0x7E)
      (hclosing : 0x20 ≤ closing.val ∧ closing.val ≤ 0x7E) (hfirst : ∀ c ∈ first, P c)
      (hothers : ∀ c ∈ others, P c) : ∀ c ∈ opening :: (L.newline (level + 1) ++ (first ++
        (others ++ (L.newline level ++ [closing])))), P c := by
    simp only [List.forall_mem_cons, List.forall_mem_append]
    exact ⟨hmark hopening, (hlayout (level + 1)).2.2, hfirst, hothers, (hlayout level).2.2,
      hmark hclosing, fun _ hc => absurd hc List.not_mem_nil⟩
  induction v using induction generalizing level with
  | null => exact forall_of_word hplain (w := text "null") (by decide)
  | bool b =>
      cases b with
      | false => exact forall_of_word hplain (w := text "false") (by decide)
      | true => exact forall_of_word hplain (w := text "true") (by decide)
  | int n => exact forall_of_visible hplain (visible_intText n)
  | float x => exact hfloats
  | str s => exact hstring htexts
  | list xs ih =>
      have hdoubles : AllDoublesItems _ xs := hfloats
      have hstrings : AllTextsItems _ xs := htexts
      have hitems : ∀ x ∈ xs, ∀ c ∈ dumpsAt F L (level + 1) x, P c := fun x hx =>
        ih x hx (hdoubles.forall_mem x hx) (hstrings.forall_mem x hx) (level + 1)
      cases xs with
      | nil => exact forall_of_word hplain (w := [openBracket, closeBracket]) (by decide)
      | cons x xs =>
          obtain ⟨hx, hxs⟩ := List.forall_mem_cons.mp hitems
          rw [dumpsAt]
          exact hbetween (by decide) (by decide) hx
            (forall_mem_dumpsItems (hseparator (level + 1)) hxs)
  | dict es ih =>
      have hdoubles : AllDoublesEntries _ es := hfloats
      have hstrings : AllTextsEntries _ es := htexts
      have hentries : ∀ e ∈ es, ∀ c ∈ dumpsEntry F L (level + 1) e, P c := by
        intro e he
        obtain ⟨hkey, hvalue⟩ := hstrings.forall_mem e he
        exact hentry hkey (ih e he (hdoubles.forall_mem e he) hvalue (level + 1))
      cases es with
      | nil => exact forall_of_word hplain (w := [openBrace, closeBrace]) (by decide)
      | cons e es =>
          obtain ⟨he, hes⟩ := List.forall_mem_cons.mp hentries
          rw [dumpsAt]
          exact hbetween (by decide) (by decide) he
            (forall_mem_dumpsEntries (hseparator (level + 1)) hes)

/-- With `ensure_ascii` the strings do not matter. -/
theorem forall_mem_dumpsAt_of_ascii (hplain : ∀ c : CodePoint, 0x20 ≤ c.val → c.val ≤ 0x7E → P c)
    (hlayout : ∀ level, ∀ c ∈ L.afterComma ++ (L.afterColon ++ L.newline level), P c)
    (hascii : L.ascii = true) {v : Json} (h : Printable F L v) (level : ℕ) :
    ∀ c ∈ dumpsAt F L level v, P c := by
  refine forall_mem_dumpsAt hplain hlayout (h.floats hplain)
    (allTexts_of_forall (fun s hfalse => ?_) v) level
  exact absurd (hascii.symm.trans hfalse) (by decide)

/-- Without `ensure_ascii` a string stands in its quoted form, but for the characters that are
escaped. -/
theorem forall_mem_of_encodeString (hlow : ∀ c : CodePoint, c.val < 0x80 → P c) {s : Text}
    (h : ∀ c ∈ encodeString false s, P c) : ∀ c ∈ s, P c := by
  intro c hc
  by_cases hsmall : c.val < 0x80
  · exact hlow c hsmall
  · refine h c ?_
    have hshort : shortEscape c = none := by
      unfold shortEscape
      split_ifs <;> first | rfl | omega
    have hpoint : escapePoint false c = [c] := by
      unfold escapePoint
      rw [hshort]
      dsimp only
      rw [if_neg (by simp; omega)]
    rw [encodeString, List.cons_append]
    refine List.mem_cons_of_mem _ (List.mem_append_left _ (List.mem_flatMap.mpr ⟨c, hc, ?_⟩))
    rw [hpoint]
    exact List.mem_singleton_self c

private theorem forall_mem_of_dumpsItems {xs : List Json} {level : ℕ}
    (h : ∀ c ∈ dumpsItems F L level xs, P c) : ∀ x ∈ xs, ∀ c ∈ dumpsAt F L level x, P c := by
  induction xs with
  | nil => exact fun _ hx => absurd hx List.not_mem_nil
  | cons x xs ih =>
      rw [dumpsItems] at h
      simp only [List.forall_mem_append] at h
      obtain ⟨-, hx, hxs⟩ := h
      exact List.forall_mem_cons.mpr ⟨hx, ih hxs⟩

private theorem forall_mem_of_dumpsEntries {es : List (Text × Json)} {level : ℕ}
    (h : ∀ c ∈ dumpsEntries F L level es, P c) :
    ∀ e ∈ es, ∀ c ∈ dumpsEntry F L level e, P c := by
  induction es with
  | nil => exact fun _ he => absurd he List.not_mem_nil
  | cons e es ih =>
      rw [dumpsEntries] at h
      simp only [List.forall_mem_append] at h
      obtain ⟨-, he, hes⟩ := h
      exact List.forall_mem_cons.mpr ⟨he, ih hes⟩

/-- Without `ensure_ascii` what holds of the characters of a text holds of those of the strings. -/
theorem allTexts_of_forall_mem (hlow : ∀ c : CodePoint, c.val < 0x80 → P c)
    (hascii : L.ascii = false) {v : Json} (level : ℕ) (h : ∀ c ∈ dumpsAt F L level v, P c) :
    AllTexts (fun s => ∀ c ∈ s, P c) v := by
  induction v using induction generalizing level with
  | null | bool | int | float => trivial
  | str s =>
      rw [dumpsAt, hascii] at h
      exact forall_mem_of_encodeString hlow h
  | list xs ih =>
      have hitems : ∀ x ∈ xs, ∀ c ∈ dumpsAt F L (level + 1) x, P c := by
        cases xs with
        | nil => exact fun _ hx => absurd hx List.not_mem_nil
        | cons x xs =>
            rw [dumpsAt] at h
            simp only [List.forall_mem_cons, List.forall_mem_append] at h
            obtain ⟨-, -, hfirst, hothers, -⟩ := h
            exact List.forall_mem_cons.mpr ⟨hfirst, forall_mem_of_dumpsItems hothers⟩
      exact allTextsItems_of_forall fun x hx => ih x hx (level + 1) (hitems x hx)
  | dict es ih =>
      have hentries : ∀ e ∈ es, ∀ c ∈ dumpsEntry F L (level + 1) e, P c := by
        cases es with
        | nil => exact fun _ he => absurd he List.not_mem_nil
        | cons e es =>
            rw [dumpsAt] at h
            simp only [List.forall_mem_cons, List.forall_mem_append] at h
            obtain ⟨-, -, hfirst, hothers, -⟩ := h
            exact List.forall_mem_cons.mpr ⟨hfirst, forall_mem_of_dumpsEntries hothers⟩
      refine allTextsEntries_of_forall ?_
      rintro ⟨k, v⟩ he
      have hentry := hentries (k, v) he
      rw [dumpsEntry, hascii] at hentry
      simp only [List.forall_mem_cons, List.forall_mem_append] at hentry
      obtain ⟨hkey, -, -, hvalue⟩ := hentry
      exact ⟨forall_mem_of_encodeString hlow hkey, ih (k, v) he (level + 1) hvalue⟩

/-- A `JSONResponse` can be sent if and only if no string of its content has a surrogate. -/
theorem encode_response_iff {v : Json} (hfloats : AllDoubles (fun x => Text.Plain (F.text x)) v) :
    (Text.encode (dumps F responseLayout v)).isSome ↔ AllTexts Text.Plain v := by
  have hlow (c : CodePoint) (hc : c.val < 0x80) : Text.isSurrogate c = false :=
    Text.isSurrogate_of_lt hc
  rw [Text.encode_isSome_iff]
  constructor
  · exact fun h => allTexts_of_forall_mem hlow rfl 0 h
  · intro h
    refine forall_mem_dumpsAt (fun c _ hc => hlow c (by omega))
      (fun _ c hc => absurd hc List.not_mem_nil) hfloats ?_ 0
    exact h.mono fun s hs _ => hs

end Characters

end Json

end Python

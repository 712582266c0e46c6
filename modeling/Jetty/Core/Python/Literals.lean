import Jetty.Core.Python.Words

/-!
# Literals of integers

The texts that `int` takes, and the numbers they are for: a grammar on what it sees in each
character.
-/

namespace Python

inductive Glyph
  | space
  | digit (d : ℕ)
  | underscore
  | plus
  | minus
  | other
deriving DecidableEq

/-- What `int` sees in a character. -/
def glyph (c : CodePoint) : Glyph :=
  if c.val = 0x5F then .underscore
  else if c.val = 0x2B then .plus
  else if c.val = 0x2D then .minus
  else if isAsciiSpace c ∨ 0x80 ≤ c.val ∧ Text.isSpace c then .space
  else
    match decimalOf c with
    | some d => .digit d
    | none => .other

/-- Digits with single underscores between them. -/
inductive Groups : List Glyph → List ℕ → Prop
  | last (d : ℕ) : Groups [.digit d] [d]
  | digit {gs : List Glyph} {ds : List ℕ} (d : ℕ) (h : Groups gs ds) :
    Groups (.digit d :: gs) (d :: ds)
  | group {gs : List Glyph} {ds : List ℕ} (d : ℕ) (h : Groups gs ds) :
    Groups (.digit d :: .underscore :: gs) (d :: ds)

/-- The number that digits stand for. -/
def valueOf (ds : List ℕ) : ℕ := ds.foldl (fun n d => n * 10 + d) 0

/-- A sign or none, and what it makes of a number. -/
inductive Sign : List Glyph → (ℕ → ℤ) → Prop
  | none : Sign [] fun n => n
  | plus : Sign [.plus] fun n => n
  | minus : Sign [.minus] fun n => -n

/-- A literal of the number: a sign and at most 4300 digits, between spaces. -/
def Literal (s : Text) (n : ℤ) : Prop :=
  ∃ (before sign body after : List Glyph) (value : ℕ → ℤ) (ds : List ℕ),
    s.map glyph = before ++ (sign ++ body) ++ after ∧ (∀ g ∈ before, g = .space) ∧
      (∀ g ∈ after, g = .space) ∧ Sign sign value ∧ Groups body ds ∧ ds.length ≤ 4300 ∧
        n = value (valueOf ds)

/-! ### Characters -/

/-- What there is to see once the text is ASCII. -/
def asciiGlyph (c : CodePoint) : Glyph :=
  if c.val = 0x5F then .underscore
  else if c.val = 0x2B then .plus
  else if c.val = 0x2D then .minus
  else if isAsciiSpace c then .space
  else if 0x30 ≤ c.val ∧ c.val ≤ 0x39 then .digit (c.val - 0x30)
  else .other

section Characters

variable {c : CodePoint} {d : ℕ}

private theorem isAsciiSpace_iff :
    isAsciiSpace c = true ↔ c.val = 0x20 ∨ 0x9 ≤ c.val ∧ c.val ≤ 0xD := by
  rw [isAsciiSpace, Bool.or_eq_true, beq_iff_eq, Bool.and_eq_true, decide_eq_true_iff,
    decide_eq_true_iff]

private theorem decimalOf_lt (h : decimalOf c = some d) : d < 10 := by
  obtain ⟨b, hb, rfl⟩ := Option.map_eq_some_iff.mp h
  have hblock := List.find?_some hb
  rw [Bool.and_eq_true, decide_eq_true_iff, decide_eq_true_iff] at hblock
  omega

/-- The decimal digits of ASCII. -/
theorem decimalOf_ascii (h : c.val < 0x80) :
    decimalOf c = if 0x30 ≤ c.val ∧ c.val ≤ 0x39 then some (c.val - 0x30) else none := by
  have hlate : ∀ b ∈ decimalBlocks.tail, 0x80 ≤ b := by decide
  have hblocks : decimalBlocks = 0x30 :: decimalBlocks.tail := rfl
  unfold decimalOf
  rw [hblocks]
  split
  · rename_i hdigit
    rw [List.find?_cons_of_pos]
    · rfl
    · rw [Bool.and_eq_true, decide_eq_true_iff, decide_eq_true_iff]
      omega
  · rename_i hdigit
    rw [List.find?_cons_of_neg, List.find?_eq_none.mpr]
    · rfl
    · intro b hb hblock
      have hbound := hlate b hb
      rw [Bool.and_eq_true, decide_eq_true_iff] at hblock
      omega
    · rw [Bool.and_eq_true, decide_eq_true_iff, decide_eq_true_iff]
      omega

private theorem asciiGlyph_of_lt (h : c.val < 0x80) : asciiGlyph c = glyph c := by
  unfold asciiGlyph glyph
  rw [decimalOf_ascii h]
  have hspace : (isAsciiSpace c = true ∨ 0x80 ≤ c.val ∧ Text.isSpace c = true) ↔
      isAsciiSpace c = true := or_iff_left fun hlate => absurd h (Nat.not_lt_of_le hlate.1)
  simp only [hspace]
  split_ifs <;> rfl

/-- A character beyond ASCII, as `toAscii` has it. -/
theorem asciiGlyph_of_le (h : 0x7F ≤ c.val) : asciiGlyph
    (if Text.isSpace c then 0x20
      else
        match decimalOf c with
        | some d => Fin.ofNat _ (0x30 + d)
        | none => 0x3F) = glyph c := by
  have hascii : ¬ isAsciiSpace c = true := by
    rw [isAsciiSpace_iff]
    omega
  by_cases hspace : Text.isSpace c = true
  · have hlate : 0x80 ≤ c.val := by
      by_contra hearly
      have hval : c.val = 0x7F := by omega
      simp [Text.isSpace, hval] at hspace
    have hglyph : glyph c = .space := by
      rw [glyph, if_neg (by omega), if_neg (by omega), if_neg (by omega),
        if_pos (.inr ⟨hlate, hspace⟩)]
    rw [if_pos hspace, hglyph]
    decide
  · rw [if_neg hspace, glyph, if_neg (by omega), if_neg (by omega), if_neg (by omega),
      if_neg (not_or.mpr ⟨hascii, fun hlate => hspace hlate.2⟩)]
    cases hdecimal : decimalOf c with
    | none => decide
    | some d =>
        have hd := decimalOf_lt hdecimal
        have hval : (Fin.ofNat 0x110000 (0x30 + d) : CodePoint).val = 0x30 + d :=
          Nat.mod_eq_of_lt (by omega)
        have hnospace : ¬ isAsciiSpace (Fin.ofNat 0x110000 (0x30 + d)) = true := by
          rw [isAsciiSpace_iff, hval]
          omega
        dsimp only
        rw [asciiGlyph, hval, if_neg (by omega), if_neg (by omega), if_neg (by omega),
          if_neg hnospace, if_pos (by omega), Nat.add_sub_cancel_left]

private theorem map_toAscii (s : Text) : (toAscii s).map asciiGlyph = s.map glyph := by
  unfold toAscii
  split
  · rename_i hascii
    rw [List.all_eq_true] at hascii
    exact List.map_congr_left fun c hc => asciiGlyph_of_lt (of_decide_eq_true (hascii c hc))
  · rw [List.map_map]
    refine List.map_congr_left fun c _ => ?_
    rw [Function.comp_apply]
    by_cases hc : c.val < 0x7F
    · rw [if_pos hc]
      exact asciiGlyph_of_lt (Nat.lt_succ_of_lt hc)
    · rw [if_neg hc]
      exact asciiGlyph_of_le (Nat.le_of_not_lt hc)

private theorem asciiGlyph_eq_underscore : asciiGlyph c = .underscore ↔ c.val = 0x5F := by
  unfold asciiGlyph
  split_ifs <;> simp_all

private theorem asciiGlyph_eq_plus : asciiGlyph c = .plus ↔ c.val = 0x2B := by
  unfold asciiGlyph
  split_ifs <;> simp_all

private theorem asciiGlyph_eq_minus : asciiGlyph c = .minus ↔ c.val = 0x2D := by
  unfold asciiGlyph
  split_ifs <;> simp_all

private theorem asciiGlyph_eq_digit :
    asciiGlyph c = .digit d ↔ 0x30 ≤ c.val ∧ c.val ≤ 0x39 ∧ d = c.val - 0x30 := by
  unfold asciiGlyph
  split_ifs with h₁ h₂ h₃ h₄ h₅
  · simp [h₁]
  · simp [h₂]
  · simp [h₃]
  · rw [isAsciiSpace_iff] at h₄
    exact iff_of_false nofun fun hdigit => by omega
  · rw [Glyph.digit.injEq, eq_comm]
    omega
  · exact iff_of_false nofun fun hdigit => by omega

private theorem asciiGlyph_eq_space : asciiGlyph c = .space ↔ isAsciiSpace c = true := by
  unfold asciiGlyph
  split_ifs with h₁ h₂ h₃ h₄ h₅
  · rw [isAsciiSpace_iff, h₁]
    decide
  · rw [isAsciiSpace_iff, h₂]
    decide
  · rw [isAsciiSpace_iff, h₃]
    decide
  · exact iff_of_true rfl h₄
  · exact iff_of_false nofun h₄
  · exact iff_of_false nofun h₄

end Characters

/-! ### Digits -/

section Digits

variable {s : Text} {gs : List Glyph} {ds : List ℕ} {afterDigit : Bool}

/-- What is read is a run of groups, which may have begun. -/
theorem groups_of_digits (h : digits afterDigit s = some ds) :
    afterDigit = true ∧ (s = [] ∧ ds = [] ∨
      ∃ gs, s.map asciiGlyph = .underscore :: gs ∧ Groups gs ds) ∨
      Groups (s.map asciiGlyph) ds := by
  induction s generalizing afterDigit ds with
  | nil =>
      cases afterDigit with
      | false => cases h
      | true =>
          obtain rfl := Option.some.inj h
          exact .inl ⟨rfl, .inl ⟨rfl, rfl⟩⟩
  | cons c s ih =>
      rw [digits] at h
      rw [List.map_cons]
      split at h
      · rename_i hunderscore
        cases afterDigit with
        | false => cases h
        | true =>
            rcases ih h with ⟨hfalse, -⟩ | hgroups
            · cases hfalse
            · rw [asciiGlyph_eq_underscore.mpr hunderscore]
              exact .inl ⟨rfl, .inr ⟨_, rfl, hgroups⟩⟩
      · split at h
        · rename_i hdigit
          obtain ⟨ds, hds, rfl⟩ := Option.map_eq_some_iff.mp h
          rw [asciiGlyph_eq_digit.mpr ⟨hdigit.1, hdigit.2, rfl⟩]
          right
          rcases ih hds with ⟨-, ⟨rfl, rfl⟩ | ⟨gs, hgs, hgroups⟩⟩ | hgroups
          · exact .last _
          · rw [hgs]
            exact .group _ hgroups
          · exact .digit _ hgroups
        · cases h

private theorem digits_cons {c : CodePoint} {d : ℕ} (hc : asciiGlyph c = .digit d) (s : Text) :
    digits afterDigit (c :: s) = (digits true s).map (d :: ·) := by
  obtain ⟨hlow, hhigh, rfl⟩ := asciiGlyph_eq_digit.mp hc
  rw [digits, if_neg (by omega), if_pos ⟨hlow, hhigh⟩]

private theorem Groups.digits_eq (h : Groups gs ds) (hs : s.map asciiGlyph = gs) :
    digits afterDigit s = some ds := by
  induction h generalizing s afterDigit with
  | last d =>
      obtain ⟨c, rest, rfl, hc, hrest⟩ := List.map_eq_cons_iff.mp hs
      obtain rfl := List.map_eq_nil_iff.mp hrest
      rw [digits_cons hc]
      rfl
  | digit d h ih =>
      obtain ⟨c, rest, rfl, hc, hrest⟩ := List.map_eq_cons_iff.mp hs
      rw [digits_cons hc, ih hrest, Option.map_some]
  | group d h ih =>
      obtain ⟨c, rest, rfl, hc, hrest⟩ := List.map_eq_cons_iff.mp hs
      obtain ⟨u, rest, rfl, hu, hrest⟩ := List.map_eq_cons_iff.mp hrest
      rw [digits_cons hc, digits, if_pos (asciiGlyph_eq_underscore.mp hu), if_pos rfl, ih hrest,
        Option.map_some]

/-- The digits of a number without a sign. -/
theorem natOfText_eq_some {n : ℕ} : natOfText s = some n ↔
    ∃ ds, Groups (s.map asciiGlyph) ds ∧ ds.length ≤ 4300 ∧ n = valueOf ds := by
  unfold natOfText
  constructor
  · intro h
    split at h
    · rename_i ds hds
      split at h
      · cases h
      · rename_i hlength
        rcases groups_of_digits hds with ⟨hfalse, -⟩ | hgroups
        · cases hfalse
        · exact ⟨ds, hgroups, Nat.le_of_not_lt hlength, (Option.some.inj h).symm⟩
    · cases h
  · rintro ⟨ds, hgroups, hlength, rfl⟩
    rw [hgroups.digits_eq rfl]
    exact if_neg (Nat.not_lt_of_le hlength)

/-- Groups begin with a digit, and end with one. -/
theorem Groups.ends (h : Groups gs ds) :
    (∃ d rest, gs = .digit d :: rest) ∧ ∃ front d, gs = front ++ [.digit d] := by
  induction h with
  | last d => exact ⟨⟨d, [], rfl⟩, [], d, rfl⟩
  | digit d h ih =>
      obtain ⟨-, front, e, rfl⟩ := ih
      exact ⟨⟨d, _, rfl⟩, .digit d :: front, e, rfl⟩
  | group d h ih =>
      obtain ⟨-, front, e, rfl⟩ := ih
      exact ⟨⟨d, _, rfl⟩, .digit d :: .underscore :: front, e, rfl⟩

end Digits

/-! ### Signs and spaces -/

/-- A number with its sign. -/
def Signed (gs : List Glyph) (n : ℤ) : Prop :=
  ∃ (sign body : List Glyph) (value : ℕ → ℤ) (ds : List ℕ), gs = sign ++ body ∧
    Sign sign value ∧ Groups body ds ∧ ds.length ≤ 4300 ∧ n = value (valueOf ds)

/-- `int` of a text once the spaces are gone. -/
def signedOfText (s : Text) : Option ℤ :=
  match s with
  | c :: cs =>
    if c.val = 0x2D then (natOfText cs).map fun n : ℕ => -(n : ℤ)
    else if c.val = 0x2B then (natOfText cs).map fun n : ℕ => (n : ℤ)
    else (natOfText s).map fun n : ℕ => (n : ℤ)
  | [] => none

section Signs

variable {s : Text} {gs : List Glyph} {n : ℤ}

private theorem signedOfText_eq_some : signedOfText s = some n ↔ Signed (s.map asciiGlyph) n := by
  unfold signedOfText Signed
  cases s with
  | nil =>
      refine iff_of_false nofun ?_
      rintro ⟨sign, body, value, ds, heq, -, hgroups, -⟩
      obtain ⟨⟨d, rest, rfl⟩, -⟩ := hgroups.ends
      exact absurd (congrArg List.length heq) (by simp)
  | cons c cs =>
      have hnat (s : Text) (f : ℕ → ℤ) : (natOfText s).map f = some n ↔
          ∃ ds, Groups (s.map asciiGlyph) ds ∧ ds.length ≤ 4300 ∧ n = f (valueOf ds) := by
        rw [Option.map_eq_some_iff]
        constructor
        · rintro ⟨k, hk, rfl⟩
          obtain ⟨ds, hgroups, hlength, rfl⟩ := natOfText_eq_some.mp hk
          exact ⟨ds, hgroups, hlength, rfl⟩
        · rintro ⟨ds, hgroups, hlength, rfl⟩
          exact ⟨_, natOfText_eq_some.mpr ⟨ds, hgroups, hlength, rfl⟩, rfl⟩
      -- A sign is told by the first character, which is a digit where there is none.
      have hfirst {sign body : List Glyph} {value : ℕ → ℤ} {ds : List ℕ}
          (hsign : Sign sign value) (hgroups : Groups body ds)
          (heq : (c :: cs).map asciiGlyph = sign ++ body) :
          (c.val = 0x2D ∧ sign = [.minus]) ∨ (c.val = 0x2B ∧ sign = [.plus]) ∨
            (c.val ≠ 0x2D ∧ c.val ≠ 0x2B ∧ sign = []) := by
        rw [List.map_cons] at heq
        cases hsign with
        | none =>
            obtain ⟨⟨d, rest, rfl⟩, -⟩ := hgroups.ends
            obtain ⟨hlow, -, -⟩ := asciiGlyph_eq_digit.mp (List.cons.inj heq).1
            exact .inr (.inr ⟨by omega, by omega, rfl⟩)
        | plus => exact .inr (.inl ⟨asciiGlyph_eq_plus.mp (List.cons.inj heq).1, rfl⟩)
        | minus => exact .inl ⟨asciiGlyph_eq_minus.mp (List.cons.inj heq).1, rfl⟩
      dsimp only
      split
      · rename_i hminus
        rw [hnat]
        constructor
        · rintro ⟨ds, hgroups, hlength, rfl⟩
          refine ⟨[.minus], _, _, ds, ?_, .minus, hgroups, hlength, rfl⟩
          rw [List.map_cons, asciiGlyph_eq_minus.mpr hminus]
          rfl
        · rintro ⟨sign, body, value, ds, heq, hsign, hgroups, hlength, rfl⟩
          rcases hfirst hsign hgroups heq with ⟨-, rfl⟩ | ⟨hplus, -⟩ | ⟨hnot, -⟩
          · cases hsign
            obtain rfl := (List.cons.inj heq).2
            exact ⟨ds, hgroups, hlength, rfl⟩
          · omega
          · exact absurd hminus hnot
      · rename_i hminus
        split
        · rename_i hplus
          rw [hnat]
          constructor
          · rintro ⟨ds, hgroups, hlength, rfl⟩
            refine ⟨[.plus], _, _, ds, ?_, .plus, hgroups, hlength, rfl⟩
            rw [List.map_cons, asciiGlyph_eq_plus.mpr hplus]
            rfl
          · rintro ⟨sign, body, value, ds, heq, hsign, hgroups, hlength, rfl⟩
            rcases hfirst hsign hgroups heq with ⟨hnot, -⟩ | ⟨-, rfl⟩ | ⟨-, hnot, -⟩
            · exact absurd hnot hminus
            · cases hsign
              obtain rfl := (List.cons.inj heq).2
              exact ⟨ds, hgroups, hlength, rfl⟩
            · exact absurd hplus hnot
        · rename_i hplus
          rw [hnat]
          constructor
          · rintro ⟨ds, hgroups, hlength, rfl⟩
            exact ⟨[], _, _, ds, rfl, .none, hgroups, hlength, rfl⟩
          · rintro ⟨sign, body, value, ds, heq, hsign, hgroups, hlength, rfl⟩
            rcases hfirst hsign hgroups heq with ⟨hnot, -⟩ | ⟨hnot, -⟩ | ⟨-, -, rfl⟩
            · exact absurd hnot hminus
            · exact absurd hnot hplus
            · cases hsign
              rw [List.nil_append] at heq
              rw [heq]
              exact ⟨ds, hgroups, hlength, rfl⟩

/-- The ends of what is between spaces are not spaces. -/
theorem Signed.ends (h : Signed gs n) :
    (∃ g rest, gs = g :: rest ∧ g ≠ .space) ∧ ∃ front g, gs = front ++ [g] ∧ g ≠ .space := by
  obtain ⟨sign, body, value, ds, rfl, hsign, hgroups, -⟩ := h
  obtain ⟨⟨d, rest, hbody⟩, front, e, hback⟩ := hgroups.ends
  refine ⟨?_, sign ++ front, .digit e, ?_, nofun⟩
  · cases hsign with
    | none => exact ⟨.digit d, rest, hbody, nofun⟩
    | plus => exact ⟨.plus, body, rfl, nofun⟩
    | minus => exact ⟨.minus, body, rfl, nofun⟩
  · rw [hback, List.append_assoc]

end Signs

/-- Without the spaces at both ends. -/
def stripped (s : Text) : Text :=
  ((s.dropWhile isAsciiSpace).reverse.dropWhile isAsciiSpace).reverse

private theorem intOfText_eq_signedOfText (s : Text) :
    intOfText s = signedOfText (stripped (toAscii s)) := by
  have hcast (o : Option ℕ) (f : ℤ → ℤ) :
      Option.map f (do let n ← o; pure (n : ℤ)) = o.map fun n : ℕ => f n := by
    cases o <;> rfl
  have hstripped : ((((toAscii s).dropWhile isAsciiSpace).reverse).dropWhile isAsciiSpace).reverse =
      stripped (toAscii s) := rfl
  unfold intOfText signedOfText
  simp only [hcast, hstripped]
  cases stripped (toAscii s) <;> rfl

/-- What is stripped are spaces. -/
theorem exists_stripped (s : Text) : ∃ before after, s = before ++ stripped s ++ after ∧
    (∀ c ∈ before, isAsciiSpace c = true) ∧ ∀ c ∈ after, isAsciiSpace c = true := by
  have hback := List.takeWhile_append_dropWhile
    (p := isAsciiSpace) (l := (s.dropWhile isAsciiSpace).reverse)
  have hmiddle := congrArg List.reverse hback
  rw [List.reverse_append, List.reverse_reverse] at hmiddle
  refine ⟨s.takeWhile isAsciiSpace,
    ((s.dropWhile isAsciiSpace).reverse.takeWhile isAsciiSpace).reverse, ?_,
    fun c hc => List.mem_takeWhile_imp hc, fun c hc => ?_⟩
  · rw [List.append_assoc]
    change s = _ ++ (stripped s ++ _)
    rw [stripped, hmiddle, List.takeWhile_append_dropWhile]
  · exact List.mem_takeWhile_imp (List.mem_reverse.mp hc)

/-- A text that begins and ends with something else keeps it. -/
theorem stripped_append {before middle after : Text}
    (hbefore : ∀ c ∈ before, isAsciiSpace c = true) (hafter : ∀ c ∈ after, isAsciiSpace c = true)
    (hfirst : ∃ c rest, middle = c :: rest ∧ isAsciiSpace c = false)
    (hlast : ∃ front c, middle = front ++ [c] ∧ isAsciiSpace c = false) :
    stripped (before ++ middle ++ after) = middle := by
  obtain ⟨c, rest, hmiddle, hc⟩ := hfirst
  obtain ⟨front, e, hmiddle', he⟩ := hlast
  have hfront : (middle ++ after).dropWhile isAsciiSpace = middle ++ after := by
    rw [hmiddle, List.cons_append, List.dropWhile_cons_of_neg (by rw [hc]; exact nofun)]
  have hback : middle.reverse.dropWhile isAsciiSpace = middle.reverse := by
    rw [hmiddle', List.reverse_append, List.reverse_singleton, List.singleton_append,
      List.dropWhile_cons_of_neg (by rw [he]; exact nofun)]
  rw [stripped, List.append_assoc, List.dropWhile_append_of_pos hbefore, hfront,
    List.reverse_append,
    List.dropWhile_append_of_pos (fun c hc => hafter c (List.mem_reverse.mp hc)), hback,
    List.reverse_reverse]

/-- `int` takes the literals, each for its number. -/
theorem intOfText_eq_some {s : Text} {n : ℤ} : intOfText s = some n ↔ Literal s n := by
  rw [intOfText_eq_signedOfText, signedOfText_eq_some]
  unfold Literal
  rw [← map_toAscii]
  generalize toAscii s = t
  constructor
  · rintro ⟨sign, body, value, ds, heq, hsign, hgroups, hlength, rfl⟩
    obtain ⟨before, after, ht, hbefore, hafter⟩ := exists_stripped t
    refine ⟨before.map asciiGlyph, sign, body, after.map asciiGlyph, value, ds, ?_, ?_, ?_, hsign,
      hgroups, hlength, rfl⟩
    · rw [← heq, ← List.map_append, ← List.map_append, ← ht]
    · rw [List.forall_mem_map]
      exact fun c hc => asciiGlyph_eq_space.mpr (hbefore c hc)
    · rw [List.forall_mem_map]
      exact fun c hc => asciiGlyph_eq_space.mpr (hafter c hc)
  · rintro ⟨before, sign, body, after, value, ds, heq, hbefore, hafter, hsign, hgroups, hlength,
      rfl⟩
    have hsigned : Signed (sign ++ body) (value (valueOf ds)) :=
      ⟨sign, body, value, ds, rfl, hsign, hgroups, hlength, rfl⟩
    obtain ⟨front, last, rfl, hfront, hlast⟩ := List.map_eq_append_iff.mp heq
    obtain ⟨first, middle, rfl, hfirst, hmiddle⟩ := List.map_eq_append_iff.mp hfront
    have hspaces {cs : Text} {gs : List Glyph} (hcs : cs.map asciiGlyph = gs)
        (hgs : ∀ g ∈ gs, g = .space) : ∀ c ∈ cs, isAsciiSpace c = true := by
      intro c hc
      exact asciiGlyph_eq_space.mp (hgs _ (hcs ▸ List.mem_map_of_mem hc))
    have hnospace {c : CodePoint} (hc : asciiGlyph c ≠ .space) : isAsciiSpace c = false :=
      Bool.eq_false_iff.mpr fun hspace => hc (asciiGlyph_eq_space.mpr hspace)
    obtain ⟨⟨g, rest, hg, hne⟩, front, e, he, hne'⟩ := hsigned.ends
    rw [stripped_append (hspaces hfirst hbefore) (hspaces hlast hafter), hmiddle]
    · exact hsigned
    · obtain ⟨c, cs, rfl, hc, -⟩ := List.map_eq_cons_iff.mp (hmiddle.trans hg)
      exact ⟨c, cs, rfl, hnospace (hc ▸ hne)⟩
    · obtain ⟨cs, l, rfl, -, hl⟩ := List.map_eq_append_iff.mp (hmiddle.trans he)
      obtain ⟨c, rest, rfl, hc, hrest⟩ := List.map_eq_cons_iff.mp hl
      obtain rfl := List.map_eq_nil_iff.mp hrest
      exact ⟨cs, c, rfl, hnospace (hc ▸ hne')⟩

end Python

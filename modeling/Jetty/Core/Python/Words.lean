import Jetty.Core.Python.Integer
import Jetty.Core.Python.Segments
import Jetty.Core.Python.Utf8
import Mathlib.Data.List.TakeWhile

/-!
# Text files of words and numbers

Reading a file as text, splitting it into words, and the numbers among them.
-/

namespace Python

namespace Text

def carriageReturn : CodePoint := 0x0D

def newline : CodePoint := 0x0A

/-- The newlines of a text as a file opened in text mode yields them. -/
def universalNewlines : Text → Text
  | [] => []
  | [c] => if c = carriageReturn then [newline] else [c]
  | c :: d :: cs =>
    if c = carriageReturn then
      if d = newline then universalNewlines (d :: cs)
      else newline :: universalNewlines (d :: cs)
    else c :: universalNewlines (d :: cs)

/-- `Path.read_text` of bytes, as UTF-8; nothing where it raises `UnicodeDecodeError`. -/
def readText (bytes : List ℕ) : Option Text := (decode bytes).map universalNewlines

/-- `str.split()`. -/
def words (s : Text) : List Text := (s.splitOnP isSpace).filter (· ≠ [])

/-- A text without carriage returns is read as it is. -/
theorem universalNewlines_of_not_mem {s : Text} (h : carriageReturn ∉ s) :
    universalNewlines s = s := by
  fun_induction universalNewlines s with
  | case1 => rfl
  | case2 => simp at h
  | case3 => rfl
  | case4 => simp at h
  | case5 => simp at h
  | case6 c d cs hc ih => rw [ih (List.not_mem_of_not_mem_cons h)]

/-- A character that is no newline of any kind separates what is read before it and after it. -/
theorem universalNewlines_append_cons (s t : Text) {c : CodePoint} (hc : c ≠ carriageReturn)
    (hc' : c ≠ newline) :
    universalNewlines (s ++ c :: t) = universalNewlines s ++ c :: universalNewlines t := by
  have hcons : universalNewlines (c :: t) = c :: universalNewlines t := by
    cases t with
    | nil => simp only [universalNewlines, if_neg hc]
    | cons d t => rw [universalNewlines, if_neg hc]
  fun_induction universalNewlines s with
  | case1 => exact hcons
  | case2 =>
      rw [List.singleton_append, universalNewlines, if_pos rfl, if_neg hc', hcons]
      rfl
  | case3 d hd =>
      rw [List.singleton_append, universalNewlines, if_neg hd, hcons]
      rfl
  | case4 cs ih =>
      rw [List.cons_append, List.cons_append, universalNewlines, if_pos rfl, if_pos rfl,
        ← List.cons_append, ih]
  | case5 d cs hd ih =>
      rw [List.cons_append, List.cons_append, universalNewlines, if_pos rfl, if_neg hd,
        ← List.cons_append, ih]
      rfl
  | case6 d e cs hd ih =>
      rw [List.cons_append, List.cons_append, universalNewlines, if_neg hd, ← List.cons_append, ih]
      rfl

/-- A space in front adds no word. -/
theorem words_cons_space {c : CodePoint} (hc : isSpace c = true) (s : Text) :
    words (c :: s) = words s := by
  have hsplit := List.splitOnP_append_cons (p := isSpace) [] s hc
  rw [List.nil_append] at hsplit
  rw [words, hsplit, List.splitOnP_nil, List.filter_append]
  rfl

/-- A word, up to the space behind it. -/
theorem words_append_space {w : Text} (hne : w ≠ []) (hw : ∀ c ∈ w, isSpace c = false)
    {c : CodePoint} (hc : isSpace c = true) (s : Text) : words (w ++ c :: s) = w :: words s := by
  rw [words, List.splitOnP_append_cons w s hc, List.splitOnP_eq_singleton hw, List.filter_append]
  simp [hne, words]

section Bytes

private theorem encodePoint_cons {c : CodePoint} {bytes : List ℕ} {b : ℕ}
    (h : encodePoint c = some (b :: bytes)) (hb : b < 0x80) : bytes = [] ∧ c.val = b := by
  unfold encodePoint at h
  split_ifs at h <;> simp only [Option.some.injEq, List.cons.injEq] at h
  · exact ⟨h.2.symm, h.1⟩
  · omega
  · omega
  · omega

/-- ASCII bytes at the front are ASCII characters at the front. -/
theorem prefix_of_encode {t s : Text} {bytes : List ℕ} (hs : ∀ c ∈ s, c.val < 0x80)
    (h : encode t = some (s.map Fin.val ++ bytes)) :
    ∃ u, t = s ++ u ∧ encode u = some bytes := by
  induction s generalizing t with
  | nil => exact ⟨t, rfl, h⟩
  | cons c s ih =>
      obtain ⟨hc, hrest⟩ := List.forall_mem_cons.mp hs
      cases t with
      | nil => simp [encode] at h
      | cons d t =>
          rw [encode_cons] at h
          obtain ⟨front, hfront, h⟩ := Option.bind_eq_some_iff.mp h
          obtain ⟨back, hencode, heq⟩ := Option.map_eq_some_iff.mp h
          cases front with
          | nil => exact absurd hfront encodePoint_ne_nil
          | cons b front =>
              rw [List.map_cons, List.cons_append, List.cons_append] at heq
              obtain ⟨rfl, hback⟩ := List.cons.inj heq
              obtain ⟨rfl, hval⟩ := encodePoint_cons hfront hc
              obtain rfl : d = c := Fin.ext hval
              rw [List.nil_append] at hback
              obtain ⟨u, rfl, hu⟩ := ih hrest (hback ▸ hencode)
              exact ⟨u, rfl, hu⟩

/-- A text of ASCII is encoded as its characters. -/
theorem encode_of_ascii {s : Text} (h : ∀ c ∈ s, c.val < 0x80) :
    encode s = some (s.map Fin.val) := by
  induction s with
  | nil => rfl
  | cons c s ih =>
      obtain ⟨hc, hs⟩ := List.forall_mem_cons.mp h
      have hpoint : encodePoint c = some [c.val] := by
        have hlow : isSurrogate c = false := by
          rw [isSurrogate, Bool.and_eq_false_iff, decide_eq_false_iff_not]
          exact .inl (by omega)
        rw [encodePoint, hlow, if_neg Bool.false_ne_true, if_pos hc]
      rw [encode_cons, hpoint, ih hs]
      rfl

/-- Bytes between ASCII texts are decoded on their own. -/
theorem decode_between {s t : Text} (hs : ∀ c ∈ s, c.val < 0x80) (ht : ∀ c ∈ t, c.val < 0x80)
    (bytes : List ℕ) :
    decode (s.map Fin.val ++ bytes ++ t.map Fin.val) =
      (decode bytes).map fun middle => s ++ middle ++ t := by
  cases hmiddle : decode bytes with
  | some middle =>
      have hencode := decode_eq_some.mp hmiddle
      exact decode_eq_some.mpr (encode_append_of_eq
        (encode_append_of_eq (encode_of_ascii hs) hencode) (encode_of_ascii ht))
  | none =>
      cases hall : decode (s.map Fin.val ++ bytes ++ t.map Fin.val) with
      | none => rfl
      | some all =>
          have hencode := decode_eq_some.mp hall
          obtain ⟨front, rfl⟩ := suffix_of_encode ht hencode
          rw [encode_append] at hencode
          obtain ⟨a, ha, hencode⟩ := Option.bind_eq_some_iff.mp hencode
          obtain ⟨b, hb, heq⟩ := Option.map_eq_some_iff.mp hencode
          obtain rfl : b = t.map Fin.val := Option.some.inj (hb.symm.trans (encode_of_ascii ht))
          obtain rfl := List.append_cancel_right heq
          obtain ⟨middle, -, hmid⟩ := prefix_of_encode hs ha
          rw [decode_eq_some.mpr hmid] at hmiddle
          cases hmiddle

end Bytes

end Text

section Numbers

/-- The digits of a text of ASCII digits. -/
theorem digits_of_ascii {s : Text} (h : ∀ c ∈ s, 0x30 ≤ c.val ∧ c.val ≤ 0x39) {afterDigit : Bool}
    (hs : s ≠ [] ∨ afterDigit = true) :
    digits afterDigit s = some (s.map fun c => c.val - 0x30) := by
  induction s generalizing afterDigit with
  | nil => rw [digits, if_pos (hs.resolve_left fun h => h rfl), List.map_nil]
  | cons c s ih =>
      obtain ⟨hc, htail⟩ := List.forall_mem_cons.mp h
      rw [digits, if_neg (by omega), if_pos hc, ih htail (.inr rfl), List.map_cons, Option.map_some]

/-- No numeral is empty. -/
theorem numeral_ne_nil (n : ℕ) : numeral n ≠ [] := by
  rw [numeral, text, Nat.toString_eq_ofList_toDigits, String.toList_ofList]
  exact fun h => Nat.toDigits_ne_nil (List.map_eq_nil_iff.mp h)

/-- A numeral is as long as the decimal text of its number. -/
theorem length_numeral (n : ℕ) : (numeral n).length = (toString n).toList.length := by
  rw [numeral, text, List.length_map]

/-- The digits of a numeral stand for its number. -/
theorem foldl_numeral (n : ℕ) :
    ((numeral n).map fun c => c.val - 0x30).foldl (fun m d => m * 10 + d) 0 = n := by
  have hvalue := Nat.ofDigitChars_ten_toDigits (n := n)
  rw [Nat.ofDigitChars_eq_foldl] at hvalue
  rw [numeral, text, Nat.toString_eq_ofList_toDigits, String.toList_ofList, List.map_map,
    List.foldl_map]
  refine Eq.trans ?_ hvalue
  refine List.foldl_ext _ _ _ fun m c hc => ?_
  have hdigit := Nat.isDigit_of_mem_toDigits (by decide) (Nat.le_refl 10) hc
  have hhigh := (Char.isDigit_iff_toNat.mp hdigit).2
  have hmod : c.toNat % 0x110000 = c.toNat :=
    Nat.mod_eq_of_lt (Nat.lt_of_le_of_lt hhigh (by decide))
  rw [Function.comp_apply, Fin.val_ofNat, hmod, Nat.mul_comm]
  rfl

/-- `int` of a text of ASCII digits, of which it converts at most 4300. -/
theorem intOfText_of_ascii {s : Text} (hdigit : ∀ c ∈ s, 0x30 ≤ c.val ∧ c.val ≤ 0x39)
    (hne : s ≠ []) : intOfText s =
      if s.length ≤ 4300 then
        some (((s.map fun c => c.val - 0x30).foldl (fun m d => m * 10 + d) 0 : ℕ) : ℤ)
      else none := by
  have hnospace : ∀ c ∈ s, isAsciiSpace c = false := by
    intro c hc
    have hbounds := hdigit c hc
    rw [isAsciiSpace, Bool.or_eq_false_iff, beq_eq_false_iff_ne, Bool.and_eq_false_iff,
      decide_eq_false_iff_not, decide_eq_false_iff_not]
    omega
  have hascii : toAscii s = s := by
    rw [toAscii, if_pos]
    rw [List.all_eq_true]
    intro c hc
    have hbounds := hdigit c hc
    rw [decide_eq_true_eq]
    omega
  have hstrip {s : Text} (hs : ∀ c ∈ s, isAsciiSpace c = false) : s.dropWhile isAsciiSpace = s := by
    cases s with
    | nil => rfl
    | cons c s => exact List.dropWhile_cons_of_neg (Bool.eq_false_iff.mp (hs c List.mem_cons_self))
  have hfront := hstrip hnospace
  have hback := hstrip fun c (hc : c ∈ s.reverse) => hnospace c (List.mem_reverse.mp hc)
  have hnat : natOfText s = if s.length ≤ 4300 then
      some ((s.map fun c => c.val - 0x30).foldl (fun m d => m * 10 + d) 0) else none := by
    rw [natOfText, digits_of_ascii hdigit (.inl hne)]
    dsimp only
    rw [List.length_map]
    split_ifs <;> first | rfl | omega
  rw [intOfText, hascii, hfront, hback, List.reverse_reverse]
  cases hs : s with
  | nil => exact absurd hs hne
  | cons c cs =>
      have hbounds := hdigit c (hs ▸ List.mem_cons_self)
      rw [hs] at hnat
      dsimp only
      rw [if_neg (by omega), if_neg (by omega), hnat]
      split_ifs <;> rfl

/-- `int` of the numeral of a number. -/
theorem intOfText_numeral_eq (n : ℕ) :
    intOfText (numeral n) = if (numeral n).length ≤ 4300 then some (n : ℤ) else none := by
  rw [intOfText_of_ascii (fun _ hc => digit_of_mem_numeral hc) (numeral_ne_nil n), foldl_numeral]

/-- `int` reads a numeral of at most 4300 digits back. -/
theorem intOfText_numeral {n : ℕ} (h : (numeral n).length ≤ 4300) :
    intOfText (numeral n) = some (n : ℤ) := by
  rw [intOfText_numeral_eq, if_pos h]

private theorem mem_dropWhile_of_not {α : Type*} {p : α → Bool} {l : List α} {a : α} (ha : a ∈ l)
    (hp : p a = false) : a ∈ l.dropWhile p := by
  rw [← List.takeWhile_append_dropWhile (p := p) (l := l)] at ha
  rcases List.mem_append.mp ha with htake | hdrop
  · rw [List.mem_takeWhile_imp htake] at hp
    cases hp
  · exact hdrop

/-- Only digits and underscores are read as a number without a sign. -/
theorem forall_of_digits {s : Text} {afterDigit : Bool} {ds : List ℕ}
    (h : digits afterDigit s = some ds) :
    ∀ c ∈ s, c.val = 0x5F ∨ 0x30 ≤ c.val ∧ c.val ≤ 0x39 := by
  induction s generalizing afterDigit ds with
  | nil => exact List.forall_mem_nil _
  | cons c s ih =>
      rw [digits] at h
      split at h
      · rename_i hunderscore
        split at h
        · exact List.forall_mem_cons.mpr ⟨.inl hunderscore, ih h⟩
        · cases h
      · split at h
        · rename_i hdigit
          obtain ⟨ds, hrest, -⟩ := Option.map_eq_some_iff.mp h
          exact List.forall_mem_cons.mpr ⟨.inr hdigit, ih hrest⟩
        · cases h

private theorem natOfText_eq_none {s : Text} {c : CodePoint} (hc : c ∈ s)
    (h : ¬ (c.val = 0x5F ∨ 0x30 ≤ c.val ∧ c.val ≤ 0x39)) : natOfText s = none := by
  unfold natOfText
  split
  · rename_i ds hds
    exact absurd (forall_of_digits hds c hc) h
  · rfl

/-- What is no digit, no sign, no underscore and no space is in no number. -/
theorem intOfText_eq_none {s : Text} {c : CodePoint} (hc : c ∈ s) (hlow : c.val < 0x7F)
    (hspace : isAsciiSpace c = false) (hsign : c.val ≠ 0x2D ∧ c.val ≠ 0x2B)
    (h : ¬ (c.val = 0x5F ∨ 0x30 ≤ c.val ∧ c.val ≤ 0x39)) : intOfText s = none := by
  have hascii : c ∈ toAscii s := by
    unfold toAscii
    split
    · exact hc
    · exact List.mem_map.mpr ⟨c, hc, if_pos hlow⟩
  have hstripped : c ∈ (((toAscii s).dropWhile isAsciiSpace).reverse.dropWhile
      isAsciiSpace).reverse :=
    List.mem_reverse.mpr (mem_dropWhile_of_not
      (List.mem_reverse.mpr (mem_dropWhile_of_not hascii hspace)) hspace)
  unfold intOfText
  dsimp only
  generalize (((toAscii s).dropWhile isAsciiSpace).reverse.dropWhile isAsciiSpace).reverse = t
    at hstripped ⊢
  cases t with
  | nil => rfl
  | cons d ds =>
      have hrest (hd : d.val = 0x2D ∨ d.val = 0x2B) : natOfText ds = none := by
        refine natOfText_eq_none (c := c) ((List.mem_cons.mp hstripped).resolve_left ?_) h
        rintro rfl
        exact hd.elim hsign.1 hsign.2
      dsimp only
      split_ifs with hminus hplus
      · rw [hrest (.inl hminus)]
        rfl
      · rw [hrest (.inr hplus)]
        rfl
      · rw [natOfText_eq_none hstripped h]
        rfl

end Numbers

end Python

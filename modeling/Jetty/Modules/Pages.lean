import Jetty.Core.Pagination
import Jetty.Core.Python.Words
import Jetty.Modules.Chat.Surface
import Jetty.Modules.Issuetracker.Listing

/-!
# The pages of both services

Chat and the issue tracker cut their listings alike: the surface reads a page size and a token, the
driver makes of them a window and the offset of the next one. They differ in the largest page, and
in where a token comes from: the search of messages takes it from a body.
-/

namespace Jetty

open Python Pagination

variable {α : Type}

/-! ### From the parameters to the window -/

/-- What a listing of chat makes of its parameters. -/
def Chat.respond (repr : Chat.Repr) (rows : List α) (pageSize : Option ℤ) (pageToken : Json) :
    Chat.Outcome (List α × Text) := do
  let page ← parsePage pageSize pageToken
  drive (paginate repr rows page)

/-- What a listing of the issue tracker makes of its parameters. -/
def Issuetracker.respond (repr : Text → Text) (rows : List α) (pageSize : Option ℤ)
    (pageToken : Option Text) : Issuetracker.Outcome (List α × Text) := do
  let page ← parsePage pageSize pageToken
  drive (paginate repr rows page)

/-- The rows and the next token, which a surface leaves out where it is empty. -/
def pageOf {ε : Type} (result : Except ε (List α × Text)) : Option (List α × Option Text) :=
  match result with
  | .ok (page, next) => some (page, if next = [] then none else some next)
  | .error _ => none

private theorem pageOf_ok {ε : Type} (page : List α) (n : ℕ) (more : Prop) [Decidable more] :
    pageOf (.ok (page, if more then numeral n else []) : Except ε (List α × Text)) =
      some (page, if more then some (numeral n) else none) := by
  unfold pageOf
  by_cases hmore : more
  · simp only [if_pos hmore, if_neg (numeral_ne_nil n)]
  · simp only [if_neg hmore, if_pos]

private theorem Chat.drive_error {β : Type} (e : DriverError) :
    ∃ e', (drive (.error e) : Outcome β) = .error e' := by
  cases e <;> exact ⟨_, rfl⟩

private theorem Issuetracker.drive_error {β : Type} (e : DriverError) :
    ∃ e', (drive (.error e) : Outcome β) = .error e' := by
  cases e <;> exact ⟨_, rfl⟩

/-- The page size that is granted, where `cap` is the largest. -/
def granted (cap : ℕ) : Option ℕ → ℕ
  | none | some 0 => 25
  | some (n + 1) => min (n + 1) cap

/-! ### Tokens -/

/-- The offset that a text is read as. -/
def readToken (token : Text) : Option ℕ :=
  if token = [] then some 0
  else (intOfText token).bind fun n => if n < 0 then none else some n.toNat

/-- A token is sent. -/
def Given : Json → Prop
  | .null | .str [] => False
  | _ => True

/-- A non-negative integer, or a text that `int` reads as one. -/
def Natural : Json → Prop
  | .int n => 0 ≤ n
  | .float (.finite q) => 0 ≤ q ∧ q.den = 1
  | .str s => ∃ n : ℕ, intOfText s = some (n : ℤ)
  | _ => False

/-- A value of a body that is taken for an offset although it is none: what is false in Python
counts as no token, `int` takes a boolean, and it cuts a fraction off. -/
def Mistaken : Json → Prop
  | .bool _ | .list [] | .dict [] => True
  | .float (.finite q) => -1 < q ∧ q.den ≠ 1
  | _ => False

/-- The offsets of the pages have as many digits as `int` converts. -/
def Short (size length : ℕ) : Prop := ∀ k, k * size < length → (numeral (k * size)).length ≤ 4300

private theorem readToken_numeral (n : ℕ) :
    readToken (numeral n) = if (numeral n).length ≤ 4300 then some n else none := by
  rw [readToken, if_neg (numeral_ne_nil n), intOfText_numeral_eq]
  split_ifs
  · rw [Option.bind_some, if_neg (Int.not_lt.mpr (Int.natCast_nonneg n)), Int.toNat_natCast]
  · rfl

private theorem readable_iff_short {size length : ℕ} :
    Readable readToken numeral size 0 length ↔ Short size length := by
  constructor
  · intro h k hlt
    rcases Nat.eq_zero_or_pos k with rfl | hk
    · rw [Nat.zero_mul]
      decide +kernel
    · have hread := h k hk (by rwa [Nat.zero_add])
      rw [Nat.zero_add, readToken_numeral] at hread
      by_contra hlong
      rw [if_neg hlong] at hread
      cases hread
  · intro h k _ hlt
    rw [Nat.zero_add] at hlt ⊢
    rw [readToken_numeral, if_pos (h k hlt)]

/-- An answer that cuts a window at the offset its token stands for. -/
theorem partitions_iff_short {answer : Answer α Text} {rows : List α} {size : ℕ} (hpos : 0 < size)
    (h : ∀ token, answer token = (readToken token).map fun offset =>
      ((rows.drop offset).take size,
        if offset + size < rows.length then some (numeral (offset + size)) else none)) :
    Partitions answer [] rows size ↔ Short size rows.length := by
  have hoffsets : Offsets answer readToken numeral rows size := by
    refine ⟨h, hpos, fun n => ?_⟩
    rw [readToken_numeral]
    split_ifs
    · exact .inl rfl
    · exact .inr rfl
  exact (hoffsets.partitions_iff rfl).trans readable_iff_short

private theorem granted_pos {cap : ℕ} (hcap : 0 < cap) (pageSize : Option ℕ) :
    0 < granted cap pageSize := by
  unfold granted
  split
  · decide
  · decide
  · exact Nat.lt_min.mpr ⟨Nat.succ_pos _, hcap⟩

/-- The size that the driver gets from a surface. -/
theorem size_granted {cap default : ℕ} (hcap : 0 < cap) (pageSize : Option ℕ)
    (hdefault : default = 0 ∨ default = 25 ∧ 25 ≤ cap) :
    (if min ((pageSize.map Nat.cast).getD (default : ℤ)) (cap : ℤ) = 0 then (25 : ℤ)
      else min ((pageSize.map Nat.cast).getD (default : ℤ)) cap) = granted cap pageSize := by
  unfold granted
  rcases pageSize with _ | _ | n
  · simp only [Option.map_none, Option.getD_none]
    split_ifs <;> omega
  · simp only [Option.map_some, Option.getD_some]
    split_ifs <;> omega
  · simp only [Option.map_some, Option.getD_some]
    split_ifs <;> omega

private theorem size_nonneg (default : ℕ) (pageSize : Option ℕ) :
    ¬ (pageSize.map (Nat.cast : ℕ → ℤ)).getD default < 0 := by
  cases pageSize with
  | none => exact Int.not_lt.mpr (Int.natCast_nonneg default)
  | some n => exact Int.not_lt.mpr (Int.natCast_nonneg n)

/-- The driver takes the size that it gets. -/
theorem size_taken {n : ℕ} (hpos : 0 < n) : (if (0 : ℤ) < n then (n : ℤ).toNat else 25) = n := by
  rw [if_pos (Int.natCast_pos.mpr hpos), Int.toNat_natCast]

/-! ### The surface and the driver together -/

/-- The pages of a listing partition its rows, and a token that it answers is a non-negative
integer. An empty token counts as none. -/
def Chat.Paged (repr : Chat.Repr) (rows : List α) (pageSize : Option ℕ) (token : Json) : Prop :=
  Partitions (fun t => pageOf (respond repr rows (pageSize.map Nat.cast) (.str t))) [] rows
      (granted 1000 pageSize) ∧
    (Given token → (respond repr rows (pageSize.map Nat.cast) token).isOk = true → Natural token)

/-- The same for the issue tracker, where all tokens come from URLs. -/
def Issuetracker.Paged (repr : Text → Text) (rows : List α) (pageSize : Option ℕ) (token : Text) :
    Prop :=
  Partitions (fun t => pageOf (respond repr rows (pageSize.map Nat.cast) (some t))) [] rows
      (granted 500 pageSize) ∧
    (Given (.str token) → (respond repr rows (pageSize.map Nat.cast) (some token)).isOk = true →
      Natural (.str token))

private theorem natural_of_readToken {token : Text} {n : ℕ} (hgiven : token ≠ [])
    (h : readToken token = some n) : Natural (.str token) := by
  rw [readToken, if_neg hgiven] at h
  obtain ⟨m, hm, hread⟩ := Option.bind_eq_some_iff.mp h
  split at hread
  · cases hread
  · rename_i hneg
    refine ⟨m.toNat, ?_⟩
    rw [hm, Int.toNat_of_nonneg (Int.not_lt.mp hneg)]

private theorem Chat.respond_eq (repr : Chat.Repr) (rows : List α) (pageSize : Option ℕ)
    (token : Json) : respond repr rows (pageSize.map Nat.cast) token =
      drive ((pageOffset repr (if token.truthy then token else .str [])).map fun offset =>
        ((rows.drop offset).take (granted 1000 pageSize),
          if offset + granted 1000 pageSize < rows.length then
            numeral (offset + granted 1000 pageSize) else [])) := by
  have hpage : parsePage (pageSize.map Nat.cast) token =
      .ok ⟨granted 1000 pageSize, if token.truthy then token else .str []⟩ := by
    rw [← size_granted (by decide) pageSize (.inl rfl)]
    exact if_neg (size_nonneg 0 pageSize)
  rw [respond, hpage]
  dsimp only [bind, Except.bind]
  rw [paginate, size_taken (granted_pos (by decide) pageSize)]

private theorem Issuetracker.respond_eq (repr : Text → Text) (rows : List α) (pageSize : Option ℕ)
    (token : Text) :
    respond repr rows (pageSize.map Nat.cast) (some token) =
      drive ((pageOffset repr token).map fun offset =>
        ((rows.drop offset).take (granted 500 pageSize),
          if offset + granted 500 pageSize < rows.length then
            numeral (offset + granted 500 pageSize) else [])) := by
  have hpage : parsePage (pageSize.map Nat.cast) (some token) =
      .ok ⟨granted 500 pageSize, token⟩ := by
    rw [← size_granted (by decide) pageSize (.inr ⟨rfl, by decide⟩)]
    exact if_neg (size_nonneg 25 pageSize)
  rw [respond, hpage]
  dsimp only [bind, Except.bind]
  rw [paginate, size_taken (granted_pos (by decide) pageSize)]

private theorem Chat.pageOffset_text (repr : Chat.Repr) (token : Text) :
    (∃ n, readToken token = some n ∧ pageOffset repr (.str token) = .ok n) ∨
      readToken token = none ∧ ∃ e, pageOffset repr (.str token) = .error e := by
  unfold pageOffset readToken Json.asInt Json.toInt
  cases token with
  | nil => exact .inl ⟨0, rfl, rfl⟩
  | cons c cs =>
      have htruthy : (Json.str (c :: cs)).truthy = true := rfl
      dsimp only
      rw [if_pos htruthy, if_neg (List.cons_ne_nil c cs)]
      cases intOfText (c :: cs) with
      | none => exact .inr ⟨rfl, _, rfl⟩
      | some n =>
          dsimp only [Option.bind_some]
          by_cases hneg : n < 0
          · rw [if_pos hneg, if_pos hneg]
            exact .inr ⟨rfl, _, rfl⟩
          · rw [if_neg hneg, if_neg hneg]
            exact .inl ⟨_, rfl, rfl⟩

private theorem Issuetracker.pageOffset_text (repr : Text → Text) (token : Text) :
    (∃ n, readToken token = some n ∧ pageOffset repr token = .ok n) ∨
      readToken token = none ∧ ∃ e, pageOffset repr token = .error e := by
  unfold pageOffset readToken
  by_cases hempty : token = []
  · rw [if_pos hempty, if_pos hempty]
    exact .inl ⟨0, rfl, rfl⟩
  · rw [if_neg hempty, if_neg hempty]
    cases intOfText token with
    | none => exact .inr ⟨rfl, _, rfl⟩
    | some n =>
        dsimp only [Option.bind_some]
        by_cases hneg : n < 0
        · rw [if_pos hneg, if_pos hneg]
          exact .inr ⟨rfl, _, rfl⟩
        · rw [if_neg hneg, if_neg hneg]
          exact .inl ⟨_, rfl, rfl⟩

/-- The window at the offset that a token stands for, as it is answered. -/
theorem pageOf_window {δ ε : Type} {drive : Except δ (List α × Text) → Except ε (List α × Text)}
    (hok : ∀ r, drive (.ok r) = .ok r) (herror : ∀ e, ∃ e', drive (.error e) = .error e')
    {token : Text} {offset : Except δ ℕ}
    (h : (∃ n, readToken token = some n ∧ offset = .ok n) ∨
      readToken token = none ∧ ∃ e, offset = .error e) (rows : List α) (size : ℕ) :
    pageOf (drive (offset.map fun offset => ((rows.drop offset).take size,
      if offset + size < rows.length then numeral (offset + size) else []))) =
      (readToken token).map fun offset => ((rows.drop offset).take size,
        if offset + size < rows.length then some (numeral (offset + size)) else none) := by
  rcases h with ⟨n, hread, rfl⟩ | ⟨hread, e, rfl⟩
  · rw [hread, Except.map, hok]
    exact pageOf_ok _ _ _
  · obtain ⟨e', hdrive⟩ := herror e
    rw [hread, Except.map, hdrive]
    rfl

private theorem Chat.partitions_iff (repr : Chat.Repr) (rows : List α) (pageSize : Option ℕ) :
    Partitions (fun t => pageOf (respond repr rows (pageSize.map Nat.cast) (.str t))) [] rows
      (granted 1000 pageSize) ↔ Short (granted 1000 pageSize) rows.length := by
  have hpos := granted_pos (by decide : 0 < 1000) pageSize
  refine partitions_iff_short hpos fun token => ?_
  have hsame : (if (Json.str token).truthy then Json.str token else .str []) = .str token := by
    cases token <;> rfl
  rw [respond_eq, hsame]
  exact pageOf_window (fun _ => rfl) drive_error (pageOffset_text repr token) rows _

private theorem Issuetracker.partitions_iff (repr : Text → Text) (rows : List α)
    (pageSize : Option ℕ) :
    Partitions (fun t => pageOf (respond repr rows (pageSize.map Nat.cast) (some t))) [] rows
      (granted 500 pageSize) ↔ Short (granted 500 pageSize) rows.length := by
  refine partitions_iff_short (granted_pos (by decide) pageSize) fun token => ?_
  rw [respond_eq]
  exact pageOf_window (fun _ => rfl) drive_error (pageOffset_text repr token) rows _

/-! ### Tokens that are no numbers -/

private theorem Chat.isOk_respond (repr : Chat.Repr) (rows : List α) (pageSize : Option ℕ)
    (token : Json) : (respond repr rows (pageSize.map Nat.cast) token).isOk =
      (pageOffset repr (if token.truthy then token else .str [])).isOk := by
  rw [respond_eq]
  cases pageOffset repr (if token.truthy then token else .str []) with
  | ok n => rfl
  | error e => cases e <;> rfl

private theorem Issuetracker.isOk_respond (repr : Text → Text) (rows : List α) (pageSize : Option ℕ)
    (token : Text) : (respond repr rows (pageSize.map Nat.cast) (some token)).isOk =
      (pageOffset repr token).isOk := by
  rw [respond_eq]
  cases pageOffset repr token with
  | ok n => rfl
  | error e => cases e <;> rfl

/-- `int` of a fraction above -1 is not negative. -/
theorem tdiv_neg_iff (q : ℚ) : q.num.tdiv q.den < 0 ↔ q ≤ -1 := by
  have hden : (0 : ℤ) < q.den := Int.natCast_pos.mpr q.den_pos
  have hle : q ≤ -1 ↔ q.num ≤ -q.den := by
    rw [Rat.le_iff]
    simp
  rw [hle]
  constructor
  · intro hneg
    by_contra hlarge
    have hzero : q.num.tdiv q.den = 0 ∨ 0 ≤ q.num := by
      rcases lt_or_ge q.num 0 with hnum | hnum
      · left
        have hsmall : (-q.num).tdiv q.den = 0 := Int.tdiv_eq_zero_of_lt (by omega) (by omega)
        rwa [Int.neg_tdiv, Int.neg_eq_zero] at hsmall
      · exact .inr hnum
    rcases hzero with hzero | hnum
    · omega
    · have hpos := Int.tdiv_nonneg hnum hden.le
      omega
  · intro hnum
    have hpos : 1 ≤ (-q.num).tdiv q.den := by
      rw [Int.tdiv_eq_ediv_of_nonneg (by omega)]
      exact Int.le_ediv_of_mul_le hden (by omega)
    rw [Int.neg_tdiv] at hpos
    omega

private theorem Chat.isOk_pageOffset_float (repr : Chat.Repr) {q : ℚ} (hq : q ≠ 0) :
    (pageOffset repr (.float (.finite q))).isOk = true ↔ -1 < q := by
  have htruthy : (Json.float (.finite q)).truthy = true := by
    simpa [Json.truthy] using hq
  rw [← not_le, ← tdiv_neg_iff]
  unfold pageOffset Json.asInt Json.toInt
  dsimp only
  rw [if_pos htruthy]
  by_cases hneg : q.num.tdiv q.den < 0
  · rw [if_pos hneg]
    exact iff_of_false nofun (not_not.mpr hneg)
  · rw [if_neg hneg]
    exact iff_of_true rfl hneg

private theorem Chat.natural_iff (repr : Chat.Repr) (token : Json) :
    (Given token → (pageOffset repr (if token.truthy then token else .str [])).isOk = true →
      Natural token) ↔ ¬ Mistaken token := by
  cases token with
  | null => exact iff_of_true nofun id
  | bool b => cases b <;> exact iff_of_false (fun h => h trivial rfl) (not_not.mpr trivial)
  | int n =>
      refine iff_of_true (fun _ hok => ?_) id
      change 0 ≤ n
      by_contra hneg
      have htruthy : (Json.int n).truthy = true := decide_eq_true (by omega)
      rw [if_pos htruthy] at hok
      unfold pageOffset Json.asInt Json.toInt at hok
      dsimp only at hok
      rw [if_pos htruthy, if_pos (Int.not_le.mp hneg)] at hok
      cases hok
  | float x =>
      cases x with
      | finite q =>
          by_cases hq : q = 0
          · subst hq
            exact iff_of_true (fun _ _ => ⟨le_refl _, rfl⟩) fun h => h.2 rfl
          · have htruthy : (Json.float (.finite q)).truthy = true := by
              simpa [Json.truthy] using hq
            rw [if_pos htruthy, isOk_pageOffset_float repr hq]
            constructor
            · rintro h ⟨hlow, hden⟩
              exact hden (h trivial hlow).2
            · intro h _ hlow
              have hden : q.den = 1 := by
                by_contra hden
                exact h ⟨hlow, hden⟩
              refine ⟨?_, hden⟩
              have hnum : (q.num : ℚ) = q := (Rat.den_eq_one_iff q).mp hden
              rw [← hnum] at hlow ⊢
              have hint : -1 < q.num := by exact_mod_cast hlow
              exact_mod_cast (by omega : 0 ≤ q.num)
      | inf => exact iff_of_true nofun id
      | negInf => exact iff_of_true nofun id
      | nan => exact iff_of_true nofun id
  | str s =>
      refine iff_of_true (fun hgiven hok => ?_) id
      have hne : s ≠ [] := by
        rintro rfl
        exact hgiven
      have htruthy : (Json.str s).truthy = true := by
        simpa [Json.truthy] using hne
      rw [if_pos htruthy] at hok
      rcases pageOffset_text repr s with ⟨n, hread, -⟩ | ⟨-, e, hoffset⟩
      · exact natural_of_readToken hne hread
      · rw [hoffset] at hok
        cases hok
  | list xs =>
      cases xs with
      | nil => exact iff_of_false (fun h => h trivial rfl) (not_not.mpr trivial)
      | cons x xs => exact iff_of_true nofun id
  | dict entries =>
      cases entries with
      | nil => exact iff_of_false (fun h => h trivial rfl) (not_not.mpr trivial)
      | cons entry entries => exact iff_of_true nofun id

/-- A text is no mistake. -/
theorem Issuetracker.natural (repr : Text → Text) (token : Text) (hgiven : Given (.str token))
    (hok : (pageOffset repr token).isOk = true) : Natural (.str token) := by
  have hne : token ≠ [] := by
    rintro rfl
    exact hgiven
  rcases pageOffset_text repr token with ⟨n, hread, -⟩ | ⟨-, e, hoffset⟩
  · exact natural_of_readToken hne hread
  · rw [hoffset] at hok
    cases hok

/-- Whatever the rows and the page size, the pages of both services partition the rows, and what is
not a non-negative integer is rejected as a token, as long as the offsets are short enough to be
read and the token is not a value of a body that is mistaken for an offset. -/
theorem paged_iff (repr : Chat.Repr) (repr' : Text → Text) (rows : List α) (pageSize : Option ℕ)
    (token : Json) (word : Text) :
    Chat.Paged repr rows pageSize token ∧ Issuetracker.Paged repr' rows pageSize word ↔
      Short (granted 1000 pageSize) rows.length ∧ Short (granted 500 pageSize) rows.length ∧
        ¬ Mistaken token := by
  unfold Chat.Paged Issuetracker.Paged
  rw [Chat.partitions_iff, Issuetracker.partitions_iff, Chat.isOk_respond, Chat.natural_iff,
    Issuetracker.isOk_respond, and_iff_left (Issuetracker.natural repr' word)]
  tauto

/-- A search of messages goes on at row 2 if it gets 2.5 as a token. -/
theorem not_paged_fraction : ¬ ∀ (repr : Chat.Repr) (repr' : Text → Text) (rows : List ℕ)
    (pageSize : Option ℕ) (token : Json) (word : Text),
    Chat.Paged repr rows pageSize token ∧ Issuetracker.Paged repr' rows pageSize word := by
  intro h
  obtain ⟨⟨-, hnatural⟩, -⟩ := h ⟨fun _ => [], fun _ => rfl⟩ id [0, 1, 2] none
    (.float (.finite (5 / 2))) []
  have hok : (Chat.respond ⟨fun _ => [], fun _ => rfl⟩ [0, 1, 2] ((none : Option ℕ).map Nat.cast)
      (.float (.finite (5 / 2)))).isOk = true := by decide +kernel
  obtain ⟨-, hden⟩ := hnatural trivial hok
  revert hden
  decide +kernel

end Jetty

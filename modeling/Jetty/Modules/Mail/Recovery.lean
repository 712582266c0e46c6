import Jetty.Core.Python.Values
import Jetty.Modules.Mail.Dedup

/-!
# What the driver recovers

The keys of the spool driver after it has been built over a directory of any files. It should come
up over whatever it finds, with the keys and ids of the spool rows among the files and no others.
-/

namespace Jetty.Mail

open Python

/-! ### The intended keys -/

/-- The object has a text under either name. -/
def Keyed (row : List (Text × Json)) (key messageId : Text) : Prop :=
  Json.get? row (text "idempotencyKey") = some (.str key) ∧
    Json.get? row (text "messageId") = some (.str messageId)

/-- What counts as a well-formed row with a key and an id, which are texts whatever else is asked
for. -/
structure RowFormat where
  IsRow : List (Text × Json) → Text → Text → Prop
  keyed : ∀ row key messageId, IsRow row key messageId → Keyed row key messageId

namespace RowFormat

/-- An object with the entries of a row that `send` writes for some message. -/
def sent : RowFormat where
  IsRow row key messageId := ∃ msg now, msg.idempotencyKey = key ∧ ∃ entries,
    spoolRow msg messageId now = .dict entries ∧ ∀ name, Json.get? row name = Json.get? entries name
  keyed row key messageId := by
    rintro ⟨msg, now, rfl, entries, hspool, hsame⟩
    have hentry := rowEntry_spoolRow [] msg messageId now
    rw [rowEntry, if_pos (isRowName_rowName []), hspool] at hentry
    dsimp only at hentry
    unfold Keyed
    rw [hsame, hsame]
    cases hid : Json.get? entries (text "messageId") with
    | none =>
        rw [hid] at hentry
        cases hentry
    | some m =>
        cases hkey : Json.get? entries (text "idempotencyKey") with
        | none =>
            rw [hid, hkey] at hentry
            cases hentry
        | some k =>
            rw [hid, hkey] at hentry
            cases hentry
            exact ⟨rfl, rfl⟩

variable (format : RowFormat)

/-- The file is a spool row with this key and this id. -/
def Row (file : Text × Content) (key messageId : Text) : Prop :=
  isRowName file.1 = true ∧ ∃ row, file.2 = .json (.dict row) ∧ format.IsRow row key messageId

variable {format}

private theorem Row.entry {file : Text × Content} {key messageId : Text}
    (h : format.Row file key messageId) : rowEntry file = some (.str key, .str messageId) := by
  obtain ⟨hname, row, hcontent, hrow⟩ := h
  obtain ⟨hkey, hid⟩ := format.keyed _ _ _ hrow
  rw [rowEntry, if_pos hname, hcontent]
  dsimp only
  rw [hid, hkey]

end RowFormat

/-- The dictionary has the value under the key: it was assigned last. -/
def Seen.Maps (seen : Seen) (key value : Json) : Prop :=
  ∃ newer older, seen = newer ++ (key, value) :: older ∧ ∀ e ∈ newer, e.1.same key = false

/-- The driver comes up, and its keys are exactly those of the spool rows. -/
def Recovers (format : RowFormat) (files : Spool) : Prop :=
  ∃ seen, recover files = .ok seen ∧ ∀ key value, seen.Maps key value ↔
    ∃ file ∈ files, ∃ k messageId, format.Row file k messageId ∧ key = .str k ∧
      value = .str messageId

/-- Every row file that is JSON is an object and not too deep, every key is a text, the last value
under a key is the id of a spool row, and the spool rows of a key have one id. -/
structure Recoverable (format : RowFormat) (files : Spool) : Prop where
  objects : ∀ file ∈ files, isRowName file.1 = true →
    file.2 ≠ .nested ∧ ∀ value, file.2 = .json value → ∃ row, value = .dict row
  texts : ∀ file ∈ files, ∀ key value, rowEntry file = some (key, value) → ∃ k, key = .str k
  last : ∀ front file back k value, files = front ++ file :: back →
    rowEntry file = some (.str k, value) →
      (∀ later ∈ back, ∀ v, rowEntry later ≠ some (.str k, v)) →
        ∃ messageId, value = .str messageId ∧ ∃ row ∈ files, format.Row row k messageId
  agree : ∀ file ∈ files, ∀ file' ∈ files, ∀ k m m', format.Row file k m →
    format.Row file' k m' → m = m'

/-! ### The keys that are recovered -/

private theorem same_str_iff {v : Json} {k : Text} : v.same (.str k) = true ↔ v = .str k := by
  cases v <;> simp [Json.same, Json.number?]

private theorem str_same_iff {v : Json} {k : Text} : (Json.str k).same v = true ↔ v = .str k := by
  cases v <;> simp [Json.same, Json.number?, eq_comm]

/-- The file does not stop the driver. -/
def Readable (file : Text × Content) : Prop :=
  (isRowName file.1 = true → file.2 ≠ .nested ∧
    ∀ value, file.2 = .json value → ∃ row, value = .dict row) ∧
  ∀ key value, rowEntry file = some (key, value) → hashable key = true

private theorem recoverFile_isOk_iff {seen : Seen} {file : Text × Content} :
    (∃ seen', recoverFile seen file.1 file.2 = .ok seen') ↔ Readable file := by
  obtain ⟨name, content⟩ := file
  unfold recoverFile Readable rowEntry
  by_cases hname : isRowName name = true
  · simp only [hname, if_true, forall_const]
    cases content with
    | unreadable => simp
    | garbage => simp
    | nested => simp
    | json value =>
        cases value with
        | dict row =>
            dsimp only
            cases Json.get? row (text "messageId") with
            | none => simp
            | some m =>
                cases Json.get? row (text "idempotencyKey") with
                | none => simp
                | some key => by_cases hkey : hashable key = true <;> simp [hkey]
        | _ => simp
  · simp [hname]

private theorem recover_isOk_iff {files : Spool} :
    (∃ seen, recover files = .ok seen) ↔ ∀ file ∈ files, Readable file := by
  suffices hfrom : ∀ seen, (∃ seen', recoverFrom seen files = .ok seen') ↔
      ∀ file ∈ files, Readable file from hfrom []
  induction files with
  | nil => exact fun seen => ⟨fun _ => List.forall_mem_nil _, fun _ => ⟨seen, rfl⟩⟩
  | cons file files ih =>
      intro seen
      obtain ⟨name, content⟩ := file
      rw [List.forall_mem_cons, recoverFrom, ← @recoverFile_isOk_iff seen]
      cases hfile : recoverFile seen name content with
      | error e => simp
      | ok seen' => simp [ih seen']

private theorem maps_iff {files : Spool} {seen : Seen} (h : recover files = .ok seen)
    {key value : Json} : seen.Maps key value ↔ ∃ front file back, files = front ++ file :: back ∧
      rowEntry file = some (key, value) ∧
        ∀ later ∈ back, ∀ k v, rowEntry later = some (k, v) → k.same key = false := by
  have hseen : seen = (files.filterMap rowEntry).reverse := by
    rw [recoverFrom_of_ok h, List.append_nil]
  unfold Seen.Maps
  constructor
  · rintro ⟨newer, older, heq, hnewer⟩
    have hentries : files.filterMap rowEntry = older.reverse ++ (key, value) :: newer.reverse := by
      rw [← List.reverse_reverse (files.filterMap rowEntry), ← hseen, heq]
      simp
    obtain ⟨front, rest, rfl, -, hrest⟩ := List.filterMap_eq_append_iff.mp hentries
    obtain ⟨mid, file, back, rfl, -, hfile, hback⟩ := List.filterMap_eq_cons_iff.mp hrest
    refine ⟨front ++ mid, file, back, by simp, hfile, fun later hlater k v hentry => ?_⟩
    refine hnewer (k, v) (List.mem_reverse.mp ?_)
    rw [← hback]
    exact List.mem_filterMap.mpr ⟨later, hlater, hentry⟩
  · rintro ⟨front, file, back, rfl, hfile, hback⟩
    refine ⟨(back.filterMap rowEntry).reverse, (front.filterMap rowEntry).reverse, ?_, ?_⟩
    · rw [hseen]
      simp [hfile]
    · intro e he
      obtain ⟨later, hlater, hentry⟩ := List.mem_filterMap.mp (List.mem_reverse.mp he)
      exact hback later hlater e.1 e.2 hentry

/-- Under a text one value is found. -/
theorem Seen.Maps.unique {seen : Seen} {k : Text} {v w : Json} (hv : seen.Maps (.str k) v)
    (hw : seen.Maps (.str k) w) : v = w := by
  obtain ⟨newer, older, rfl, hnewer⟩ := hv
  obtain ⟨newer', older', heq, hnewer'⟩ := hw
  have hself : (Json.str k).same (.str k) = true := same_str_iff.mpr rfl
  rcases List.append_eq_append_iff.mp heq with ⟨mid, hmid, hrest⟩ | ⟨mid, hmid, hrest⟩
  · cases mid with
    | nil => exact (Prod.mk.inj (List.cons.inj hrest).1).2
    | cons e mid =>
        obtain rfl : (.str k, v) = e := (List.cons.inj hrest).1
        have hfalse := hnewer' _ (hmid ▸ List.mem_append_right _ List.mem_cons_self)
        rw [hself] at hfalse
        cases hfalse
  · cases mid with
    | nil => exact (Prod.mk.inj (List.cons.inj hrest).1).2.symm
    | cons e mid =>
        obtain rfl : (.str k, w) = e := (List.cons.inj hrest).1
        have hfalse := hnewer _ (hmid ▸ List.mem_append_right _ List.mem_cons_self)
        rw [hself] at hfalse
        cases hfalse

/-- The last element with a property. -/
theorem exists_last {α : Type*} {p : α → Prop} {l : List α} (h : ∃ x ∈ l, p x) :
    ∃ front x back, l = front ++ x :: back ∧ p x ∧ ∀ y ∈ back, ¬ p y := by
  induction l with
  | nil =>
      obtain ⟨x, hx, -⟩ := h
      cases hx
  | cons x l ih =>
      by_cases hlater : ∃ y ∈ l, p y
      · obtain ⟨front, y, back, rfl, hy, hback⟩ := ih hlater
        exact ⟨x :: front, y, back, rfl, hy, hback⟩
      · obtain ⟨y, hmem, hy⟩ := h
        rcases List.mem_cons.mp hmem with rfl | hmem
        · exact ⟨[], y, l, rfl, hy, fun z hz hpz => hlater ⟨z, hz, hpz⟩⟩
        · exact absurd ⟨y, hmem, hy⟩ hlater

/-! ### When it recovers the intended keys -/

variable {format : RowFormat} {files : Spool}

private theorem Recoverable.recovers (h : Recoverable format files) : Recovers format files := by
  have hreadable : ∀ file ∈ files, Readable file := by
    intro file hfile
    refine ⟨h.objects file hfile, fun key value hentry => ?_⟩
    obtain ⟨k, rfl⟩ := h.texts file hfile key value hentry
    rfl
  obtain ⟨seen, hseen⟩ := recover_isOk_iff.mpr hreadable
  have hlast {front back : Spool} {file : Text × Content} {k : Text} {value : Json}
      (hfiles : files = front ++ file :: back) (hentry : rowEntry file = some (.str k, value))
      (hback : ∀ later ∈ back, ∀ v, rowEntry later ≠ some (.str k, v)) :
      seen.Maps (.str k) value := by
    refine (maps_iff hseen).mpr ⟨front, file, back, hfiles, hentry, fun later hlater k' v hk' => ?_⟩
    rw [Bool.eq_false_iff, ne_eq, same_str_iff]
    rintro rfl
    exact hback later hlater v hk'
  refine ⟨seen, hseen, fun key value => ⟨fun hmaps => ?_, ?_⟩⟩
  · obtain ⟨front, file, back, hfiles, hentry, hback⟩ := (maps_iff hseen).mp hmaps
    have hmem : file ∈ files := hfiles ▸ List.mem_append_right _ List.mem_cons_self
    obtain ⟨k, rfl⟩ := h.texts file hmem key value hentry
    have hnone : ∀ later ∈ back, ∀ v, rowEntry later ≠ some (.str k, v) := by
      intro later hlater v hv
      have hfalse := hback later hlater _ _ hv
      rw [same_str_iff.mpr rfl] at hfalse
      cases hfalse
    obtain ⟨m, rfl, row, hrow, hformat⟩ := h.last _ _ _ _ _ hfiles hentry hnone
    exact ⟨row, hrow, k, m, hformat, rfl, rfl⟩
  · rintro ⟨file, hfile, k, m, hrow, rfl, rfl⟩
    obtain ⟨front, last, back, hfiles, ⟨v, hentry⟩, hback⟩ :=
      exists_last (p := fun file => ∃ v, rowEntry file = some (.str k, v))
        ⟨file, hfile, _, hrow.entry⟩
    have hnone : ∀ later ∈ back, ∀ v, rowEntry later ≠ some (.str k, v) :=
      fun later hlater v hv => hback later hlater ⟨v, hv⟩
    obtain ⟨m', rfl, row, hrow', hformat⟩ := h.last _ _ _ _ _ hfiles hentry hnone
    obtain rfl := h.agree file hfile row hrow' k m m' hrow hformat
    exact hlast hfiles hentry hnone

private theorem Recovers.recoverable (h : Recovers format files) : Recoverable format files := by
  obtain ⟨seen, hseen, hmaps⟩ := h
  have hreadable := recover_isOk_iff.mp ⟨seen, hseen⟩
  -- The last key that is no text would be found, since a text is not equal to it.
  have htexts : ∀ file ∈ files, ∀ key value, rowEntry file = some (key, value) →
      ∃ k, key = .str k := by
    by_contra! hother
    obtain ⟨front, file, back, hfiles, ⟨key, value, hentry, hkey⟩, hback⟩ :=
      exists_last (p := fun file => ∃ key value, rowEntry file = some (key, value) ∧
        ∀ k, key ≠ .str k) hother
    have hfound : seen.Maps key value := by
      refine (maps_iff hseen).mpr ⟨front, file, back, hfiles, hentry, ?_⟩
      intro later hlater k' v hk'
      have htext : ∃ k, k' = .str k := by
        by_contra! hne
        exact hback later hlater ⟨k', v, hk', hne⟩
      obtain ⟨k, rfl⟩ := htext
      rw [Bool.eq_false_iff, ne_eq, str_same_iff]
      exact hkey k
    obtain ⟨row, -, k, m, -, hk, -⟩ := (hmaps key value).mp hfound
    exact hkey k hk
  refine ⟨fun file hfile => (hreadable file hfile).1, htexts,
    fun front file back k value hfiles hentry hback => ?_,
    fun file hfile file' hfile' k m m' hrow hrow' => ?_⟩
  · have hfound : seen.Maps (.str k) value := by
      refine (maps_iff hseen).mpr ⟨front, file, back, hfiles, hentry, ?_⟩
      intro later hlater k' v hk'
      rw [Bool.eq_false_iff, ne_eq, same_str_iff]
      rintro rfl
      exact hback later hlater v hk'
    obtain ⟨row, hrow, k', m, hformat, hk, rfl⟩ := (hmaps _ _).mp hfound
    obtain rfl := Json.str.inj hk
    exact ⟨m, rfl, row, hrow, hformat⟩
  · have hm := (hmaps (.str k) (.str m)).mpr ⟨file, hfile, k, m, hrow, rfl, rfl⟩
    have hm' := (hmaps (.str k) (.str m')).mpr ⟨file', hfile', k, m', hrow', rfl, rfl⟩
    exact Json.str.inj (hm.unique hm')

/-- Over any directory: the driver comes up with exactly the keys of the spool rows if and only if
the directory is recoverable. -/
theorem recovers_iff (format : RowFormat) (files : Spool) :
    Recovers format files ↔ Recoverable format files :=
  ⟨Recovers.recoverable, Recoverable.recovers⟩

/-- A file that holds an empty array keeps the driver from coming up. -/
theorem not_recovers_array : ¬ ∀ files, Recovers .sent files := by
  intro h
  obtain ⟨seen, hseen, -⟩ := h [(text "a.json", .json (.list []))]
  have hread := recover_isOk_iff.mp ⟨seen, hseen⟩ _ List.mem_cons_self
  have hname : isRowName (text "a.json") = true := by decide
  obtain ⟨row, hrow⟩ := (hread.1 hname).2 _ rfl
  cases hrow

end Jetty.Mail

import Jetty.Core.Failure
import Jetty.Orchestrator.Containment.Procfs

/-!
# Enumerating the process table

A stat file is parsed right whatever the name in it, provided that the name is UTF-8. Where it is
not, reading it raises, and so does every walk over a table with such a process.
-/

namespace Jetty.Orchestrator.Procfs

open Python

/-- A field of a stat file: graphic characters, and neither a space nor a parenthesis. -/
def Graphic (field : Text) : Prop := field ≠ [] ∧ ∀ c ∈ field, 0x2D ≤ c.val ∧ c.val ≤ 0x7A

private theorem graphic_numeral (n : ℕ) : Graphic (numeral n) := by
  refine ⟨numeral_ne_nil n, fun c hc => ?_⟩
  have hdigit := digit_of_mem_numeral hc
  omega

private theorem graphic_signed (n : ℤ) : Graphic (signed n) := by
  cases n with
  | ofNat n => exact graphic_numeral n
  | negSucc n =>
      exact ⟨List.cons_ne_nil _ _, List.forall_mem_cons.mpr ⟨by decide, (graphic_numeral _).2⟩⟩

private theorem graphic_letter (state : ProcState) : Graphic [Fin.ofNat _ state.letter.toNat] := by
  refine ⟨List.cons_ne_nil _ _, List.forall_mem_singleton.mpr ?_⟩
  cases state <;> decide

private theorem graphic_fields (e : Entry) : ∀ field ∈ e.fields, Graphic field := by
  have hmap (l : List ℤ) : ∀ field ∈ l.map signed, Graphic field :=
    List.forall_mem_map.mpr fun n _ => graphic_signed n
  simp only [Entry.fields, List.forall_mem_cons, List.forall_mem_append]
  exact ⟨graphic_letter _, graphic_numeral _, graphic_numeral _, graphic_numeral _, hmap _,
    graphic_numeral _, hmap _⟩

private theorem isSpace_graphic {field : Text} (h : Graphic field) {c : CodePoint}
    (hc : c ∈ field) : Text.isSpace c = false := by
  obtain ⟨hlow, hhigh⟩ := h.2 c hc
  simp only [Text.isSpace, List.mem_cons, List.not_mem_nil, or_false, Bool.or_eq_false_iff,
    Bool.and_eq_false_iff, decide_eq_false_iff_not]
  omega

/-- The fields are read back from behind the parenthesis. -/
theorem words_tail (e : Entry) : Text.words e.tail = e.fields := by
  have hspace : Text.isSpace 0x20 = true := by decide
  have hnewline : Text.isSpace Text.newline = true := by decide
  have hwords (fields : List Text) (h : ∀ field ∈ fields, Graphic field) :
      ∃ c s, (fields.flatMap fun field => 0x20 :: field) ++ [Text.newline] = c :: s ∧
        Text.isSpace c = true ∧ Text.words s = fields := by
    induction fields with
    | nil => exact ⟨Text.newline, [], rfl, hnewline, rfl⟩
    | cons field fields ih =>
        obtain ⟨hfield, hfields⟩ := List.forall_mem_cons.mp h
        obtain ⟨c, s, heq, hc, hs⟩ := ih hfields
        refine ⟨0x20, field ++ c :: s, ?_, hspace, ?_⟩
        · rw [List.flatMap_cons, List.append_assoc, heq, List.cons_append]
        · rw [Text.words_append_space hfield.1 (fun d hd => isSpace_graphic hfield hd) hc, hs]
  obtain ⟨c, s, heq, hc, hs⟩ := hwords e.fields (graphic_fields e)
  rw [Entry.tail, heq, Text.words_cons_space hc, hs]

private theorem mem_tail {e : Entry} {c : CodePoint} (h : c ∈ e.tail) :
    c = 0x20 ∨ c = Text.newline ∨ 0x2D ≤ c.val ∧ c.val ≤ 0x7A := by
  rw [Entry.tail, List.mem_append, List.mem_singleton, List.mem_flatMap] at h
  obtain ⟨field, hfield, hc⟩ | hc := h
  · obtain rfl | hc := List.mem_cons.mp hc
    · exact .inl rfl
    · exact .inr (.inr ((graphic_fields e field hfield).2 c hc))
  · exact .inr (.inl hc)

private theorem closing_not_mem_tail (e : Entry) : closing ∉ e.tail := fun h => by
  obtain h | h | h := mem_tail h
  · exact absurd h (by decide)
  · exact absurd h (by decide)
  · exact absurd h.1 (by decide)

private theorem carriageReturn_not_mem_tail (e : Entry) :
    Text.carriageReturn ∉ e.tail := fun h => by
  obtain h | h | h := mem_tail h
  · exact absurd h (by decide)
  · exact absurd h (by decide)
  · exact absurd h.1 (by decide)

private theorem ascii_tail (e : Entry) : ∀ c ∈ closing :: e.tail, c.val < 0x80 := by
  refine List.forall_mem_cons.mpr ⟨by decide, fun c hc => ?_⟩
  obtain rfl | rfl | h := mem_tail hc
  · decide
  · decide
  · omega

private theorem ascii_front (e : Entry) : ∀ c ∈ e.front, c.val < 0x80 := by
  intro c hc
  obtain hc | hc := List.mem_append.mp hc
  · have hdigit := digit_of_mem_numeral hc
    omega
  · obtain rfl | rfl : c = 0x20 ∨ c = 0x28 := by simpa using hc
    · decide
    · decide

/-- What is read from a stat file: the text up to the last parenthesis, whatever the name, and
the fields behind it. -/
theorem readText_stat (e : Entry) :
    Text.readText e.stat = (Text.decode e.commBytes).map fun comm =>
      Text.universalNewlines (e.front ++ comm) ++ closing :: e.tail := by
  rw [Text.readText, Entry.stat, Text.decode_between (ascii_front e) (ascii_tail e),
    Option.map_map]
  congr 1
  funext comm
  rw [Function.comp_apply, Text.universalNewlines_append_cons _ _ (by decide) (by decide),
    Text.universalNewlines_of_not_mem (carriageReturn_not_mem_tail e)]

variable {F : Files} {e : Entry} {pid : ℕ}

private theorem statFields_of_decodes (hstat : F.stat pid = some e.stat) (h : e.Decodes) :
    statFields F pid = .ok (some e.fields) := by
  obtain ⟨comm, hcomm⟩ := Option.isSome_iff_exists.mp h
  rw [statFields, hstat]
  dsimp only
  rw [readText_stat, hcomm, Option.map_some]
  dsimp only
  rw [if_pos (List.mem_append_right _ (.head _)), Text.afterLast_append _ (closing_not_mem_tail e),
    words_tail]

private theorem statFields_of_not_decodes (hstat : F.stat pid = some e.stat) (h : ¬ e.Decodes) :
    statFields F pid = .error .unicode := by
  have hnone : Text.decode e.commBytes = none := Option.not_isSome_iff_eq_none.mp h
  rw [statFields, hstat]
  dsimp only
  rw [readText_stat, hnone, Option.map_none]

private theorem statFields_of_gone (hstat : F.stat pid = none) : statFields F pid = .ok none := by
  rw [statFields, hstat]

private theorem alive_of_decodes (hstat : F.stat pid = some e.stat) (h : e.Decodes) :
    alive F pid = .ok (decide (e.state ≠ .zombie)) := by
  have hstate : ([Fin.ofNat _ e.state.letter.toNat] != ([Fin.ofNat _ 'Z'.toNat] : Text)) =
      decide (e.state ≠ .zombie) := by
    cases e.state <;> decide
  rw [alive, statFields_of_decodes hstat h]
  exact congrArg Except.ok hstate

/-- The numbers of the kernel are short enough for `int`. -/
theorem length_toString_le_limit {n : ℕ} (h : n < 2 ^ 64) : (toString n).toList.length ≤ 4300 :=
  (length_toString_le (k := 20) (by decide) (h.trans (by norm_num))).trans (by decide)

private theorem numberAt_of_decodes {i n : ℕ} (hstat : F.stat pid = some e.stat) (h : e.Decodes)
    (hfield : e.fields[i]? = some (numeral n)) (hn : n < 2 ^ 64) :
    numberAt i F pid = .ok (some (n : ℤ)) := by
  rw [numberAt, statFields_of_decodes hstat h]
  simp only [bind, Except.bind]
  cases hfields : e.fields with
  | nil =>
      rw [hfields] at hfield
      cases hfield
  | cons field fields =>
      rw [hfields] at hfield
      simp only [hfield, intOfText_numeral (length_numeral n ▸ length_toString_le_limit hn)]
      rfl

private theorem sessionId_of_decodes (hstat : F.stat pid = some e.stat) (h : e.Decodes) :
    sessionId F pid = .ok (some (e.session.val : ℤ)) :=
  numberAt_of_decodes hstat h rfl (e.session.isLt.trans (by decide))

private theorem startTicks_of_decodes (hstat : F.stat pid = some e.stat) (h : e.Decodes) :
    startTicks F pid = .ok (some (e.starttime.val : ℤ)) := by
  refine numberAt_of_decodes hstat h ?_ e.starttime.isLt
  have hindex : (e.counters.map signed).length = 15 := by
    rw [List.length_map, e.counters_length]
  simp [Entry.fields, hindex]

namespace Listing

variable {L : Listing}

/-- The pids of the readable processes in one of the sessions. -/
def members (L : Listing) (sids : List ℤ) : List ℕ :=
  (L.readable.filter fun e => decide ((e.session.val : ℤ) ∈ sids)).map fun e => e.pid.val

/-- The calls of a sweep that reaches all the readable processes of the session. -/
def swept (L : Listing) (sid : Option ℕ) (signal : Signal) : List Call :=
  match sid with
  | none | some 0 => []
  | some sid => .killpg sid signal :: (L.members [(sid : ℤ)]).map fun pid => .kill pid signal

/-- The process can be read and is no zombie. -/
def lives (L : Listing) (pid : ℕ) : Bool :=
  L.readable.any fun e => decide (e.pid.val = pid) && decide (e.state ≠ .zombie)

/-- The start time of the process, if it can be read. -/
def started (L : Listing) (pid : ℕ) : Option ℤ :=
  (L.readable.find? fun e => decide (e.pid.val = pid)).map fun e => (e.starttime.val : ℤ)

private theorem mem_readable {e : Entry} :
    e ∈ L.readable ↔ e ∈ L.entries ∧ L.gone e.pid = false := by
  rw [readable, List.mem_filter, Bool.not_eq_true']

private theorem find_entry (he : e ∈ L.entries) :
    L.entries.find? (fun e' => decide (e'.pid.val = e.pid.val)) = some e := by
  cases hfind : L.entries.find? fun e' => decide (e'.pid.val = e.pid.val) with
  | none => exact absurd (decide_eq_true rfl) (List.find?_eq_none.mp hfind e he)
  | some e' =>
      have hpid := List.find?_some (p := fun e' : Entry => decide (e'.pid.val = e.pid.val)) hfind
      have hmem := List.mem_of_find?_eq_some hfind
      exact congrArg some (List.inj_on_of_nodup_map L.nodup hmem he (of_decide_eq_true hpid))

private theorem stat_of_readable (he : e ∈ L.readable) : L.files.stat e.pid = some e.stat := by
  obtain ⟨hentry, hgone⟩ := mem_readable.mp he
  simp only [files, hgone, Bool.false_eq_true, if_false, find_entry hentry, Option.map_some]

private theorem stat_of_not_readable (h : ∀ e ∈ L.readable, e.pid.val ≠ pid) :
    L.files.stat pid = none := by
  simp only [files]
  split
  next => rfl
  next hgone =>
    rw [Option.map_eq_none_iff, List.find?_eq_none]
    intro e he hpid
    obtain rfl := of_decide_eq_true hpid
    exact h e (mem_readable.mpr ⟨he, Bool.eq_false_iff.mpr hgone⟩) rfl

/-- The names of digits are the pids. -/
theorem allPids_files (L : Listing) :
    allPids L.files = .ok (L.entries.map fun e => e.pid.val) := by
  change ((L.listed.map Listed.name).filter fun name => isDigit name.toList).mapM _ = _
  rw [entries]
  induction L.listed with
  | nil => rfl
  | cons head listed ih =>
      cases head with
      | other name h =>
          have hname : isDigit (Listed.other name h).name.toList = false := h
          rw [List.map_cons, List.filter_cons_of_neg (p := fun name : String => isDigit name.toList)
            (Bool.eq_false_iff.mp hname)]
          exact ih
      | process e =>
          have hname : isDigit (Listed.process e).name.toList = true :=
            (numeral_toString e.pid.val).isDigit
          have hint : toInt (Listed.process e).name.toList = some e.pid.val :=
            toInt_toString (length_toString_le_limit (e.pid.isLt.trans (by decide)))
          rw [List.map_cons, List.filter_cons_of_pos (p := fun name : String => isDigit name.toList)
            hname, List.mapM_cons, hint, ih]
          rfl

end Listing

/-- A walk over processes that all vanish or decode. -/
theorem membersAmong_of_decodes {L : Listing} {sids : List ℤ} (es : List Entry)
    (hes : ∀ e ∈ es, e ∈ L.entries) (h : ∀ e ∈ es, L.gone e.pid = false → e.Decodes) :
    membersAmong L.files sids (es.map fun e => e.pid.val) =
      .ok ((es.filter fun e => !L.gone e.pid && decide ((e.session.val : ℤ) ∈ sids)).map
        fun e => e.pid.val) := by
  induction es with
  | nil => rfl
  | cons e es ih =>
      obtain ⟨he, hes⟩ := List.forall_mem_cons.mp hes
      obtain ⟨hdecodes, h⟩ := List.forall_mem_cons.mp h
      rw [List.map_cons, membersAmong, ih hes h]
      cases hgone : L.gone e.pid with
      | true =>
          have hstat : L.files.stat e.pid = none := by simp only [Listing.files, hgone, if_true]
          have hsid : sessionId L.files e.pid = .ok none := by
            rw [sessionId, numberAt, statFields_of_gone hstat]
            rfl
          rw [hsid, List.filter_cons_of_neg (by simp [hgone])]
          rfl
      | false =>
          have hreadable := Listing.mem_readable.mpr ⟨he, hgone⟩
          rw [sessionId_of_decodes (Listing.stat_of_readable hreadable) (hdecodes hgone)]
          by_cases hsession : (e.session.val : ℤ) ∈ sids
          · rw [List.filter_cons_of_pos (by simp [hgone, hsession])]
            simp [hsession, bind, Except.bind, pure, Except.pure]
          · rw [List.filter_cons_of_neg (by simp [hsession])]
            simp [hsession, bind, Except.bind, pure, Except.pure]

/-- A walk over a process that does not decode raises, there or before. -/
theorem membersAmong_of_not_decodes {L : Listing} {sids : List ℤ} (hread : e ∈ L.readable)
    (hnot : ¬ e.Decodes) {pids : List ℕ} (hpid : e.pid.val ∈ pids) (members : List ℕ) :
    membersAmong L.files sids pids ≠ .ok members := by
  induction pids generalizing members with
  | nil => cases hpid
  | cons pid pids ih =>
      intro hok
      rw [membersAmong] at hok
      obtain ⟨sid, hsid, hok⟩ := Failure.bind_eq_ok.mp hok
      obtain ⟨rest, hrest, -⟩ := Failure.bind_eq_ok.mp hok
      obtain rfl | hpid := List.mem_cons.mp hpid
      · rw [sessionId, numberAt,
          statFields_of_not_decodes (Listing.stat_of_readable hread) hnot] at hsid
        cases hsid
      · exact ih hpid rest hrest

namespace Listing

variable {L : Listing}

private theorem sessionMembers_iff (L : Listing) (sids : List ℤ) :
    sessionMembers L.files sids = .ok (L.members sids) ↔
      sids = [] ∨ ∀ e ∈ L.readable, e.Decodes := by
  cases sids with
  | nil =>
      refine iff_of_true ?_ (.inl rfl)
      rw [members, List.filter_eq_nil_iff.mpr fun e _ => by simp]
      rfl
  | cons sid sids =>
      have hwalk : sessionMembers L.files (sid :: sids) =
          membersAmong L.files (sid :: sids) (L.entries.map fun e => e.pid.val) := by
        rw [sessionMembers, allPids_files]
        rfl
      rw [hwalk]
      constructor
      · refine fun hok => .inr fun e he => by_contra fun hnot => ?_
        have hpid := List.mem_map_of_mem (f := fun e : Entry => e.pid.val) (mem_readable.mp he).1
        exact membersAmong_of_not_decodes he hnot hpid _ hok
      · rintro (h | h)
        · cases h
        · rw [membersAmong_of_decodes L.entries (fun _ he => he)
            fun e he hgone => h e (mem_readable.mpr ⟨he, hgone⟩), members, readable,
            List.filter_filter]
          congr 3
          funext e
          exact Bool.and_comm _ _

private theorem sweep_iff (L : Listing) (sid : Option ℕ) (signal : Signal) :
    sweep L.files sid signal = (L.swept sid signal, .ok ()) ↔
      sid.getD 0 = 0 ∨ ∀ e ∈ L.readable, e.Decodes := by
  unfold sweep swept
  split
  next => exact iff_of_true rfl (.inl rfl)
  next => exact iff_of_true rfl (.inl rfl)
  next sid hsid =>
    have hmembers := L.sessionMembers_iff [(sid : ℤ)]
    rw [Option.getD_some, or_iff_right hsid]
    rw [or_iff_right (List.cons_ne_nil _ _)] at hmembers
    rw [← hmembers]
    cases hrun : sessionMembers L.files [(sid : ℤ)] with
    | error e => simp
    | ok found =>
        simp only [Prod.mk.injEq, List.cons.injEq, true_and, and_true, Except.ok.injEq]
        refine (List.map_injective_iff.mpr fun pid pid' h => ?_).eq_iff
        exact (Call.kill.inj h).1

private theorem reads_iff (L : Listing) (pid : ℕ) :
    (alive L.files pid = .ok (L.lives pid) ∧ startTicks L.files pid = .ok (L.started pid)) ↔
      ∀ e ∈ L.readable, e.pid.val = pid → e.Decodes := by
  by_cases hpid : ∃ e ∈ L.readable, e.pid.val = pid
  · obtain ⟨e, he, rfl⟩ := hpid
    have hunique {e' : Entry} (he' : e' ∈ L.readable) (h : e'.pid.val = e.pid.val) : e' = e :=
      List.inj_on_of_nodup_map L.nodup (mem_readable.mp he').1 (mem_readable.mp he).1 h
    have hlives : L.lives e.pid = decide (e.state ≠ .zombie) := by
      rw [Bool.eq_iff_iff, lives, List.any_eq_true, decide_eq_true_eq]
      constructor
      · rintro ⟨e', he', h⟩
        rw [Bool.and_eq_true, decide_eq_true_eq, decide_eq_true_eq] at h
        obtain rfl := hunique he' h.1
        exact h.2
      · intro h
        exact ⟨e, he, by simp [h]⟩
    have hstarted : L.started e.pid = some (e.starttime.val : ℤ) := by
      cases hfind : L.readable.find? fun e' => decide (e'.pid.val = e.pid.val) with
      | none => exact absurd (decide_eq_true rfl) (List.find?_eq_none.mp hfind e he)
      | some e' =>
          have hp := List.find?_some (p := fun e' : Entry => decide (e'.pid.val = e.pid.val)) hfind
          obtain rfl := hunique (List.mem_of_find?_eq_some hfind) (of_decide_eq_true hp)
          rw [started, hfind, Option.map_some]
    constructor
    · rintro ⟨halive, -⟩ e' he' h
      obtain rfl := hunique he' h
      by_contra hnot
      rw [alive, statFields_of_not_decodes (stat_of_readable he) hnot] at halive
      cases halive
    · intro h
      have hdecodes := h e he rfl
      rw [hlives, hstarted]
      exact ⟨alive_of_decodes (stat_of_readable he) hdecodes,
        startTicks_of_decodes (stat_of_readable he) hdecodes⟩
  · have hnone : ∀ e ∈ L.readable, e.pid.val ≠ pid := fun e he h => hpid ⟨e, he, h⟩
    have hfields := statFields_of_gone (stat_of_not_readable hnone)
    have hlives : L.lives pid = false := by
      rw [lives, List.any_eq_false]
      intro e he
      simp [hnone e he]
    have hstarted : L.started pid = none := by
      rw [started, Option.map_eq_none_iff, List.find?_eq_none]
      intro e he
      simp [hnone e he]
    refine iff_of_true ?_ fun e he h => absurd h (hnone e he)
    rw [alive, startTicks, numberAt, hfields, hlives, hstarted]
    exact ⟨rfl, rfl⟩

end Listing

/-- The walk over the process table is total and exact if the name of every process that it reads
is UTF-8, and only then; what is read of one process is right if its own name is. -/
theorem enumeration_exact_iff (L : Listing) :
    (∀ sids, sessionMembers L.files sids = .ok (L.members sids) ↔
      sids = [] ∨ ∀ e ∈ L.readable, e.Decodes) ∧
    (∀ sid signal, sweep L.files sid signal = (L.swept sid signal, .ok ()) ↔
      sid.getD 0 = 0 ∨ ∀ e ∈ L.readable, e.Decodes) ∧
    ∀ pid, (alive L.files pid = .ok (L.lives pid) ∧ startTicks L.files pid = .ok (L.started pid)) ↔
      ∀ e ∈ L.readable, e.pid.val = pid → e.Decodes :=
  ⟨L.sessionMembers_iff, L.sweep_iff, L.reads_iff⟩

/-- A table of one process of another session, whose name is one byte. -/
def strangerListing (byte : Fin 256) : Listing where
  listed := [.process
    { pid := 12, comm := [byte], state := .sleeping, ppid := 1, pgrp := 12, session := 12,
      counters := List.replicate 15 0, counters_length := rfl, starttime := 100, others := [] }]
  gone _ := false
  nodup := List.nodup_singleton _

/-- A stranger whose name is not UTF-8 ends the enumeration of every session, and the sweep of a
service that it does not belong to. -/
theorem stranger_ends_enumeration :
    sessionMembers (strangerListing 0xFF).files [7] = .error .unicode ∧
      (strangerListing 0xFF).members [7] = [] ∧
      sweep (strangerListing 0xFF).files (some 7) .KILL =
        ([.killpg 7 .KILL], .error .unicode) := by
  exact ⟨rfl, rfl, rfl⟩

end Jetty.Orchestrator.Procfs

import Jetty.Core.Failure
import Jetty.Modules.Chat.Runs
import Jetty.Modules.Chat.Surface
import Mathlib.Algebra.Order.Field.Basic
import Mathlib.Algebra.Order.Field.Rat

/-!
# A filter as the conjunction of its terms

The terms of a filter are folded into two bounds and a thread before they reach the driver, and a
bound of 0 or an empty thread stands for none. Against this the meaning of a filter is that every
one of its terms holds of a message. The two agree exactly where the last bound on either side is
the strictest one and not the epoch and no thread is empty, or where the last bounds exclude every
instant.
-/

namespace Jetty.Chat

open Python Failure

/-! ### The terms of a filter -/

/-- What one term of a filter asks for. -/
inductive Term
  | after (t : ℚ)
  | before (t : ℚ)
  | thread (name : Text)
deriving DecidableEq

/-- The message satisfies the term. -/
def Term.Holds (m : Message) : Term → Prop
  | .after t => t < m.createTime
  | .before t => m.createTime < t
  | .thread name => m.thread = name

instance (m : Message) : (t : Term) → Decidable (t.Holds m)
  | .after t => inferInstanceAs (Decidable (t < m.createTime))
  | .before t => inferInstanceAs (Decidable (m.createTime < t))
  | .thread name => inferInstanceAs (Decidable (m.thread = name))

/-- The lower bounds among the terms. -/
def lowers (terms : List Term) : List ℚ :=
  terms.filterMap fun | .after t => some t | _ => none

/-- The upper bounds. -/
def uppers (terms : List Term) : List ℚ :=
  terms.filterMap fun | .before t => some t | _ => none

/-- The threads. -/
def threads (terms : List Term) : List Text :=
  terms.filterMap fun | .thread name => some name | _ => none

private theorem forall_holds_iff {m : Message} {terms : List Term} :
    (∀ t ∈ terms, t.Holds m) ↔ (∀ name ∈ threads terms, m.thread = name) ∧
      (∀ a ∈ lowers terms, a < m.createTime) ∧ ∀ b ∈ uppers terms, m.createTime < b := by
  induction terms with
  | nil => simp [threads, lowers, uppers]
  | cons t terms ih =>
      rw [List.forall_mem_cons, ih]
      cases t <;> simp only [threads, lowers, uppers, List.filterMap_cons, List.forall_mem_cons,
        Term.Holds] <;> tauto

variable (lib : Library)

/-- What a piece of a filter between two `AND`s says; an empty one says nothing. -/
def termOf (piece : Text) : Option Term :=
  match matchTerm lib piece with
  | none => none
  | some (field, op, value) =>
    let instant := (lib.timestamp (replaceZulu value)).toOption
    if field = text "createTime" ∧ op.val = 0x3E then instant.map .after
    else if field = text "createTime" ∧ op.val = 0x3C then instant.map .before
    else if field = text "thread.name" ∧ op.val = 0x3D then some (.thread value)
    else none

def terms (filter : Text) : List Term := (filterTerms filter).filterMap (termOf lib)

/-! ### What the loop makes of them -/

/-- The assignment that a term comes down to. -/
def ListFilter.assign (found : ListFilter) : Term → ListFilter
  | .after t => { found with after := t }
  | .before t => { found with before := t }
  | .thread name => { found with thread := name }

/-- The term is not a second thread. -/
def ListFilter.Admits (found : ListFilter) : Term → Prop
  | .thread _ => found.thread = []
  | _ => True

/-- A piece that is accepted is empty, or it has a meaning and is assigned. -/
theorem parseTerm_eq_ok {found found' : ListFilter} {piece : Text}
    (h : parseTerm lib found piece = .ok found') :
    (piece = [] ∧ found' = found) ∨
      ∃ t, termOf lib piece = some t ∧ found.Admits t ∧ found' = found.assign t := by
  unfold parseTerm at h
  by_cases hnil : piece = []
  · rw [if_pos hnil] at h
    exact .inl ⟨hnil, (Except.ok.inj h).symm⟩
  rw [if_neg hnil] at h
  right
  unfold termOf
  cases hmatch : matchTerm lib piece with
  | none =>
      rw [hmatch] at h
      cases h
  | some groups =>
      obtain ⟨field, op, value⟩ := groups
      have htime {f : ℚ → ListFilter} (h : (parseTime lib (.str value)
          (text "filter createTime")).map f = .ok found') :
          ∃ t, (lib.timestamp (replaceZulu value)).toOption = some t ∧ f t = found' := by
        obtain ⟨t, ht, hf⟩ := map_eq_ok.mp h
        refine ⟨t, ?_, hf⟩
        unfold parseTime at ht
        dsimp only at ht
        cases hstamp : lib.timestamp (replaceZulu value) with
        | ok u =>
            rw [hstamp] at ht
            exact congrArg some (Except.ok.inj ht)
        | error e =>
            rw [hstamp] at ht
            cases e <;> cases ht
      rw [hmatch] at h
      dsimp only at h ⊢
      split_ifs at h ⊢ with hafter hbefore hthread hsecond
      · obtain ⟨t, ht, hfound⟩ := htime h
        exact ⟨.after t, by rw [ht]; rfl, trivial, hfound.symm⟩
      · obtain ⟨t, ht, hfound⟩ := htime h
        exact ⟨.before t, by rw [ht]; rfl, trivial, hfound.symm⟩
      · cases h
      · exact ⟨.thread value, rfl, not_not.mp hsecond, (Except.ok.inj h).symm⟩
      · cases h

/-- The loop has assigned the terms in their order, and no thread after one that is not empty. -/
structure Assigned (found : ListFilter) (ts : List Term) : Prop where
  after : found.after = (lowers ts).getLast?.getD 0
  before : found.before = (uppers ts).getLast?.getD 0
  thread : found.thread = (threads ts).getLast?.getD []
  single : ∀ name ∈ (threads ts).dropLast, name = []

private theorem assigned_nil : Assigned {} [] := ⟨rfl, rfl, rfl, List.forall_mem_nil _⟩

private theorem Assigned.concat {found : ListFilter} {ts : List Term} (h : Assigned found ts)
    {t : Term} (hadmits : found.Admits t) : Assigned (found.assign t) (ts ++ [t]) := by
  have hempty (name : Text) (hname : name ∈ threads ts) (hlast : found.thread = []) :
      name = [] := by
    rcases List.eq_nil_or_concat (threads ts) with hnil | ⟨front, last, hfront⟩
    · rw [hnil] at hname
      cases hname
    · have hthread := h.thread
      have hsingle := h.single
      rw [hfront, List.concat_eq_append] at hname hthread hsingle
      rw [List.getLast?_append, hlast] at hthread
      rw [List.dropLast_concat] at hsingle
      rcases List.mem_append.mp hname with hname | hname
      · exact hsingle name hname
      · rw [List.mem_singleton.mp hname]
        exact hthread.symm
  obtain ⟨hafter, hbefore, hthread, hsingle⟩ := h
  cases t with
  | after t =>
      constructor <;> simp only [ListFilter.assign, lowers, uppers, threads, List.filterMap_append,
        List.filterMap_cons, List.filterMap_nil, List.append_nil, List.getLast?_concat]
      · rfl
      · exact hbefore
      · exact hthread
      · exact hsingle
  | before t =>
      constructor <;> simp only [ListFilter.assign, lowers, uppers, threads, List.filterMap_append,
        List.filterMap_cons, List.filterMap_nil, List.append_nil, List.getLast?_concat]
      · exact hafter
      · rfl
      · exact hthread
      · exact hsingle
  | thread name =>
      constructor <;> simp only [ListFilter.assign, lowers, uppers, threads, List.filterMap_append,
        List.filterMap_cons, List.filterMap_nil, List.append_nil, List.getLast?_concat,
        List.dropLast_concat]
      · exact hafter
      · exact hbefore
      · rfl
      · exact fun name hname => hempty name hname hadmits

private theorem assigned_of_parse {filter : Text} {found : ListFilter}
    (h : parseListFilter lib filter = .ok found) : Assigned found (terms lib filter) := by
  unfold parseListFilter at h
  unfold terms
  suffices hloop : ∀ (pieces : List Text) (start : ListFilter) (ts : List Term),
      Assigned start ts → pieces.foldlM (parseTerm lib) start = .ok found →
        Assigned found (ts ++ pieces.filterMap (termOf lib)) from
    hloop (filterTerms filter) {} [] assigned_nil h
  intro pieces
  induction pieces with
  | nil =>
      intro start ts hstart h
      obtain rfl := Except.ok.inj h
      simpa using hstart
  | cons piece pieces ih =>
      intro start ts hstart h
      rw [List.foldlM_cons] at h
      obtain ⟨next, hnext, h⟩ := bind_eq_ok.mp h
      rw [List.filterMap_cons]
      rcases parseTerm_eq_ok lib hnext with ⟨rfl, rfl⟩ | ⟨t, ht, hadmits, rfl⟩
      · exact ih _ ts hstart h
      · rw [ht]
        have hrest := ih _ (ts ++ [t]) (hstart.concat hadmits) h
        rwa [List.append_assoc, List.singleton_append] at hrest

/-! ### The messages that are selected -/

/-- What the driver selects by the bounds and the thread it is given. -/
def ListFilter.Selects (found : ListFilter) (m : Message) : Prop :=
  (found.thread = [] ∨ m.thread = found.thread) ∧ (found.after = 0 ∨ found.after < m.createTime) ∧
    (found.before = 0 ∨ m.createTime < found.before)

instance (found : ListFilter) (m : Message) : Decidable (found.Selects m) :=
  inferInstanceAs (Decidable (_ ∧ _ ∧ _))

/-- The last bound of each kind is the strictest and not the epoch, and no thread is empty. -/
structure Strict (ts : List Term) : Prop where
  after : ∀ a, (lowers ts).getLast? = some a → a ≠ 0 ∧ ∀ t ∈ lowers ts, t ≤ a
  before : ∀ b, (uppers ts).getLast? = some b → b ≠ 0 ∧ ∀ t ∈ uppers ts, b ≤ t
  thread : [] ∉ threads ts

/-- No instant lies between the last bounds, which are both other than the epoch. -/
def Void (ts : List Term) : Prop :=
  ∃ a b, (lowers ts).getLast? = some a ∧ (uppers ts).getLast? = some b ∧ a ≠ 0 ∧ b ≠ 0 ∧ b ≤ a

/-- An instant that the bounds admit, and no later than a third one above the lower bound. -/
theorem exists_admitted {a b c : ℚ} (hab : a = 0 ∨ b = 0 ∨ a < b) (hac : a = 0 ∨ a < c) :
    ∃ t, (a = 0 ∨ a < t) ∧ (b = 0 ∨ t < b) ∧ t ≤ c := by
  by_cases ha : a = 0
  · refine ⟨min b c - 1, .inl ha, .inr ?_, ?_⟩
    · exact (sub_one_lt _).trans_le (min_le_left b c)
    · exact (sub_one_lt _).le.trans (min_le_right b c)
  · have hac := hac.resolve_left ha
    rcases hab.resolve_left ha with hb | hb
    · exact ⟨c, .inr hac, .inl hb, le_rfl⟩
    · obtain ⟨t, hat, ht⟩ := exists_between (lt_min hb hac)
      exact ⟨t, .inr hat, .inr (ht.trans_le (min_le_left b c)),
        (ht.trans_le (min_le_right b c)).le⟩

/-- The same with a third one below the upper bound. -/
theorem exists_admitted_above {a b c : ℚ} (hab : a = 0 ∨ b = 0 ∨ a < b) (hcb : b = 0 ∨ c < b) :
    ∃ t, (a = 0 ∨ a < t) ∧ (b = 0 ∨ t < b) ∧ c ≤ t := by
  obtain ⟨t, hb, ha, hc⟩ := exists_admitted (a := -b) (b := -a) (c := -c)
    (by rw [neg_eq_zero, neg_eq_zero, neg_lt_neg_iff]; tauto) (by rwa [neg_eq_zero, neg_lt_neg_iff])
  refine ⟨-t, ?_, ?_, le_neg_of_le_neg hc⟩
  · rw [neg_eq_zero] at ha
    exact ha.imp_right lt_neg_of_lt_neg
  · rw [neg_eq_zero] at hb
    exact hb.imp_right neg_lt.mp

section Agreement

variable {found : ListFilter} {ts : List Term}

private theorem holds_of_strict (h : Assigned found ts) (hstrict : Strict ts) (m : Message) :
    found.Selects m ↔ ∀ t ∈ ts, t.Holds m := by
  rw [forall_holds_iff]
  refine and_congr ?_ (and_congr ?_ ?_)
  · rw [h.thread]
    rcases List.eq_nil_or_concat (threads ts) with hnil | ⟨front, name, hfront⟩
    · simp [hnil]
    · have hsingle := h.single
      have hthread := hstrict.thread
      rw [hfront, List.concat_eq_append] at hsingle hthread ⊢
      rw [List.dropLast_concat] at hsingle
      have hname : name ≠ [] := by
        rintro rfl
        exact hthread (by simp)
      have hfrontNil : front = [] := by
        refine List.eq_nil_iff_forall_not_mem.mpr fun other hother => hthread ?_
        rw [← hsingle other hother]
        exact List.mem_append_left _ hother
      simp [hfrontNil, hname]
  · rw [h.after]
    cases hlast : (lowers ts).getLast? with
    | none => simp [List.getLast?_eq_none_iff.mp hlast]
    | some a =>
        obtain ⟨ha, hmax⟩ := hstrict.after a hlast
        rw [Option.getD_some, or_iff_right ha]
        exact ⟨fun hlt t ht => (hmax t ht).trans_lt hlt,
          fun hall => hall a (List.mem_of_getLast? hlast)⟩
  · rw [h.before]
    cases hlast : (uppers ts).getLast? with
    | none => simp [List.getLast?_eq_none_iff.mp hlast]
    | some b =>
        obtain ⟨hb, hmin⟩ := hstrict.before b hlast
        rw [Option.getD_some, or_iff_right hb]
        exact ⟨fun hlt t ht => hlt.trans_le (hmin t ht),
          fun hall => hall b (List.mem_of_getLast? hlast)⟩

private theorem holds_of_void (h : Assigned found ts) (hvoid : Void ts) (m : Message) :
    found.Selects m ↔ ∀ t ∈ ts, t.Holds m := by
  obtain ⟨a, b, ha, hb, ha0, hb0, hba⟩ := hvoid
  have hafter : found.after = a := by rw [h.after, ha, Option.getD_some]
  have hbefore : found.before = b := by rw [h.before, hb, Option.getD_some]
  refine iff_of_false ?_ ?_
  · rintro ⟨-, hlower, hupper⟩
    rw [hafter] at hlower
    rw [hbefore] at hupper
    exact absurd ((hlower.resolve_left ha0).trans (hupper.resolve_left hb0)) hba.not_gt
  · rw [forall_holds_iff]
    rintro ⟨-, hlower, hupper⟩
    have hlt := (hlower a (List.mem_of_getLast? ha)).trans (hupper b (List.mem_of_getLast? hb))
    exact absurd hlt hba.not_gt

/-- Where the bounds leave an instant, a message can be made that passes them and lies on the wrong
side of a bound that does not count, or in a thread other than the empty one. -/
theorem strict_of_holds (h : Assigned found ts)
    (hall : ∀ m, found.Selects m ↔ ∀ t ∈ ts, t.Holds m) (hvoid : ¬ Void ts) : Strict ts := by
  have hopen : found.after = 0 ∨ found.before = 0 ∨ found.after < found.before := by
    by_contra! hne
    obtain ⟨hafter, hbefore, hle⟩ := hne
    rw [h.after] at hafter hle
    rw [h.before] at hbefore hle
    cases ha : (lowers ts).getLast? with
    | none => exact hafter (by rw [ha]; rfl)
    | some a =>
        cases hb : (uppers ts).getLast? with
        | none => exact hbefore (by rw [hb]; rfl)
        | some b =>
            rw [ha, hb] at hle
            rw [ha] at hafter
            rw [hb] at hbefore
            exact hvoid ⟨a, b, ha, hb, hafter, hbefore, hle⟩
  let made (t : ℚ) (thread : Text) : Message :=
    { name := [], sender := [], senderType := [], thread, text := [], createTime := t }
  have hmade (t : ℚ) (ha : found.after = 0 ∨ found.after < t)
      (hb : found.before = 0 ∨ t < found.before) (thread : Text)
      (hthread : found.thread = [] ∨ thread = found.thread) :=
    forall_holds_iff.mp ((hall (made t thread)).mp ⟨hthread, ha, hb⟩)
  have hlower (c : ℚ) (hc : c ∈ lowers ts) : ¬ (found.after = 0 ∨ found.after < c) := by
    intro hac
    obtain ⟨t, ha, hb, htc⟩ := exists_admitted hopen hac
    exact absurd ((hmade t ha hb found.thread (.inr rfl)).2.1 c hc) htc.not_gt
  have hupper (c : ℚ) (hc : c ∈ uppers ts) : ¬ (found.before = 0 ∨ c < found.before) := by
    intro hcb
    obtain ⟨t, ha, hb, hct⟩ := exists_admitted_above hopen hcb
    exact absurd ((hmade t ha hb found.thread (.inr rfl)).2.2 c hc) hct.not_gt
  refine ⟨fun a ha => ?_, fun b hb => ?_, fun hnil => ?_⟩
  · have hafter : found.after = a := by rw [h.after, ha, Option.getD_some]
    have hlast := hlower a (List.mem_of_getLast? ha)
    rw [hafter] at hlower hlast
    exact ⟨fun h0 => hlast (.inl h0), fun t ht => not_lt.mp fun hlt => hlower t ht (.inr hlt)⟩
  · have hbefore : found.before = b := by rw [h.before, hb, Option.getD_some]
    have hlast := hupper b (List.mem_of_getLast? hb)
    rw [hbefore] at hupper hlast
    exact ⟨fun h0 => hlast (.inl h0), fun t ht => not_lt.mp fun hlt => hupper t ht (.inr hlt)⟩
  · obtain ⟨t, ha, hb, -⟩ := exists_admitted (c := found.after + 1) hopen (.inr (lt_add_one _))
    by_cases hthread : found.thread = []
    · exact List.cons_ne_nil 0 [] ((hmade t ha hb [0] (.inl hthread)).1 [] hnil)
    · exact hthread ((hmade t ha hb found.thread (.inr rfl)).1 [] hnil)

private theorem selects_iff (h : Assigned found ts) :
    (∀ m, found.Selects m ↔ ∀ t ∈ ts, t.Holds m) ↔ Void ts ∨ Strict ts := by
  constructor
  · intro hall
    exact or_iff_not_imp_left.mpr (strict_of_holds h hall)
  · rintro (hvoid | hstrict)
    · exact holds_of_void h hvoid
    · exact holds_of_strict h hstrict

end Agreement

/-! ### The listing -/

namespace MockChatDriver

/-- The messages of a space as they were inserted; nothing where its order names a message that is
not there. -/
def messagesOf (S : MockChatDriver) (space : Text) : Option (List Message) :=
  ((S.order.get? space).getD []).mapM S.messages.get?

/-- The rows are the messages that satisfy every term, by the time they were created. -/
structure Listing (ts : List Term) (descending : Bool) (all rows : List Message) : Prop where
  perm : rows.Perm (all.filter fun m => ∀ t ∈ ts, t.Holds m)
  sorted : rows.Pairwise fun m m' =>
    if descending then m'.createTime ≤ m.createTime else m.createTime ≤ m'.createTime

/-- For every space of every driver, `list_messages` pages through the messages that satisfy every
term. -/
def Conjunctive (found : ListFilter) (ts : List Term) : Prop :=
  ∀ (S : MockChatDriver) (repr : Repr) (space : Text) (all : List Message),
    S.messagesOf space = some all → ∀ descending, ∃ rows, Listing ts descending all rows ∧
      ∀ page, S.listMessages repr space { page, after := found.after, before := found.before
                                          thread := found.thread, descending } =
        paginate repr rows page

private theorem filter_unless {α : Type*} (p : Prop) (q : α → Prop) [Decidable p] [DecidablePred q]
    (l : List α) : (if p then l else l.filter fun x => q x) = l.filter fun x => p ∨ q x := by
  by_cases hp : p <;> simp [hp]

variable {S : MockChatDriver} {found : ListFilter} {ts : List Term}

/-- What the bounds and the thread select, in the order of the listing. -/
def selected (found : ListFilter) (descending : Bool) (all : List Message) : List Message :=
  (all.filter fun m => found.Selects m).mergeSort fun m m' =>
    if descending then m'.createTime ≤ m.createTime else m.createTime ≤ m'.createTime

private theorem selected_sorted (descending : Bool) (all : List Message) :
    (selected found descending all).Pairwise fun m m' =>
      if descending then m'.createTime ≤ m.createTime else m.createTime ≤ m'.createTime := by
  have hsorted : (selected found descending all).Pairwise fun m m' =>
      (if descending then decide (m'.createTime ≤ m.createTime)
        else decide (m.createTime ≤ m'.createTime)) = true := by
    apply List.pairwise_mergeSort
    · intro m m' m'' h h'
      cases descending
      · exact decide_eq_true (le_trans (of_decide_eq_true h) (of_decide_eq_true h'))
      · exact decide_eq_true (le_trans (of_decide_eq_true h') (of_decide_eq_true h))
    · intro m m'
      cases descending
      · simpa using le_total m.createTime m'.createTime
      · simpa using le_total m'.createTime m.createTime
  refine hsorted.imp fun h => ?_
  cases descending <;> exact of_decide_eq_true h

/-- The rows of a listing are those that the bounds and the thread select. -/
theorem listRows_eq {space : Text} {all : List Message} (hall : S.messagesOf space = some all)
    (page : Page) (descending : Bool) :
    S.listRows space { page, after := found.after, before := found.before, thread := found.thread
                       descending } =
      some (selected found descending all) := by
  have hselects : (all.filter fun m => found.Selects m) =
      (((all.filter fun m => found.thread = [] ∨ m.thread = found.thread).filter fun m =>
        found.after = 0 ∨ found.after < m.createTime).filter fun m =>
          found.before = 0 ∨ m.createTime < found.before) := by
    rw [List.filter_filter, List.filter_filter]
    refine List.filter_congr fun m _ => ?_
    rw [← Bool.decide_and, ← Bool.decide_and]
    exact decide_eq_decide.mpr (by unfold ListFilter.Selects; tauto)
  unfold listRows selected
  unfold messagesOf at hall
  rw [hall, Option.bind_eq_bind, Option.bind_some, hselects, ← filter_unless, ← filter_unless,
    ← filter_unless]
  rfl

private theorem conjunctive_of_selects (h : ∀ m, found.Selects m ↔ ∀ t ∈ ts, t.Holds m) :
    Conjunctive found ts := by
  intro S repr space all hall descending
  refine ⟨selected found descending all, ⟨?_, selected_sorted descending all⟩, fun page => ?_⟩
  · have hfilter : (all.filter fun m => found.Selects m) =
        all.filter fun m => ∀ t ∈ ts, t.Holds m :=
      List.filter_congr fun m _ => decide_eq_decide.mpr (h m)
    rw [← hfilter]
    exact List.mergeSort_perm _ _
  · unfold listMessages
    rw [listRows_eq hall page descending]

/-- A driver that holds a single message. -/
def holding (space : Text) (m : Message) : MockChatDriver :=
  { blank [] with
    messages := Dict.empty.set m.name m
    order := Dict.empty.set space [m.name] }

private theorem messagesOf_holding (space : Text) (m : Message) :
    (holding space m).messagesOf space = some [m] := by
  have horder : (holding space m).order.get? space = some [m.name] := Dict.get?_set_self
  have hmessage : (holding space m).messages.get? m.name = some m := Dict.get?_set_self
  unfold messagesOf
  rw [horder, Option.getD_some, List.mapM_cons, hmessage]
  rfl

/-- One page takes in a listing of at most 25 rows. -/
theorem paginate_first (repr : Repr) {α : Type} {rows : List α} (h : rows.length ≤ 25) :
    paginate repr rows {} = .ok (rows, []) := by
  have hoffset : pageOffset repr (.str []) = .ok 0 := rfl
  unfold paginate
  rw [hoffset]
  have hsize : ¬ 25 < rows.length := by omega
  simp [Except.map, hsize, List.take_of_length_le h]

private theorem selects_of_conjunctive (h : Conjunctive found ts) (m : Message) :
    found.Selects m ↔ ∀ t ∈ ts, t.Holds m := by
  have hall := messagesOf_holding [] m
  obtain ⟨rows, hrows, hpages⟩ := h _ asciiRepr [] [m] hall false
  have hpage := hpages {}
  unfold listMessages at hpage
  rw [listRows_eq hall {} false] at hpage
  have hlength : rows.length ≤ 25 :=
    (hrows.perm.length_eq.trans_le (List.length_filter_le _ [m])).trans (by simp)
  have hselected : (selected found false [m]).length ≤ 25 :=
    ((List.mergeSort_perm _ _).length_eq.trans_le (List.length_filter_le _ [m])).trans (by simp)
  dsimp only at hpage
  rw [paginate_first _ hlength, paginate_first _ hselected] at hpage
  have hsame : selected found false [m] = rows := congrArg Prod.fst (Except.ok.inj hpage)
  have hleft : m ∈ selected found false [m] ↔ found.Selects m := by
    simp [selected]
  have hright : m ∈ rows ↔ ∀ t ∈ ts, t.Holds m := by
    simp [hrows.perm.mem_iff]
  rw [← hleft, ← hright, hsame]

private theorem conjunctive_iff_selects :
    Conjunctive found ts ↔ ∀ m, found.Selects m ↔ ∀ t ∈ ts, t.Holds m :=
  ⟨selects_of_conjunctive, conjunctive_of_selects⟩

end MockChatDriver

open MockChatDriver

/-- A filter that is accepted lists the messages that satisfy every one of its terms exactly where
the last bounds exclude every instant, or where they are the strictest and not the epoch and no
thread is empty. -/
theorem list_filter_iff {filter : Text} {found : ListFilter}
    (h : parseListFilter lib filter = .ok found) :
    Conjunctive found (terms lib filter) ↔ Void (terms lib filter) ∨ Strict (terms lib filter) := by
  rw [conjunctive_iff_selects, selects_iff (assigned_of_parse lib h)]

/-- A library that knows three instants. -/
private def epochLibrary : Library where
  repr := asciiRepr
  lower := Text.lower
  upper := id
  isWord c := decide (0x61 ≤ c.val ∧ c.val ≤ 0x7A ∨ 0x41 ≤ c.val ∧ c.val ≤ 0x5A ∨ c.val = 0x5F)
  timestamp s :=
    if s = text "1970-01-01T00:00:00+00:00" then .ok 0
    else if s = text "2026-01-01T00:00:00+00:00" then .ok 1767225600
    else if s = text "2027-01-01T00:00:00+00:00" then .ok 1798761600
    else .error .value
  rfc3339 _ := none
  rfc3339_encodes := nofun
  queryInt _ := none

private theorem parse_of_toOption {filter : Text} {found : ListFilter}
    (h : (parseListFilter epochLibrary filter).toOption = some found) :
    parseListFilter epochLibrary filter = .ok found := by
  cases hparse : parseListFilter epochLibrary filter with
  | ok found' =>
      rw [hparse] at h
      exact congrArg _ (Option.some.inj h)
  | error e =>
      rw [hparse] at h
      cases h

/-- A year of one thread; the bounds do not stand in the order of time. -/
private def yearOfThread : Text :=
  text ("createTime < \"2027-01-01T00:00:00Z\" AND thread.name = \"spaces/a/threads/t1\" and " ++
    "createTime > \"2026-01-01T00:00:00Z\"")

/-- The messages of a thread within one year: each bound is given once. -/
theorem list_filter_iff_year :
    terms epochLibrary yearOfThread =
        [.before 1798761600, .thread (text "spaces/a/threads/t1"), .after 1767225600] ∧
      Conjunctive ⟨1767225600, 1798761600, text "spaces/a/threads/t1"⟩
        (terms epochLibrary yearOfThread) := by
  have hterms : terms epochLibrary yearOfThread =
      [.before 1798761600, .thread (text "spaces/a/threads/t1"), .after 1767225600] := by
    decide +kernel
  have hstrict : Strict (terms epochLibrary yearOfThread) := by
    have hlowers : lowers (terms epochLibrary yearOfThread) = [1767225600] := by
      rw [hterms]
      rfl
    have huppers : uppers (terms epochLibrary yearOfThread) = [1798761600] := by
      rw [hterms]
      rfl
    refine ⟨?_, ?_, by decide +kernel⟩
    · rw [hlowers]
      rintro a ha
      obtain rfl := Option.some.inj ha
      exact ⟨by norm_num, by simp⟩
    · rw [huppers]
      rintro b hb
      obtain rfl := Option.some.inj hb
      exact ⟨by norm_num, by simp⟩
  exact ⟨hterms, (list_filter_iff epochLibrary (parse_of_toOption (by decide +kernel))).mpr
    (.inr hstrict)⟩

/-- A lower bound, and another one, which is the epoch. -/
private def sinceEpoch : Text :=
  text ("createTime > \"2026-01-01T00:00:00Z\" AND " ++
    "createTime > \"1970-01-01T00:00:00Z\"")

/-- The epoch takes the place of the bound before it, and then stands for no bound at all. -/
theorem bound_overridden : ¬ ∀ (lib : Library) (filter : Text) (found : ListFilter),
    parseListFilter lib filter = .ok found → Conjunctive found (terms lib filter) := by
  intro h
  have hparse : parseListFilter epochLibrary sinceEpoch = .ok {} :=
    parse_of_toOption (by decide +kernel)
  have hterms : terms epochLibrary sinceEpoch = [.after 1767225600, .after 0] := by
    decide +kernel
  have hconjunctive := h _ _ _ hparse
  rw [hterms] at hconjunctive
  let old : Message :=
    { name := [], sender := [], senderType := [], thread := [], text := [], createTime := 1 }
  have hselected : ({} : ListFilter).Selects old := ⟨.inl rfl, .inl rfl, .inl rfl⟩
  have hlower := (selects_of_conjunctive hconjunctive old).mp hselected (.after 1767225600)
    List.mem_cons_self
  have hlt : (1767225600 : ℚ) < 1 := hlower
  norm_num at hlt

end Jetty.Chat

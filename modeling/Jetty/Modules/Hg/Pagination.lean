import Jetty.Modules.Hg.Log

/-!
# Reading the log page by page

The cursor of a page is a changeset whose own ancestors are listed next. What is an ancestor of
the start but not of a cursor is lost, so that the pages are complete exactly if the listing
runs through the cursors.
-/

namespace Jetty.Hg

open Python Listing

variable (hg : Program) (iso : ℤ × ℤ → Text) (repr : Text → Text)

/-- The changeset of a number. -/
def Repository.commitAt (repo : Repository) (r : ℕ) : Commit := (repo.commits[r]?).getD nullCommit

/-- What the API returns of a number. -/
def Program.wire (r : ℕ) : Changeset :=
  changeset iso (hg.repo.entry r (hg.repo.commitAt r))

/-- The first is listed when the second is the start. -/
def Program.Reaches : Revision → ℕ → Prop
  | .null, _ => False
  | .rev r, a => hg.repo.history.Ancestor r a

/-- The changesets that pass the filters among the ancestors of the start, newest first, each
once. -/
def Program.Complete (user path : Option Text) (start : Revision) (l : List Changeset) : Prop :=
  ∃ rs : List ℕ, rs.Pairwise (· > ·) ∧
    (∀ a, a ∈ rs ↔ hg.Reaches start a ∧ hg.shows user path a = true) ∧ l = rs.map (hg.wire iso)

/-- What follows the first changeset of a page in the whole listing is among its ancestors. -/
def Program.Unbroken (user path : Option Text) (limit : ℕ) : Revision → Prop
  | .null => True
  | .rev r => ∀ k y, 1 ≤ k →
      ((hg.repo.history.ancestors r).filter (hg.shows user path))[k * limit]? = some y →
        ∀ z, hg.repo.history.Ancestor r z → hg.shows user path z = true → z ≤ y →
          hg.repo.history.Ancestor y z

/-- The pages from a start on, put together, with `next` as the next start. -/
inductive Pages (path user : Option Text) (limit : ℕ) : Text → List Changeset → Prop
  | last {start : Text} {page : Page} : changesets hg iso repr start path user limit = .ok page →
      page.next = none → Pages path user limit start page.changesets
  | more {start cursor : Text} {page : Page} {rest : List Changeset} :
      changesets hg iso repr start path user limit = .ok page → page.next = some cursor →
      Pages path user limit cursor rest → Pages path user limit start (page.changesets ++ rest)

section Page

variable {hg iso repr}

private theorem Repository.commitAt_eq {repo : Repository} {r : ℕ} {c : Commit}
    (h : repo.commits[r]? = some c) : repo.commitAt r = c := by
  rw [commitAt, h, Option.getD_some]

private theorem commits_of_shows {user path : Option Text} {r : ℕ}
    (h : hg.shows user path r = true) : hg.repo.commits[r]? = some (hg.repo.commitAt r) := by
  unfold Program.shows at h
  split at h
  · rename_i c hc
    rw [Repository.commitAt_eq hc, hc]
  · cases h

/-- The lines of what passes the filters. -/
theorem entries_eq_map {user path : Option Text} {rs : List ℕ}
    (h : ∀ r ∈ rs, hg.shows user path r = true) :
    hg.repo.entries rs = rs.map fun r : ℕ => hg.repo.entry r (hg.repo.commitAt r) := by
  rw [Repository.entries, ← List.filterMap_eq_map]
  refine List.filterMap_congr fun r hr => ?_
  rw [commits_of_shows (h r hr)]
  rfl

private theorem node_ne_of_shows {user path : Option Text} {r : ℕ}
    (h : hg.shows user path r = true) : (hg.repo.commitAt r).node ≠ nullNode :=
  hg.repo.node_ne_null _ (List.mem_of_getElem? (commits_of_shows h))

/-- The lines that `_log_json` keeps. -/
theorem logJson_eq {start : Text} {r : ℕ} (hrev : hg.resolve start = .ok (.rev r))
    (user path : Option Text) (n : ℕ) :
    hg.logJson start user path n =
      .ok ((((hg.repo.history.cursors (hg.shows user path)).list r).take n).map
        fun a : ℕ => hg.repo.entry a (hg.repo.commitAt a)) := by
  have hshows : ∀ a ∈ ((hg.repo.history.cursors (hg.shows user path)).list r).take n,
      hg.shows user path a = true := fun a ha =>
    (List.mem_filter.mp (List.mem_of_mem_take ha)).2
  rw [Program.logJson, Program.log, hrev]
  simp only [Except.map, entries_eq_map hshows]
  rw [List.filter_eq_self.mpr]
  intro e he
  obtain ⟨a, ha, rfl⟩ := List.mem_map.mp he
  exact decide_eq_true (node_ne_of_shows (hshows a ha))

private theorem matchesRev_node {c : Commit} (h : c ∈ hg.repo.commits) :
    matchesRev c.node = true := by
  obtain ⟨hlength, hhex⟩ := hg.repo.hexNode c h
  have hchars : c.node.all isRevChar = true := by
    rw [List.all_eq_true] at hhex ⊢
    intro d hd
    have hdigit := hhex d hd
    simp only [isHexDigit, isRevChar, Bool.or_eq_true, Bool.and_eq_true, decide_eq_true_eq]
      at hdigit ⊢
    omega
  have hne : c.node.isEmpty = false := by
    cases hnode : c.node with
    | nil => rw [hnode] at hlength; cases hlength
    | cons d ds => rfl
  simp [matchesRev, isRev, hne, hlength, hchars]

/-- The cursor of a page finds its changeset. -/
theorem resolve_cursor {user path : Option Text} {r : ℕ} (h : hg.shows user path r = true) :
    matchesRev (hg.repo.commitAt r).node = true ∧
      hg.resolve (hg.repo.commitAt r).node = .ok (.rev r) :=
  ⟨matchesRev_node (List.mem_of_getElem? (commits_of_shows h)),
    hg.resolve_node r _ (commits_of_shows h)⟩

variable {user path : Option Text} {limit : ℕ}

private theorem changesets_of_checked {start : Text} (hstart : matchesRev start = true)
    (hpath : ∀ p ∈ path, isRepoPath p = true) :
    changesets hg iso repr start path user limit =
      (hg.logJson start user path (limit + 1)).map fun entries =>
        ⟨(entries.take limit).map (changeset iso), (entries[limit]?).map Entry.node⟩ := by
  rw [changesets, checkRev, if_pos hstart]
  cases path with
  | none => cases hg.logJson start user none (limit + 1) <;> rfl
  | some p =>
      simp only [checkPath, hpath p rfl, if_true]
      cases hg.logJson start user (some p) (limit + 1) <;> rfl

/-- One page, over the numbers. -/
theorem changesets_eq {start : Text} {r : ℕ} (hstart : matchesRev start = true)
    (hrev : hg.resolve start = .ok (.rev r)) (hpath : ∀ p ∈ path, isRepoPath p = true) :
    changesets hg iso repr start path user limit =
      .ok ⟨(((hg.repo.history.cursors (hg.shows user path)).list r).take limit).map (hg.wire iso),
        (((hg.repo.history.cursors (hg.shows user path)).list r)[limit]?).map
          fun a => (hg.repo.commitAt a).node⟩ := by
  rw [changesets_of_checked hstart hpath, logJson_eq hrev, Except.map]
  congr 2
  · rw [← List.map_take, List.take_take, List.map_map, Nat.min_eq_left (Nat.le_succ limit)]
    rfl
  · rw [List.getElem?_map, List.getElem?_take_of_lt (Nat.lt_succ_self limit), Option.map_map]
    rfl

variable (iso repr user limit) in
/-- The null changeset has no page. -/
theorem changesets_null {start : Text} (hstart : matchesRev start = true)
    (hrev : hg.resolve start = .ok .null) (hpath : ∀ p ∈ path, isRepoPath p = true) :
    changesets hg iso repr start path user limit = .ok ⟨[], none⟩ := by
  have hempty : hg.logJson start user path (limit + 1) = .ok [] := by
    rw [Program.logJson, Program.log, hrev]
    simp only [Except.map, Except.ok.injEq, List.filter_eq_nil_iff]
    intro e he
    obtain ⟨c, hc, rfl⟩ := List.mem_map.mp he
    obtain rfl := List.mem_singleton.mp (List.mem_of_mem_filter (List.mem_of_mem_take hc))
    simp [Repository.entry, nullCommit]
  rw [changesets_of_checked hstart hpath, hempty, Except.map]
  simp

private theorem shows_of_getElem? {r a i : ℕ}
    (h : ((hg.repo.history.cursors (hg.shows user path)).list r)[i]? = some a) :
    hg.shows user path a = true :=
  (List.mem_filter.mp (List.mem_of_getElem? h)).2

/-- The pages are those of the numbers. -/
theorem pages_iff {start : Text} {r : ℕ} (hstart : matchesRev start = true)
    (hrev : hg.resolve start = .ok (.rev r)) (hpath : ∀ p ∈ path, isRepoPath p = true)
    (l : List Changeset) :
    Pages hg iso repr path user limit start l ↔
      ∃ rs, (hg.repo.history.cursors (hg.shows user path)).Follows limit r rs ∧
        l = rs.map (hg.wire iso) := by
  constructor
  · intro h
    induction h generalizing r with
    | @last start page hpage hnext =>
        rw [changesets_eq hstart hrev hpath] at hpage
        cases hpage
        exact ⟨_, .last (Option.map_eq_none_iff.mp hnext), rfl⟩
    | @more start cursor page rest hpage hnext _ ih =>
        rw [changesets_eq hstart hrev hpath] at hpage
        cases hpage
        obtain ⟨a, ha, rfl⟩ := Option.map_eq_some_iff.mp hnext
        obtain ⟨hcursor, hresolve⟩ := resolve_cursor (shows_of_getElem? ha)
        obtain ⟨rs, hrs, rfl⟩ := ih hcursor hresolve
        exact ⟨_, .more ha hrs, (List.map_append ..).symm⟩
  · rintro ⟨rs, h, rfl⟩
    induction h generalizing start with
    | last hnone =>
        refine .last (changesets_eq hstart hrev hpath) ?_
        rw [hnone]
        rfl
    | @more x y rest hsome _ ih =>
        obtain ⟨hcursor, hresolve⟩ := resolve_cursor (shows_of_getElem? hsome)
        rw [List.map_append]
        refine .more (changesets_eq hstart hrev hpath) ?_ (ih hcursor hresolve)
        rw [hsome]
        rfl

private theorem wire_injective : Function.Injective (hg.wire iso) := by
  intro a b h
  have hrev : ((hg.wire iso a).rev) = (hg.wire iso b).rev := by rw [h]
  exact Int.ofNat.inj hrev

/-- The complete listing. -/
theorem complete_iff {r : ℕ} (l : List Changeset) :
    hg.Complete iso user path (.rev r) l ↔
      l = ((hg.repo.history.cursors (hg.shows user path)).list r).map (hg.wire iso) := by
  have hmem (a : ℕ) : a ∈ (hg.repo.history.cursors (hg.shows user path)).list r ↔
      hg.Reaches (.rev r) a ∧ hg.shows user path a = true := by
    rw [History.cursors, List.mem_filter, History.mem_ancestors]
    rfl
  constructor
  · rintro ⟨rs, hdescending, hrs, rfl⟩
    congr 1
    refine List.Perm.eq_of_pairwise' hdescending
      ((hg.repo.history.cursors (hg.shows user path)).descending r) ?_
    refine (List.perm_ext_iff_of_nodup (hdescending.imp fun h => h.ne')
      (Cursors.nodup_list r)).mpr fun a => ?_
    rw [hrs, hmem]
  · rintro rfl
    exact ⟨_, (hg.repo.history.cursors (hg.shows user path)).descending r, hmem, rfl⟩

private theorem unbroken_cursors {r : ℕ} :
    (hg.repo.history.cursors (hg.shows user path)).Unbroken limit r ↔
      hg.Unbroken user path limit (.rev r) := by
  constructor
  · intro h k y hk hy z hz hshows hle
    have hmem := h k y hk hy z (List.mem_filter.mpr ⟨History.mem_ancestors.mpr hz, hshows⟩) hle
    exact History.mem_ancestors.mp (List.mem_of_mem_filter hmem)
  · intro h k y hk hy z hz hle
    obtain ⟨hanc, hshows⟩ := List.mem_filter.mp hz
    refine List.mem_filter.mpr ⟨History.mem_ancestors.mpr ?_, hshows⟩
    exact h k y hk hy z (History.mem_ancestors.mp hanc) hshows hle

end Page

/-- The pages end, and they are complete exactly if no cursor loses an ancestor of the start. -/
theorem pages_complete_iff {start : Text} {revision : Revision} (hstart : matchesRev start = true)
    (hrev : hg.resolve start = .ok revision) {path : Option Text}
    (hpath : ∀ p ∈ path, isRepoPath p = true) (user : Option Text) {limit : ℕ}
    (hlimit : 1 ≤ limit) :
    ∃ l, Pages hg iso repr path user limit start l ∧
      (∀ l', Pages hg iso repr path user limit start l' → l' = l) ∧
      (hg.Complete iso user path revision l ↔ hg.Unbroken user path limit revision) := by
  cases revision with
  | null =>
      have hpage := changesets_null iso repr user limit hstart hrev hpath
      refine ⟨[], .last hpage rfl, fun l' hl' => ?_, iff_of_true ?_ trivial⟩
      · cases hl' with
        | last hpage' =>
            rw [hpage] at hpage'
            cases hpage'
            rfl
        | more hpage' hnext =>
            rw [hpage] at hpage'
            cases hpage'
            cases hnext
      · exact ⟨[], .nil, fun a => ⟨(fun h => nomatch h), fun h => h.1.elim⟩, rfl⟩
  | rev r =>
      obtain ⟨rs, hrs⟩ := Cursors.exists_follows
        (L := hg.repo.history.cursors (hg.shows user path)) hlimit r
      refine ⟨_, (pages_iff hstart hrev hpath _).mpr ⟨rs, hrs, rfl⟩, fun l' hl' => ?_, ?_⟩
      · obtain ⟨rs', hrs', rfl⟩ := (pages_iff hstart hrev hpath _).mp hl'
        rw [hrs'.unique hrs]
      · rw [complete_iff, List.map_inj_right fun _ _ h => wire_injective h, hrs.eq_list_iff,
          unbroken_cursors]

section Diamond

/-- The node of a small number. -/
def nodeOf (r : ℕ) : Text := List.replicate 39 0x30 ++ [Fin.ofNat _ (0x31 + r)]

def commitOf (r : ℕ) (p1 p2 : Option ℕ) : Commit :=
  { nullCommit with node := nodeOf r, p1, p2 }

/-- A root, two children of it, and their merge. -/
def diamond : Repository where
  commits := [commitOf 0 none none, commitOf 1 (some 0) none, commitOf 2 (some 0) none,
    commitOf 3 (some 2) (some 1)]
  older r c hc := by
    match r, hc with
    | 0, hc | 1, hc | 2, hc | 3, hc =>
        cases hc
        decide
  hexNode := by decide
  node_ne_null := by decide

/-- Every changeset passes the filters of this program. -/
def diamondProgram : Program where
  repo := diamond
  resolve s :=
    if s = text "tip" then .ok (.rev 3)
    else
      match diamond.commits.findIdx? fun c => c.node = s with
      | some r => .ok (.rev r)
      | none => .error ⟨.notFound, text "abort: unknown revision"⟩
  resolve_lt s r h := by
    split at h
    · cases h
      decide
    · split at h
      · rename_i i hi
        cases h
        exact (List.findIdx?_eq_some_iff_findIdx_eq.mp hi).1
      · cases h
  resolve_node r c hc := by
    match r, hc with
    | 0, hc | 1, hc | 2, hc | 3, hc =>
        cases hc
        decide
  filters _ _ _ := true

private theorem resolve_tip : diamondProgram.resolve (text "tip") = .ok (.rev 3) := rfl

/-- With three changesets a page, the merge's history is listed completely. -/
theorem pages_diamond : ∃ l, Pages diamondProgram (fun _ => []) id none none 3 (text "tip") l ∧
    diamondProgram.Complete (fun _ => []) none none (.rev 3) l := by
  obtain ⟨l, hpages, -, hiff⟩ := @pages_complete_iff diamondProgram (fun _ => []) id (text "tip")
    (.rev 3) (by decide) resolve_tip none (fun p hp => by cases hp) none 3 (by decide)
  refine ⟨l, hpages, hiff.mpr fun k y hk hy z _ _ hle => ?_⟩
  have hlength := (List.getElem?_eq_some_iff.mp hy).1
  have hfour : ((diamondProgram.repo.history.ancestors 3).filter
      (diamondProgram.shows none none)).length = 4 := by decide
  obtain rfl : k = 1 := by omega
  have hzero : ((diamondProgram.repo.history.ancestors 3).filter
      (diamondProgram.shows none none))[1 * 3]? = some 0 := by decide
  rw [hzero] at hy
  cases hy
  obtain rfl : z = 0 := Nat.le_zero.mp hle
  exact .refl

/-- With one changeset a page, a parent of the merge is lost. -/
theorem not_complete_diamond : ¬ ∀ (hg : Program) (iso : ℤ × ℤ → Text) (repr : Text → Text)
    (start : Text) (revision : Revision) (path user : Option Text) (limit : ℕ),
    matchesRev start = true → hg.resolve start = .ok revision →
    (∀ p ∈ path, isRepoPath p = true) → 1 ≤ limit →
      ∃ l, Pages hg iso repr path user limit start l ∧ hg.Complete iso user path revision l := by
  intro h
  have htip : matchesRev (text "tip") = true := by decide
  have hpath : ∀ p ∈ (none : Option Text), isRepoPath p = true := fun p hp => nomatch hp
  obtain ⟨l, hpages, hcomplete⟩ := h diamondProgram (fun _ => []) id (text "tip") (.rev 3) none none
    1 htip resolve_tip hpath le_rfl
  obtain ⟨rs, hrs, rfl⟩ := (pages_iff htip resolve_tip hpath l).mp hpages
  have hlist := List.map_injective_iff.mpr wire_injective ((complete_iff _).mp hcomplete)
  have hlost := hrs.eq_list_iff.mp hlist 1 2 le_rfl (by decide) 1 (by decide) (by decide)
  exact absurd hlost (by decide)

end Diamond

end Jetty.Hg

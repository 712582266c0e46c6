import Jetty.Orchestrator.Resolvers.Copies

/-!
# No other step breaks a copy

What the next step of a call does to the bin root, the preservation of the invariant by each
kind of step, and the runs all of whose steps are careful.
-/

namespace Jetty.Orchestrator

open Files Transition

/-- The next step relies on nothing that other calls could change. -/
def CopyPc.free : CopyPc → Bool
  | .lookForCopy | .openTmp _ | .copying .. | .copyTimes | .copyMode | .rename | .openMeta
  | .writeMeta _ | .raised .missingTmp | .raised (.unreachable (some _)) => false
  | _ => true

namespace BinRoot

variable {S T : BinRoot} {c d : CopyCall} {id : ℕ} {e : BinEvent}

/-! ### The effects of a step of a call -/

/-- The call moves on from `c` to `d` and nothing that counts changes. -/
structure Stays (S : BinRoot) (id : ℕ) (c d : CopyCall) (T : BinRoot) : Prop where
  same : SameData S T
  call : T.call = Function.update S.call id (some d)
  calls : T.calls = S.calls
  source : T.source = S.source
  file : T.file = S.file
  files : T.files = S.files
  pid : d.pid = c.pid
  path : d.source = c.source

/-- What the next step of a call can do. -/
inductive Advance (S : BinRoot) (id : ℕ) (c : CopyCall) : BinRoot → Prop
  | stays {d : CopyCall} {T : BinRoot} : Stays S id c d T →
      (S.Sound → S.Holds c → S.CarefulCall id c → S.Holds d) →
      (d.pc.hasTmp = true → c.pc.hasTmp = true) → (∀ i, d.pc ≠ .writeMeta i) → Advance S id c T
  | unlinks {name : BinName} {rest : List BinName} : c.pc = .unlinking name rest →
      Advance S id c ((S.unlink name).setCall id { c with pc := .pruning rest })
  | opensTmp {k : ℕ} : c.pc = .openTmp k →
      Advance S id c (setCall
        { S with root := S.root.openWrite (.tmp c.pid c.source) S.now } id
        { c with pc := .copying k (S.root.opened (.tmp c.pid c.source)) 0 })
  | renames : c.pc = .rename →
      Advance S id c ((S.replace c).setCall id { c with pc := .openMeta })
  | opensMeta : c.pc = .openMeta →
      Advance S id c (setCall
        { S with root := S.root.openWrite (.sidecar c.source) S.now } id
        { c with pc := .writeMeta (S.root.opened (.sidecar c.source)) })
  | writesMeta {i : ℕ} : c.pc = .writeMeta i →
      Advance S id c (setCall { S with root := S.root.write i 0 c.fingerprint S.now } id
        { c with pc := .touchDest false })

private theorem sameData_refl (S : BinRoot) : SameData S S where
  entry := rfl
  data _ := rfl
  next := rfl
  lost := rfl
  versions _ _ hv := hv
  files := le_rfl

private theorem stays_setCall (hpid : d.pid = c.pid) (hpath : d.source = c.source) :
    Stays S id c d (S.setCall id d) where
  same := { sameData_refl S with }
  call := rfl
  calls := rfl
  source := rfl
  file := rfl
  files := rfl
  pid := hpid
  path := hpath

private theorem stays_utime {name : BinName} {t : ℚ} (hpid : d.pid = c.pid)
    (hpath : d.source = c.source) :
    Stays S id c d (setCall { S with root := S.root.utime name t } id d) where
  same := { sameData_refl S with
    entry := Directory.entry_utime
    data := fun _ => Directory.data_utime
    next := Directory.next_utime }
  call := rfl
  calls := rfl
  source := rfl
  file := rfl
  files := rfl
  pid := hpid
  path := hpath

private theorem holds_of_free (h : d.pc.free = true) : S.Holds d := by
  unfold Holds
  split
  all_goals first
    | trivial
    | simp_all [CopyPc.free]

private theorem hasTmp_of_free {pc : CopyPc} (h : pc.free = true) : pc.hasTmp = false := by
  cases pc with
  | copying | copyTimes | copyMode | rename => cases h
  | _ => rfl

private theorem ne_writeMeta_of_free {pc : CopyPc} (h : pc.free = true) (i : ℕ) :
    pc ≠ .writeMeta i := by
  rintro rfl
  cases h

private theorem advance_free (hfree : d.pc.free = true) (h : Stays S id c d T) : Advance S id c T :=
  .stays h (fun _ _ _ => holds_of_free hfree) (by simp [hasTmp_of_free hfree])
    (ne_writeMeta_of_free hfree)

/-- A call whose temporary file is closed finds it. -/
private theorem entry_tmp (h : ∃ data, S.root.read (.tmp c.pid c.source) = some data ∧
    S.Taken c.source c.fingerprint data) (hnone : ¬ (S.root.entry (.tmp c.pid c.source)).isSome) :
    False := by
  obtain ⟨data, hread, -⟩ := h
  obtain ⟨i, hi, -⟩ := Directory.read_eq_some.mp hread
  exact hnone (by rw [hi]; rfl)

/-- No call misses its temporary file. -/
private theorem advance_missing
    (hpc : c.pc = .copyTimes ∨ c.pc = .copyMode ∨ c.pc = .rename)
    (hnone : ¬ (S.root.entry (.tmp c.pid c.source)).isSome) :
    Advance S id c (S.setCall id { c with pc := .raised .missingTmp }) := by
  refine .stays (stays_setCall rfl rfl) (fun _ hholds _ => ?_) (by simp [CopyPc.hasTmp]) (by simp)
  have hread : ∃ data, S.root.read (.tmp c.pid c.source) = some data ∧
      S.Taken c.source c.fingerprint data := by
    rcases hpc with hpc | hpc | hpc <;> simpa only [Holds, hpc] using hholds
  exact entry_tmp hread hnone

/-- The prune goes on to the next entry. -/
private theorem advance_pruning {rest : List BinName} (hpc : c.pc = .pruning rest)
    (h : S.advance id c = some T) : Advance S id c T := by
  cases rest with
  | nil =>
      simp only [advance, hpc, Option.some.injEq] at h
      subst h
      exact advance_free rfl (stays_setCall rfl rfl)
  | cons name rest =>
      simp only [advance, hpc] at h
      split at h
      · obtain rfl := Option.some.inj h
        exact advance_free rfl (stays_setCall rfl rfl)
      · split at h
        · obtain rfl := Option.some.inj h
          exact advance_free rfl (stays_setCall rfl rfl)
        · obtain rfl := Option.some.inj h
          exact advance_free rfl (stays_setCall rfl rfl)

/-- A call that finds its source unreachable relies on the copy; that the copy is kept is what a
careful step asks for. -/
private theorem advance_statSource (hpc : c.pc = .statSource) (h : S.advance id c = some T) :
    Advance S id c T := by
  simp only [advance, hpc] at h
  split at h
  · rename_i hnone
    obtain rfl := Option.some.inj h
    refine .stays (stays_setCall rfl rfl) (fun _ _ hp => ?_) (by simp [CopyPc.hasTmp]) (by simp)
    simp only [CarefulCall, hpc] at hp
    exact hp hnone
  · split at h
    · obtain rfl := Option.some.inj h
      exact advance_free rfl (stays_setCall rfl rfl)
    · obtain rfl := Option.some.inj h
      exact advance_free rfl (stays_setCall rfl rfl)

private theorem advance_lookForCopy (hpc : c.pc = .lookForCopy) (h : S.advance id c = some T) :
    Advance S id c T := by
  simp only [advance, hpc] at h
  split at h
  · obtain rfl := Option.some.inj h
    exact advance_free rfl (stays_setCall rfl rfl)
  · rename_i hnone
    obtain rfl := Option.some.inj h
    refine .stays (stays_setCall rfl rfl) (fun _ hholds _ => ?_) (by simp [CopyPc.hasTmp])
      (by simp)
    simp only [Holds, hpc] at hholds
    have hread : S.root.read (.dest c.source) = none := by
      rw [Directory.read_eq_none]
      simpa using hnone
    cases hlost : S.lost c.source with
    | none => trivial
    | some t => exact hholds hread t hlost

private theorem advance_lookForDest (hpc : c.pc = .lookForDest) (h : S.advance id c = some T) :
    Advance S id c T := by
  simp only [advance, hpc] at h
  split at h
  · obtain rfl := Option.some.inj h
    exact advance_free rfl (stays_setCall rfl rfl)
  · obtain rfl := Option.some.inj h
    exact advance_free rfl (stays_setCall rfl rfl)

/-- Whatever the sidecar holds, the call that reads it relies on nothing afterwards. -/
private theorem advance_readMeta (hpc : c.pc = .readMeta) (h : S.advance id c = some T) :
    Advance S id c T := by
  simp only [advance, hpc] at h
  split at h
  · obtain rfl := Option.some.inj h
    exact advance_free rfl (stays_setCall rfl rfl)
  · split at h
    · obtain rfl := Option.some.inj h
      exact advance_free rfl (stays_setCall rfl rfl)
    · split at h
      · obtain rfl := Option.some.inj h
        exact advance_free rfl (stays_setCall rfl rfl)
      · obtain rfl := Option.some.inj h
        exact advance_free rfl (stays_setCall rfl rfl)

private theorem advance_readBack (hpc : c.pc = .readBack) (h : S.advance id c = some T) :
    Advance S id c T := by
  simp only [advance, hpc] at h
  split at h
  · obtain rfl := Option.some.inj h
    exact advance_free rfl (stays_setCall rfl rfl)
  · split at h
    · obtain rfl := Option.some.inj h
      exact advance_free rfl (stays_setCall rfl rfl)
    · obtain rfl := Option.some.inj h
      exact advance_free rfl (stays_setCall rfl rfl)

/-- The version that is opened is the one whose fingerprint was taken, if the step is careful. -/
private theorem advance_openSource (hpc : c.pc = .openSource) (h : S.advance id c = some T) :
    Advance S id c T := by
  simp only [advance, hpc] at h
  split at h
  · obtain rfl := Option.some.inj h
    exact advance_free rfl (stays_setCall rfl rfl)
  · rename_i k hk
    obtain rfl := Option.some.inj h
    refine .stays (stays_setCall rfl rfl) (fun hsound _ hp => ?_) (by simp [CopyPc.hasTmp])
      (by simp)
    simp only [CarefulCall, hpc] at hp
    exact ⟨hsound.sources _ k hk, hp k hk⟩

/-- At the end of the source the temporary file holds all of it. -/
private theorem advance_copying {k i offset : ℕ} (hpc : c.pc = .copying k i offset)
    (h : S.advance id c = some T) : Advance S id c T := by
  simp only [advance, hpc, Option.ite_none_right_eq_some, Option.some.injEq] at h
  obtain ⟨hend, rfl⟩ := h
  refine .stays (stays_setCall rfl rfl) (fun _ hholds _ => ?_) (by simp [hpc, CopyPc.hasTmp])
    (by simp)
  simp only [Holds, hpc] at hholds
  obtain ⟨-, htaken, hentry, hdata⟩ := hholds
  rw [List.take_of_length_le hend] at hdata
  exact ⟨_, Directory.read_eq_some.mpr ⟨i, hentry, hdata⟩, htaken⟩

private theorem advance_copyTimes (hpc : c.pc = .copyTimes) (h : S.advance id c = some T) :
    Advance S id c T := by
  simp only [advance, hpc] at h
  split at h
  · obtain rfl := Option.some.inj h
    exact advance_free rfl (stays_setCall rfl rfl)
  · split at h
    · obtain rfl := Option.some.inj h
      refine .stays (stays_utime rfl rfl) (fun _ hholds _ => ?_) (by simp [hpc, CopyPc.hasTmp])
        (by simp)
      simp only [Holds, hpc] at hholds
      exact hholds
    · rename_i hnone
      obtain rfl := Option.some.inj h
      exact advance_missing (.inl hpc) hnone

private theorem advance_copyMode (hpc : c.pc = .copyMode) (h : S.advance id c = some T) :
    Advance S id c T := by
  simp only [advance, hpc] at h
  split at h
  · obtain rfl := Option.some.inj h
    refine .stays (stays_setCall rfl rfl) (fun _ hholds _ => ?_) (by simp [hpc, CopyPc.hasTmp])
      (by simp)
    simp only [Holds, hpc] at hholds
    exact hholds
  · rename_i hnone
    obtain rfl := Option.some.inj h
    exact advance_missing (.inr (.inl hpc)) hnone

private theorem advance_rename (hpc : c.pc = .rename) (h : S.advance id c = some T) :
    Advance S id c T := by
  simp only [advance, hpc] at h
  split at h
  · obtain rfl := Option.some.inj h
    exact .renames hpc
  · rename_i hnone
    obtain rfl := Option.some.inj h
    exact advance_missing (.inr (.inr hpc)) hnone

private theorem advance_touching {reads : Bool}
    (hpc : c.pc = .touchDest reads ∨ c.pc = .touchMeta reads) (h : S.advance id c = some T) :
    Advance S id c T := by
  rcases hpc with hpc | hpc
  · simp only [advance, hpc, Option.some.injEq] at h
    subst h
    exact advance_free rfl (stays_utime rfl rfl)
  · simp only [advance, hpc, Option.some.injEq] at h
    subst h
    exact advance_free (by cases reads <;> rfl) (stays_utime rfl rfl)

/-- Every step of a call has one of the effects. -/
theorem advance_effect (h : S.advance id c = some T) : Advance S id c T := by
  cases hpc : c.pc with
  | listing | returned | raised _ => simp only [advance, hpc, reduceCtorEq] at h
  | pruning rest => exact advance_pruning hpc h
  | unlinking name rest =>
      simp only [advance, hpc, Option.some.injEq] at h
      subst h
      exact .unlinks hpc
  | statSource => exact advance_statSource hpc h
  | lookForCopy => exact advance_lookForCopy hpc h
  | lookForDest => exact advance_lookForDest hpc h
  | readMeta => exact advance_readMeta hpc h
  | openSource => exact advance_openSource hpc h
  | openTmp k =>
      simp only [advance, hpc, Option.some.injEq] at h
      subst h
      exact .opensTmp hpc
  | copying k i offset => exact advance_copying hpc h
  | copyTimes => exact advance_copyTimes hpc h
  | copyMode => exact advance_copyMode hpc h
  | rename => exact advance_rename hpc h
  | openMeta =>
      simp only [advance, hpc, Option.some.injEq] at h
      subst h
      exact .opensMeta hpc
  | writeMeta i =>
      simp only [advance, hpc, Option.some.injEq] at h
      subst h
      exact .writesMeta hpc
  | touchDest reads => exact advance_touching (.inl hpc) h
  | touchMeta reads => exact advance_touching (.inr hpc) h
  | readBack => exact advance_readBack hpc h

/-! ### Preservation -/

/-- What a sound root knows of a call. -/
theorem Sound.holds (h : S.Sound) (hc : S.call id = some c) : S.Holds c := (h.calls id c hc).2

private theorem Sound.lt_calls (h : S.Sound) (hc : S.call id = some c) : id < S.calls :=
  (h.calls id c hc).1

/-- Two calls with a temporary file have different ones. -/
theorem Sound.tmp_ne (h : S.Sound) {id' : ℕ} (hc : S.call id = some c)
    (hd : S.call id' = some d) (hid : id' ≠ id) (htmp : c.pc.hasTmp = true)
    (htmp' : d.pc.hasTmp = true) :
    BinName.tmp d.pid d.source ≠ .tmp c.pid c.source := by
  intro heq
  obtain ⟨hpid, hsource⟩ := BinName.tmp.inj heq
  exact hid (h.apart id' id d c hd hc htmp' htmp hpid hsource)

private theorem Sound.stays (h : S.Sound) (hc : S.call id = some c) (hst : Stays S id c d T)
    (hholds : S.Holds d) (htmp : d.pc.hasTmp = true → c.pc.hasTmp = true)
    (hmeta : ∀ i, d.pc ≠ .writeMeta i) : T.Sound := by
  have hspares (c' : CopyCall) : Spares S T c' :=
    hst.same.spares fun k _ _ => by rw [hst.file]
  refine h.call_step hc hst.call hst.calls hst.source hst.files (fun _ c' _ _ => hspares c')
    (hholds.of_spares (hspares d)) (fun hd id' c' hid hc' htmp' hpid hsource => ?_)
    (fun i hpc => absurd hpc (hmeta i)) (hst.same.complete h) (hst.same.recorded h)
  refine h.tmp_ne hc hc' hid (htmp hd) htmp' ?_
  rw [hpid, hsource, hst.pid, hst.path]

private theorem lost_unlink {name : BinName} {source : String} (h : name ≠ .dest source) :
    (S.unlink name).lost source = S.lost source := by
  cases name with
  | tmp | sidecar => rfl
  | dest source' =>
      have hne : source ≠ source' := by
        rintro rfl
        exact h rfl
      cases hm : S.mtime (.dest source') with
      | none => simp only [unlink, hm]
      | some t => simp only [unlink, hm, Function.update_of_ne hne]

private theorem lost_unlink_dest {source : String} :
    (S.unlink (.dest source)).lost source = (S.mtime (.dest source)).or (S.lost source) := by
  cases hm : S.mtime (.dest source) with
  | none => simp only [unlink, hm, Option.none_or]
  | some t => simp only [unlink, hm, Function.update_self, Option.some_or]

/-- An expendable entry is removed. -/
theorem Sound.unlinks {name : BinName} {rest : List BinName} (h : S.Sound)
    (hc : S.call id = some c) (hpc : c.pc = .unlinking name rest) (hp : S.Expendable name) :
    ((S.unlink name).setCall id { c with pc := .pruning rest }).Sound := by
  refine h.call_step hc rfl rfl rfl rfl (fun id' c' hid hc' => ?_) trivial nofun
    (by simp) (fun source data hread => ?_) (fun source F hread hF => ?_)
  · have hid' := h.lt_calls hc'
    refine ⟨fun _ _ hv => hv, le_rfl, fun _ _ _ => rfl, fun htmp => ?_, fun howes hfresh => ?_,
      fun i hpc' hi hbound => ⟨hi, fun m hm => ?_, .inl rfl⟩, fun hpc' hkept hread t ht => ?_⟩
    · have hne : BinName.tmp c'.pid c'.source ≠ name := by
        rintro rfl
        exact hp id' hid' c' hc' htmp rfl rfl
      exact ⟨Directory.entry_unlink hne, fun _ _ => rfl⟩
    · have hne : BinName.dest c'.source ≠ name := by
        rintro rfl
        have hnot := (hp.2 id' hid' c' hc' rfl).1
        rw [howes] at hnot
        cases hnot
      obtain ⟨data, hread, ht⟩ := hfresh
      exact ⟨data, (Directory.read_unlink hne).trans hread, ht⟩
    · exact hbound m (Directory.entry_of_unlink hm).2
    · by_cases hname : name = .dest c'.source
      · subst hname
        change t ∈ (S.unlink (.dest c'.source)).lost c'.source at ht
        rw [lost_unlink_dest] at ht
        cases hm : S.mtime (.dest c'.source) with
        | some t' =>
            rw [hm] at ht
            obtain rfl : t' = t := by simpa using ht
            exact (hp.2 id' hid' c' hc' rfl).2 hpc' t' hm
        | none =>
            rw [hm] at ht
            have hnone : S.root.read (.dest c'.source) = none := by
              simpa [Directory.read, mtime] using hm
            exact hkept hnone t ht
      · change t ∈ (S.unlink name).lost c'.source at ht
        rw [lost_unlink hname] at ht
        exact hkept ((Directory.read_unlink (Ne.symm hname)).symm.trans hread) t ht
  · exact h.complete source data (Directory.read_of_unlink hread).2
  · obtain ⟨data, hdest, ht⟩ := h.recorded source F (Directory.read_of_unlink hread).2 hF
    have hne : BinName.dest source ≠ name := by
      rintro rfl
      exact hF (hp.1 F (Directory.read_of_unlink hread).2)
    exact ⟨data, (Directory.read_unlink hne).trans hdest, ht⟩

/-- A temporary file that no other call has is opened. -/
theorem Sound.opensTmp {k : ℕ} (h : S.Sound) (hc : S.call id = some c) (hpc : c.pc = .openTmp k)
    (hp : S.CarefulCall id c) :
    (setCall { S with root := S.root.openWrite (.tmp c.pid c.source) S.now } id
      { c with pc := .copying k (S.root.opened (.tmp c.pid c.source)) 0 }).Sound := by
  have hholds := h.holds hc
  simp only [Holds, hpc] at hholds
  simp only [CarefulCall, hpc] at hp
  have hdest (source : String) :
      (S.root.openWrite (.tmp c.pid c.source) S.now).read (.dest source)
        = S.root.read (.dest source) := Directory.read_openWrite (by simp)
  have hsidecar (source : String) :
      (S.root.openWrite (.tmp c.pid c.source) S.now).read (.sidecar source)
        = S.root.read (.sidecar source) := Directory.read_openWrite (by simp)
  refine h.call_step hc rfl rfl rfl rfl (fun id' c' hid hc' => ?_)
    ⟨hholds.1, hholds.2, Directory.entry_openWrite_self, Directory.data_openWrite_self⟩
    (fun _ id' c' hid hc' htmp hpid => hp id' (h.lt_calls hc') hid c' hc' htmp hpid) nofun
    (fun source data hread => h.complete source data ((hdest source).symm.trans hread))
    (fun source F hread hF => ?_)
  · refine ⟨fun _ _ hv => hv, le_rfl, fun _ _ _ => rfl, fun htmp => ?_, fun _ hfresh => ?_,
      fun i _ hi hbound => ⟨Directory.lt_next_openWrite hi, fun m hm => ?_, .inl ?_⟩,
      fun _ hkept hread => hkept ((hdest _).symm.trans hread)⟩
    · have hne : BinName.tmp c'.pid c'.source ≠ .tmp c.pid c.source := by
        intro heq
        obtain ⟨hpid, hsource⟩ := BinName.tmp.inj heq
        exact hp id' (h.lt_calls hc') hid c' hc' htmp hpid hsource
      refine ⟨Directory.entry_openWrite hne, fun i hi => ?_⟩
      exact congrArg Inode.data (Directory.inode_openWrite (Directory.opened_ne hi hne).symm)
    · obtain ⟨data, hread, ht⟩ := hfresh
      exact ⟨data, (hdest _).trans hread, ht⟩
    · by_cases hname : m = .tmp c.pid c.source
      · subst hname
        have heq : S.root.opened (.tmp c.pid c.source) = i := by simpa [setCall] using hm
        exact hbound _ (Directory.entry_of_opened hi heq)
      · exact hbound m ((Directory.entry_openWrite hname).symm.trans hm)
    · have hne : i ≠ S.root.opened (.tmp c.pid c.source) := by
        intro heq
        exact nomatch hbound _ (Directory.entry_of_opened hi heq.symm)
      exact congrArg Inode.data (Directory.inode_openWrite hne)
  · obtain ⟨data, hread', ht⟩ := h.recorded source F ((hsidecar source).symm.trans hread) hF
    exact ⟨data, (hdest source).trans hread', ht⟩

/-- The inode that a call copies to is that of its temporary file. -/
theorem Sound.copies {n : ℕ} (h : S.Sound) (hc : S.call id = some c)
    (hst : S.copy id c n = some T) : T.Sound := by
  have hholds := h.holds hc
  unfold copy at hst
  split at hst
  swap
  · cases hst
  rename_i k i offset hpc
  simp only [Holds, hpc] at hholds
  obtain ⟨hk, htaken, hentry, hdata⟩ := hholds
  dsimp only at hst
  split at hst
  · cases hst
  rename_i hchunk
  obtain rfl := Option.some.inj hst
  generalize hcopied : ((S.file k).content.drop offset).take n = chunk at hchunk
  have hne (name : BinName) (hname : name ≠ .tmp c.pid c.source) : S.root.entry name ≠ some i :=
    fun hi => hname (S.root.inj _ _ i hi hentry)
  have hdest (source : String) : (S.root.write i offset chunk S.now).read (.dest source)
      = S.root.read (.dest source) := Directory.read_write (hne _ (by simp))
  have hsidecar (source : String) : (S.root.write i offset chunk S.now).read (.sidecar source)
      = S.root.read (.sidecar source) := Directory.read_write (hne _ (by simp))
  have hwritten : writeAt (S.root.inode i).data offset chunk
      = (S.file k).content.take (offset + chunk.length) := by
    have hle : offset ≤ (S.file k).content.length := by
      by_contra hlt
      rw [List.drop_eq_nil_of_le (not_le.mp hlt).le, List.take_nil] at hcopied
      exact hchunk hcopied.symm
    rw [hdata, ← hcopied]
    exact writeAt_take hle n
  refine h.call_step hc rfl rfl rfl rfl (fun id' c' hid hc' => ?_)
    ⟨hk, htaken, hentry, Directory.data_write_self.trans hwritten⟩
    (fun _ id' c' hid hc' htmp hpid hsource => ?_) nofun
    (fun source data hread => h.complete source data ((hdest source).symm.trans hread))
    (fun source F hread hF => ?_)
  · refine ⟨fun _ _ hv => hv, le_rfl, fun _ _ _ => rfl, fun htmp => ⟨rfl, fun j hj => ?_⟩,
      fun _ hfresh => ?_, fun j _ hj hbound => ⟨hj, hbound, .inl ?_⟩,
      fun _ hkept hread => hkept ((hdest _).symm.trans hread)⟩
    · have hij : j ≠ i := by
        rintro rfl
        exact hne _ (h.tmp_ne hc hc' hid (by rw [hpc]; rfl) htmp) hj
      exact congrArg Inode.data (Directory.inode_write hij)
    · obtain ⟨data, hread, ht⟩ := hfresh
      exact ⟨data, (hdest _).trans hread, ht⟩
    · have hij : j ≠ i := by
        rintro rfl
        exact nomatch hbound _ hentry
      exact congrArg Inode.data (Directory.inode_write hij)
  · refine h.tmp_ne hc hc' hid (by rw [hpc]; rfl) htmp ?_
    rw [hpid, hsource]
  · obtain ⟨data, hread', ht⟩ := h.recorded source F ((hsidecar source).symm.trans hread) hF
    exact ⟨data, (hdest source).trans hread', ht⟩

/-- A complete copy is renamed over the one in place. -/
theorem Sound.renames (h : S.Sound) (hc : S.call id = some c) (hpc : c.pc = .rename)
    (hp : S.CarefulCall id c) : ((S.replace c).setCall id { c with pc := .openMeta }).Sound := by
  have hholds := h.holds hc
  simp only [Holds, hpc] at hholds
  obtain ⟨data, htmp, htaken⟩ := hholds
  simp only [CarefulCall, hpc] at hp
  obtain ⟨hnamed, howed⟩ := hp data htmp
  obtain ⟨i, hentry, -⟩ := Directory.read_eq_some.mp htmp
  have hcopy : (S.replace c).root.read (.dest c.source) = some data :=
    (Directory.read_replace_dest (by simp)).trans htmp
  have hother {source : String} (hne : source ≠ c.source) :
      (S.replace c).root.read (.dest source) = S.root.read (.dest source) :=
    Directory.read_replace (by simp) (by simpa using hne)
  have hsidecar (source : String) :
      (S.replace c).root.read (.sidecar source) = S.root.read (.sidecar source) :=
    Directory.read_replace (by simp) (by simp)
  refine h.call_step hc rfl rfl rfl rfl (fun id' c' hid hc' => ?_) ⟨data, hcopy, htaken⟩ nofun
    nofun (fun source data' hread => ?_) (fun source F hread hF => ?_)
  · refine ⟨fun _ _ hv => hv, le_rfl, fun _ _ _ => rfl, fun htmp' => ⟨?_, fun _ _ => rfl⟩,
      fun howes hfresh => ?_, fun j _ hj hbound => ⟨hj, fun m hm => ?_, .inl rfl⟩,
      fun _ hkept hread t ht => ?_⟩
    · exact Directory.entry_replace (h.tmp_ne hc hc' hid (by rw [hpc]; rfl) htmp') (by simp)
    · by_cases hsource : c'.source = c.source
      · refine ⟨data, hsource ▸ hcopy, ?_⟩
        rw [hsource]
        exact howed id' (h.lt_calls hc') hid c' hc' howes hsource
      · obtain ⟨data', hread, ht⟩ := hfresh
        exact ⟨data', (hother hsource).trans hread, ht⟩
    · rcases Directory.entry_of_replace hm with hm | hm
      · exact nomatch hbound _ hm
      · exact hbound m hm
    · by_cases hsource : c'.source = c.source
      · rw [hsource] at hread
        exact nomatch hcopy.symm.trans hread
      · refine hkept ((hother hsource).symm.trans hread) t ?_
        simpa [replace, setCall, Function.update_of_ne hsource] using ht
  · by_cases hsource : source = c.source
    · subst hsource
      obtain rfl : data = data' := Option.some.inj (hcopy.symm.trans hread)
      obtain ⟨v, hv, -, hdata⟩ := htaken
      exact ⟨v, hv, hdata⟩
    · exact h.complete source data' ((hother hsource).symm.trans hread)
  · by_cases hsource : source = c.source
    · subst hsource
      exact ⟨data, hcopy, hnamed F ((hsidecar _).symm.trans hread) hF⟩
    · obtain ⟨data', hread', ht⟩ := h.recorded source F ((hsidecar source).symm.trans hread) hF
      exact ⟨data', (hother hsource).trans hread', ht⟩

/-- The sidecar is opened, and names nothing for the moment. -/
theorem Sound.opensMeta (h : S.Sound) (hc : S.call id = some c) (hpc : c.pc = .openMeta)
    (hp : S.CarefulCall id c) :
    (setCall { S with root := S.root.openWrite (.sidecar c.source) S.now } id
      { c with pc := .writeMeta (S.root.opened (.sidecar c.source)) }).Sound := by
  have hholds := h.holds hc
  simp only [Holds, hpc] at hholds
  simp only [CarefulCall, hpc] at hp
  have hdest (source : String) :
      (S.root.openWrite (.sidecar c.source) S.now).read (.dest source)
        = S.root.read (.dest source) := Directory.read_openWrite (by simp)
  have hfresh {c' : CopyCall} (hf : S.Fresh c') :
      ∃ data, (S.root.openWrite (.sidecar c.source) S.now).read (.dest c'.source) = some data ∧
        S.Taken c'.source c'.fingerprint data := by
    obtain ⟨data, hread, ht⟩ := hf
    exact ⟨data, (hdest _).trans hread, ht⟩
  refine h.call_step hc rfl rfl rfl rfl (fun id' c' hid hc' => ?_)
    ⟨hfresh hholds, Directory.opened_lt_next, fun m hm => ?_, .inl Directory.data_openWrite_self⟩
    nofun (fun i hi id' c' hid hc' hpc' => ?_)
    (fun source data hread => h.complete source data ((hdest source).symm.trans hread))
    (fun source F hread hF => ?_)
  · refine ⟨fun _ _ hv => hv, le_rfl, fun _ _ _ => rfl,
      fun _ => ⟨Directory.entry_openWrite (by simp), fun i hi => ?_⟩, fun _ => hfresh,
      fun i _ hi hbound => ⟨Directory.lt_next_openWrite hi, fun m hm => ?_, ?_⟩,
      fun _ hkept hread => hkept ((hdest _).symm.trans hread)⟩
    · exact congrArg Inode.data
        (Directory.inode_openWrite (Directory.opened_ne hi (by simp)).symm)
    · by_cases hname : m = .sidecar c.source
      · subst hname
        have heq : S.root.opened (.sidecar c.source) = i := by simpa [setCall] using hm
        exact hbound _ (Directory.entry_of_opened hi heq)
      · exact hbound m ((Directory.entry_openWrite hname).symm.trans hm)
    · by_cases heq : i = S.root.opened (.sidecar c.source)
      · subst heq
        exact .inr (.inl Directory.data_openWrite_self)
      · exact .inl (congrArg Inode.data (Directory.inode_openWrite heq))
  · by_contra hname
    exact Directory.opened_ne ((Directory.entry_openWrite hname).symm.trans hm) hname rfl
  · obtain rfl := CopyPc.writeMeta.inj hi
    have hholds' := h.holds hc'
    simp only [Holds, hpc'] at hholds'
    exact hp id' (h.lt_calls hc') hid c' hc' _ (Directory.entry_of_opened hholds'.2.1 rfl) hpc'
  · by_cases hsource : source = c.source
    · subst hsource
      exact absurd (Option.some.inj (Directory.read_openWrite_self.symm.trans hread)).symm hF
    · have hread' := (Directory.read_openWrite (by simpa using hsource)).symm.trans hread
      obtain ⟨data, hdata, ht⟩ := h.recorded source F hread' hF
      exact ⟨data, (hdest source).trans hdata, ht⟩

/-- The sidecar is written while the copy it names is in place. -/
theorem Sound.writesMeta {i : ℕ} (h : S.Sound) (hc : S.call id = some c)
    (hpc : c.pc = .writeMeta i) :
    (setCall { S with root := S.root.write i 0 c.fingerprint S.now } id
      { c with pc := .touchDest false }).Sound := by
  have hholds := h.holds hc
  simp only [Holds, hpc] at hholds
  obtain ⟨hfresh, hi, hbound, hdata⟩ := hholds
  have hdest (source : String) : (S.root.write i 0 c.fingerprint S.now).read (.dest source)
      = S.root.read (.dest source) := Directory.read_write fun hm => nomatch hbound _ hm
  have hwritten : writeAt (S.root.inode i).data 0 c.fingerprint = c.fingerprint := by
    rcases hdata with hd | hd
    · rw [hd]
      exact writeAt_end [] c.fingerprint
    · rw [hd]
      exact writeAt_self c.fingerprint
  refine h.call_step hc rfl rfl rfl rfl (fun id' c' hid hc' => ?_) trivial nofun nofun
    (fun source data hread => h.complete source data ((hdest source).symm.trans hread))
    (fun source F hread hF => ?_)
  · refine ⟨fun _ _ hv => hv, le_rfl, fun _ _ _ => rfl, fun _ => ⟨rfl, fun j hj => ?_⟩,
      fun _ hfresh' => ?_, fun j hpc' hj hbound' => ⟨hj, hbound', ?_⟩,
      fun _ hkept hread => hkept ((hdest _).symm.trans hread)⟩
    · have hij : j ≠ i := by
        rintro rfl
        exact nomatch hbound _ hj
      exact congrArg Inode.data (Directory.inode_write hij)
    · obtain ⟨data, hread, ht⟩ := hfresh'
      exact ⟨data, (hdest _).trans hread, ht⟩
    · by_cases hij : j = i
      · subst hij
        rw [h.agree id' id c' c j hc' hc hpc' hpc]
        exact .inr (.inr (Directory.data_write_self.trans hwritten))
      · exact .inl (congrArg Inode.data (Directory.inode_write hij))
  · by_cases hentry : S.root.entry (.sidecar source) = some i
    · obtain rfl : source = c.source := BinName.sidecar.inj (hbound _ hentry)
      have hF' := Option.some.inj ((Directory.read_write_self hentry).symm.trans hread)
      obtain ⟨data, hread', ht⟩ := hfresh
      refine ⟨data, (hdest _).trans hread', ?_⟩
      rw [← hF', hwritten]
      exact ht
    · have hread' := (Directory.read_write hentry).symm.trans hread
      obtain ⟨data, hread'', ht⟩ := h.recorded source F hread' hF
      exact ⟨data, (hdest source).trans hread'', ht⟩

/-- The next step of a call keeps the root in order if it is careful. -/
theorem Sound.advance (h : S.Sound) (hc : S.call id = some c) (hp : S.CarefulCall id c)
    (hst : S.advance id c = some T) : T.Sound := by
  cases advance_effect hst with
  | stays hstays hholds htmp hmeta =>
      exact h.stays hc hstays (hholds h (h.holds hc) hp) htmp hmeta
  | unlinks hpc =>
      simp only [CarefulCall, hpc] at hp
      exact h.unlinks hc hpc hp
  | opensTmp hpc => exact h.opensTmp hc hpc hp
  | renames hpc => exact h.renames hc hpc hp
  | opensMeta hpc => exact h.opensMeta hc hpc hp
  | writesMeta hpc => exact h.writesMeta hc hpc

/-- An error of the environment takes nothing from a call. -/
theorem Sound.fault (h : S.Sound) (hc : S.call id = some c)
    (hp : c.pc = .statSource → S.Kept c) (hst : afterFault c = some d) :
    (S.setCall id d).Sound := by
  have hfree (hfree : d.pc.free = true) (hpid : d.pid = c.pid) (hpath : d.source = c.source) :
      (S.setCall id d).Sound :=
    h.stays hc (stays_setCall hpid hpath) (holds_of_free hfree) (by simp [hasTmp_of_free hfree])
      (ne_writeMeta_of_free hfree)
  cases hpc : c.pc with
  | statSource =>
      simp only [afterFault, hpc, Option.some.injEq] at hst
      subst hst
      exact h.stays hc (stays_setCall rfl rfl) (hp hpc) (by simp [CopyPc.hasTmp]) (by simp)
  | pruning rest =>
      cases rest with
      | nil => simp only [afterFault, hpc, reduceCtorEq] at hst
      | cons name rest =>
          simp only [afterFault, hpc, Option.some.injEq] at hst
          subst hst
          exact hfree rfl rfl rfl
  | touchMeta reads =>
      simp only [afterFault, hpc, Option.some.injEq] at hst
      subst hst
      exact hfree (by cases reads <;> rfl) rfl rfl
  | returned | raised _ => simp only [afterFault, hpc, reduceCtorEq] at hst
  | _ =>
      simp only [afterFault, hpc, Option.some.injEq] at hst
      subst hst
      exact hfree rfl rfl rfl

/-- A new call relies on nothing. -/
theorem Sound.begins {pid : ℕ} {source : String} {keepDays : Duration} (h : S.Sound) :
    Sound { S with
      call := Function.update S.call S.calls (some { pid, source, keepDays })
      calls := S.calls + 1 } := by
  have hold {id : ℕ} {c : CopyCall} (hc : Function.update S.call S.calls
      (some { pid, source, keepDays }) id = some c) (hpc : c.pc ≠ .listing) :
      S.call id = some c := by
    by_cases hid : id = S.calls
    · subst hid
      rw [Function.update_self, Option.some.injEq] at hc
      exact absurd (hc ▸ rfl) hpc
    · rwa [Function.update_of_ne hid] at hc
  refine ⟨h.sources, fun id c hc => ?_, fun id id' c c' hc hc' htmp htmp' => ?_,
    fun id id' c c' i hc hc' hpc hpc' => ?_, h.complete, h.recorded⟩
  · by_cases hpc : c.pc = .listing
    · refine ⟨?_, holds_of_free (by rw [hpc]; rfl)⟩
      by_cases hid : id = S.calls
      · exact hid ▸ Nat.lt_succ_self _
      · simp only [Function.update_of_ne hid] at hc
        exact (h.lt_calls hc).trans (Nat.lt_succ_self _)
    · have hc := hold hc hpc
      exact ⟨(h.lt_calls hc).trans (Nat.lt_succ_self _), h.holds hc⟩
  · have hne {c : CopyCall} (htmp : c.pc.hasTmp = true) : c.pc ≠ .listing := by
      intro hpc
      rw [hpc] at htmp
      cases htmp
    exact h.apart id id' c c' (hold hc (hne htmp)) (hold hc' (hne htmp')) htmp htmp'
  · exact h.agree id id' c c' i (hold hc (by simp [hpc])) (hold hc' (by simp [hpc'])) hpc hpc'

/-- The calls of a crashed supervisor are gone. -/
theorem Sound.crash {call : ℕ → Option CopyCall} (h : S.Sound)
    (hcall : ∀ id c, call id = some c → S.call id = some c) : Sound { S with call := call } :=
  ⟨h.sources, fun id c hc => h.calls id c (hcall id c hc),
    fun id id' c c' hc hc' => h.apart id id' c c' (hcall id c hc) (hcall id' c' hc'),
    fun id id' c c' i hc hc' => h.agree id id' c c' i (hcall id c hc) (hcall id' c' hc'),
    h.complete, h.recorded⟩

private theorem mem_versions_update {source : String} {f : SourceFile} (s : String) (v : SourceFile)
    (hv : v ∈ S.versions s) :
    v ∈ Function.update S.versions source (f :: S.versions source) s := by
  by_cases hs : s = source
  · subst hs
    rw [Function.update_self]
    exact List.mem_cons_of_mem f hv
  · rwa [Function.update_of_ne hs]

/-- A careful step keeps the root in order. -/
theorem Sound.step (h : S.Sound) (hp : S.Careful e) (hst : Steps S e T) : T.Sound := by
  have hst : BinRoot.step S e = some T := hst
  cases e with
  | clock now =>
      obtain rfl := Option.some.inj hst
      exact h.environment { sameData_refl S with } rfl rfl (fun _ _ _ _ _ _ => rfl) h.sources
  | vanish source =>
      obtain rfl := Option.some.inj hst
      refine h.environment { sameData_refl S with } rfl rfl (fun _ _ _ _ _ _ => rfl) ?_
      intro source' k hk
      by_cases hs : source' = source
      · subst hs
        simp at hk
      · simp only [Function.update_of_ne hs] at hk
        exact h.sources source' k hk
  | publish source f =>
      obtain rfl := Option.some.inj hst
      refine h.environment
        { sameData_refl S with versions := mem_versions_update, files := Nat.le_succ _ } rfl rfl
        (fun _ _ _ k hk _ => Function.update_of_ne hk.ne _ _) fun source' k hk => ?_
      by_cases hs : source' = source
      · subst hs
        obtain rfl : S.files = k := by simpa using hk
        exact Nat.lt_succ_self _
      · simp only [Function.update_of_ne hs] at hk
        exact (h.sources source' k hk).trans (Nat.lt_succ_self _)
  | overwrite source f =>
      obtain ⟨k, hk, rfl⟩ := Option.map_eq_some_iff.mp hst
      refine h.environment { sameData_refl S with versions := mem_versions_update } rfl rfl
        (fun id c hc k' _ hreads => Function.update_of_ne ?_ _ _) h.sources
      rintro rfl
      rw [hp k' hk id (h.lt_calls hc) c hc] at hreads
      cases hreads
  | begin pid source keepDays =>
      obtain rfl := Option.some.inj hst
      exact h.begins
  | listed id names =>
      obtain ⟨c, hc, hst⟩ := Option.bind_eq_some_iff.mp hst
      simp only [Option.ite_none_right_eq_some, Option.some.injEq] at hst
      obtain ⟨-, rfl⟩ := hst
      exact h.stays hc (stays_setCall rfl rfl) trivial nofun nofun
  | copied id n =>
      obtain ⟨c, hc, hst⟩ := Option.bind_eq_some_iff.mp hst
      exact h.copies hc hst
  | next id =>
      obtain ⟨c, hc, hst⟩ := Option.bind_eq_some_iff.mp hst
      exact h.advance hc (hp c hc) hst
  | fault id =>
      obtain ⟨c, hc, hst⟩ := Option.bind_eq_some_iff.mp hst
      obtain ⟨d, hd, rfl⟩ := Option.map_eq_some_iff.mp hst
      exact h.fault hc (hp c hc) hd
  | crash pid =>
      obtain rfl := Option.some.inj hst
      refine h.crash fun id c hc => ?_
      split at hc
      · rename_i c' hc'
        split at hc
        · cases hc
        · exact hc'.trans hc
      · cases hc

/-! ### The promise -/

/-- The next step of a call writes into no copy. -/
theorem Sound.replaced_advance (h : S.Sound) (hc : S.call id = some c)
    (hst : S.advance id c = some T) {source : String} {i : ℕ}
    (hi : S.root.entry (.dest source) = some i) :
    T.root.entry (.dest source) = some i ∧ (T.root.inode i).data = (S.root.inode i).data ∨
      T.root.entry (.dest source) = none ∨ c.pc = .rename ∧ c.source = source := by
  cases advance_effect hst with
  | stays hstays =>
      rw [hstays.same.entry]
      exact .inl ⟨hi, hstays.same.data i⟩
  | @unlinks name rest hpc =>
      by_cases hname : .dest source = name
      · subst hname
        exact .inr (.inl Directory.entry_unlink_self)
      · exact .inl ⟨(Directory.entry_unlink hname).trans hi, rfl⟩
  | opensTmp hpc =>
      refine .inl ⟨(Directory.entry_openWrite (by simp)).trans hi, ?_⟩
      exact congrArg Inode.data
        (Directory.inode_openWrite (Directory.opened_ne hi (by simp)).symm)
  | renames hpc =>
      by_cases hsource : c.source = source
      · exact .inr (.inr ⟨hpc, hsource⟩)
      · refine .inl ⟨(Directory.entry_replace (by simp) ?_).trans hi, rfl⟩
        simpa using Ne.symm hsource
  | opensMeta hpc =>
      refine .inl ⟨(Directory.entry_openWrite (by simp)).trans hi, ?_⟩
      exact congrArg Inode.data
        (Directory.inode_openWrite (Directory.opened_ne hi (by simp)).symm)
  | @writesMeta j hpc =>
      have hholds := h.holds hc
      simp only [Holds, hpc] at hholds
      have hij : i ≠ j := by
        rintro rfl
        exact nomatch hholds.2.2.1 _ hi
      exact .inl ⟨hi, congrArg Inode.data (Directory.inode_write hij)⟩

/-- No step writes into a copy. -/
theorem Sound.replaced (h : S.Sound) (hst : Steps S e T) {source : String} {i : ℕ}
    (hi : S.root.entry (.dest source) = some i) :
    T.root.entry (.dest source) = some i ∧ (T.root.inode i).data = (S.root.inode i).data ∨
      T.root.entry (.dest source) = none ∨
      ∃ id c, e = .next id ∧ S.call id = some c ∧ c.pc = .rename ∧ c.source = source := by
  have hst : BinRoot.step S e = some T := hst
  cases e with
  | clock | publish | vanish | begin | crash =>
      obtain rfl := Option.some.inj hst
      exact .inl ⟨hi, rfl⟩
  | overwrite =>
      obtain ⟨k, -, rfl⟩ := Option.map_eq_some_iff.mp hst
      exact .inl ⟨hi, rfl⟩
  | listed id names =>
      obtain ⟨c, -, hst⟩ := Option.bind_eq_some_iff.mp hst
      simp only [Option.ite_none_right_eq_some, Option.some.injEq] at hst
      obtain ⟨-, rfl⟩ := hst
      exact .inl ⟨hi, rfl⟩
  | copied id n =>
      obtain ⟨c, hc, hst⟩ := Option.bind_eq_some_iff.mp hst
      have hholds := h.holds hc
      unfold copy at hst
      split at hst
      · rename_i k j offset hpc
        simp only [Holds, hpc] at hholds
        dsimp only at hst
        split at hst
        · cases hst
        · obtain rfl := Option.some.inj hst
          have hij : i ≠ j := by
            rintro rfl
            exact nomatch S.root.inj _ _ i hi hholds.2.2.1
          exact .inl ⟨hi, congrArg Inode.data (Directory.inode_write hij)⟩
      · cases hst
  | next id =>
      obtain ⟨c, hc, hst⟩ := Option.bind_eq_some_iff.mp hst
      rcases h.replaced_advance hc hst hi with hsame | hgone | ⟨hpc, hsource⟩
      · exact .inl hsame
      · exact .inr (.inl hgone)
      · exact .inr (.inr ⟨id, c, rfl, hc, hpc, hsource⟩)
  | fault id =>
      obtain ⟨c, -, hst⟩ := Option.bind_eq_some_iff.mp hst
      obtain ⟨d, -, rfl⟩ := Option.map_eq_some_iff.mp hst
      exact .inl ⟨hi, rfl⟩

private theorem Sound.materialized (h : S.Sound) : S.Materialized where
  complete := h.complete
  replaced _ _ _ _ hst hi := h.replaced hst hi
  spared id c hc := by
    have hholds := h.holds hc
    constructor
    · intro hpc
      simp only [Holds, hpc] at hholds
    · intro t hpc
      simpa only [Holds, hpc] using hholds
  recorded := h.recorded

/-- In every run all of whose steps are careful, the copies are complete, are only ever
replaced by rename, and are the ones that their sidecars name, and no call fails because of
another one. -/
theorem materialized_of_run {es : List BinEvent} (h : Run (Steps.within Careful) {} es S) :
    S.Materialized :=
  (h.invariant Sound sound_init fun _ _ _ hs hst => hs.step hst.1 hst.2).materialized

/-- A call takes several steps in a row. -/
def advances (id n : ℕ) : List BinEvent := List.replicate n (.next id)

/-- Two supervisors copy the same source at the same time, and the first uses the copy again. -/
def twoSupervisors : List BinEvent :=
  [.publish "/s" ⟨[1, 2], 0, true⟩, .begin 1 "/s" (7 : ℚ), .begin 2 "/s" (7 : ℚ), .listed 0 []] ++
    advances 0 5 ++ [.copied 0 8, .listed 1 [.tmp 1 "/s"]] ++ advances 1 6 ++ [.copied 1 1] ++
    advances 0 8 ++ [.copied 1 1] ++ advances 1 8 ++
    [.begin 1 "/s" (7 : ℚ), .listed 2 [.dest "/s", .sidecar "/s"]] ++ advances 2 8

/-- Both copies succeed, and the promise holds. -/
theorem materialized_twoSupervisors :
    ∃ S, Run (Steps.within Careful) {} twoSupervisors S ∧ S.Materialized ∧
      S.root.read (.dest "/s") = some [1, 2] ∧
      [0, 1, 2].map (fun id => (S.call id).map CopyCall.pc) =
        List.replicate 3 (some .returned) := by
  obtain ⟨S, hrun, hS⟩ := exists_run_of_execWithin step Careful {} twoSupervisors
    (fun S => decide (S.root.read (.dest "/s") = some [1, 2] ∧
      [0, 1, 2].map (fun id => (S.call id).map CopyCall.pc) = List.replicate 3 (some .returned)))
    (by decide +kernel)
  exact ⟨S, hrun, materialized_of_run hrun, of_decide_eq_true hS⟩

/-- Two threads of one supervisor copy the same source: the second has truncated the temporary
file when the first renames it. -/
def sharedTmp : List BinEvent :=
  [.publish "/s" ⟨[1, 2], 0, true⟩, .begin 1 "/s" (7 : ℚ), .begin 1 "/s" (7 : ℚ), .listed 0 []] ++
    advances 0 5 ++ [.copied 0 8] ++ advances 0 3 ++ [.listed 1 []] ++ advances 1 5 ++ [.next 0]

/-- The source is two hours old: another supervisor's prune takes the temporary file that has
got its times. -/
def prunedTmp : List BinEvent :=
  [.clock 7200, .publish "/s" ⟨[1, 2], 0, true⟩, .begin 1 "/s" (7 : ℚ), .begin 2 "/t" (7 : ℚ),
    .listed 0 []] ++ advances 0 5 ++ [.copied 0 8] ++ advances 0 2 ++
    [.listed 1 [.tmp 1 "/s"]] ++ advances 1 2 ++ [.next 0]

/-- A changed source is copied again, up to the rename. -/
def copiedAgain : List BinEvent :=
  [.publish "/s" ⟨[1, 2], 0, true⟩, .begin 1 "/s" (7 : ℚ), .listed 0 []] ++ advances 0 5 ++
    [.copied 0 8] ++ advances 0 8 ++
    [.publish "/s" ⟨[3], 1, true⟩, .begin 1 "/s" (7 : ℚ), .listed 1 []] ++ advances 1 6 ++
    [.copied 1 8] ++ advances 1 4

/-- Each part of the promise is broken in some run: a copy is incomplete, it is written in
place, a call misses its temporary file, and the sidecar names an older copy. -/
theorem not_materialized :
    (¬ ∀ es S, Run Steps {} es S → ∀ source data, S.root.read (.dest source) = some data →
      ∃ v ∈ S.versions source, v.content = data) ∧
    (¬ ∀ es S e T, Run Steps {} es S → Steps S e T → ∀ source i,
      S.root.entry (.dest source) = some i → (T.root.inode i).data = (S.root.inode i).data) ∧
    (¬ ∀ es S, Run Steps {} es S → ∀ id c, S.call id = some c → c.pc ≠ .raised .missingTmp) ∧
    (¬ ∀ es S, Run Steps {} es S → ∀ source F, S.root.read (.sidecar source) = some F → F ≠ [] →
      ∃ data, S.root.read (.dest source) = some data ∧ S.Taken source F data) := by
  refine ⟨fun h => ?_, fun h => ?_, fun h => ?_, fun h => ?_⟩
  · obtain ⟨S, hrun, hS⟩ := exists_run_of_exec step {} sharedTmp
      (fun S => decide (S.root.read (.dest "/s") = some [] ∧
        ∀ v ∈ S.versions "/s", v.content ≠ [])) (by decide +kernel)
    obtain ⟨hread, hnone⟩ := of_decide_eq_true hS
    obtain ⟨v, hv, hdata⟩ := h _ S hrun "/s" [] hread
    exact hnone v hv hdata
  · obtain ⟨S, hrun, hS⟩ := exists_run_of_exec step {} sharedTmp
      (fun S => decide (S.root.entry (.dest "/s") = some 0 ∧ (S.root.inode 0).data = [] ∧
        (step S (.copied 1 8)).any fun T => (T.root.inode 0).data = [1, 2])) (by decide +kernel)
    obtain ⟨hentry, hdata, hstep⟩ := of_decide_eq_true hS
    obtain ⟨T, hT, hdata'⟩ := (Option.any_eq_true _ _).mp hstep
    have hsame := h _ S _ T hrun hT "/s" 0 hentry
    rw [hdata, of_decide_eq_true hdata'] at hsame
    cases hsame
  · obtain ⟨S, hrun, hS⟩ := exists_run_of_exec step {} prunedTmp
      (fun S => (S.call 0).any fun c => c.pc = .raised .missingTmp) (by decide +kernel)
    obtain ⟨c, hc, hpc⟩ := (Option.any_eq_true _ _).mp hS
    exact h _ S hrun 0 c hc (of_decide_eq_true hpc)
  · obtain ⟨S, hrun, hS⟩ := exists_run_of_exec step {} copiedAgain
      (fun S => (S.root.read (.sidecar "/s")).any fun F =>
        decide (F ≠ [] ∧ S.root.read (.dest "/s") = some [3] ∧ ¬ S.Taken "/s" F [3]))
      (by decide +kernel)
    obtain ⟨F, hF, hfacts⟩ := (Option.any_eq_true _ _).mp hS
    obtain ⟨hne, hdest, hnot⟩ := of_decide_eq_true hfacts
    obtain ⟨data, hdata, ht⟩ := h _ S hrun "/s" F hF hne
    obtain rfl : data = [3] := Option.some.inj (hdata.symm.trans hdest)
    exact hnot ht

end BinRoot

end Jetty.Orchestrator

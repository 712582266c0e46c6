import Jetty.Orchestrator.Resolvers.Materialize

/-!
# Complete copies

What a bin root promises about its copies, the steps that break the promise, and the proof
that nothing else does. A copy is prepared under a temporary name that threads of one
supervisor share, its age is that of its source until it is touched, and the sidecar follows
the copy in a step of its own: each of these is a way to a broken copy or a failed call.
-/

namespace Jetty.Orchestrator

open Files Transition

/-- The call has the file of the source open, or is about to read it. -/
def CopyPc.reads (k : ℕ) : CopyPc → Bool
  | .openTmp file | .copying file .. => file = k
  | _ => false

namespace BinRoot

/-- The data is that of a version of the source with the fingerprint `F`. -/
def Taken (S : BinRoot) (source : String) (F data : List UInt8) : Prop :=
  ∃ v ∈ S.versions source, v.fingerprint = F ∧ v.content = data

/-- What a bin root promises. -/
structure Materialized (S : BinRoot) : Prop where
  /-- A copy is complete. -/
  complete : ∀ source data, S.root.read (.dest source) = some data →
    ∃ v ∈ S.versions source, v.content = data
  /-- The next step leaves a copy as it is, removes it, or renames another one over it. -/
  replaced : ∀ e T source i, Steps S e T → S.root.entry (.dest source) = some i →
    T.root.entry (.dest source) = some i ∧ (T.root.inode i).data = (S.root.inode i).data ∨
      T.root.entry (.dest source) = none ∨
      ∃ id c, e = .next id ∧ S.call id = some c ∧ c.pc = .rename ∧ c.source = source
  /-- No call misses its temporary file, or a copy that its own prune would have kept. -/
  spared : ∀ id c, S.call id = some c → c.pc ≠ .raised .missingTmp ∧
    ∀ t, c.pc = .raised (.unreachable (some t)) → c.stale (.dest c.source) t = true
  /-- The copy is the one that its sidecar names. -/
  recorded : ∀ source F, S.root.read (.sidecar source) = some F → F ≠ [] →
    ∃ data, S.root.read (.dest source) = some data ∧ S.Taken source F data

/-! ### The steps that break the promise -/

/-- If a prune has removed the copy, this call would have removed it, too. -/
def Kept (S : BinRoot) (c : CopyCall) : Prop :=
  S.root.read (.dest c.source) = none → ∀ t ∈ S.lost c.source, c.stale (.dest c.source) t = true

/-- Nobody depends on the entry: the temporary file is not in use; the copy has no sidecar,
is not waiting for one, and is not about to stand in for its source, unless it is stale for
the call that needs it, too. -/
def Expendable (S : BinRoot) : BinName → Prop
  | .tmp pid source => ∀ id < S.calls, ∀ c ∈ S.call id, c.pc.hasTmp = true → c.pid = pid →
    c.source ≠ source
  | .dest source => (∀ F ∈ S.root.read (.sidecar source), F = []) ∧
    ∀ id < S.calls, ∀ c ∈ S.call id, c.source = source → c.pc.owesMeta = false ∧
      (c.pc = .lookForCopy → ∀ t ∈ S.mtime (.dest source), c.stale (.dest source) t = true)
  | .sidecar _ => True

/-- The sidecar of the copy and the calls that are about to write it name fingerprints at which
the data was taken, too. -/
def Fits (S : BinRoot) (id : ℕ) (source : String) (data : List UInt8) : Prop :=
  (∀ F ∈ S.root.read (.sidecar source), F ≠ [] → S.Taken source F data) ∧
    ∀ id' < S.calls, id' ≠ id → ∀ c ∈ S.call id', c.pc.owesMeta = true → c.source = source →
      S.Taken source c.fingerprint data

/-- The next step of the call breaks nothing. -/
def CarefulCall (S : BinRoot) (id : ℕ) (c : CopyCall) : Prop :=
  match c.pc with
  | .unlinking name _ => S.Expendable name
  | .statSource => S.source c.source = none → S.Kept c
  | .openSource => ∀ k ∈ S.source c.source, S.Taken c.source c.fingerprint (S.file k).content
  | .openTmp _ => ∀ id' < S.calls, id' ≠ id → ∀ c' ∈ S.call id', c'.pc.hasTmp = true →
    c'.pid = c.pid → c'.source ≠ c.source
  | .rename => ∀ data ∈ S.root.read (.tmp c.pid c.source), S.Fits id c.source data
  | .openMeta => ∀ id' < S.calls, id' ≠ id → ∀ c' ∈ S.call id',
    ∀ i ∈ S.root.entry (.sidecar c.source), c'.pc = .writeMeta i →
      c'.fingerprint = c.fingerprint
  | _ => True

/-- The step breaks nothing. -/
def Careful (S : BinRoot) : BinEvent → Prop
  | .overwrite source _ => ∀ k ∈ S.source source, ∀ id < S.calls, ∀ c ∈ S.call id,
    c.pc.reads k = false
  | .next id => ∀ c ∈ S.call id, S.CarefulCall id c
  | .fault id => ∀ c ∈ S.call id, c.pc = .statSource → S.Kept c
  | _ => True

instance (S : BinRoot) (source : String) (F data : List UInt8) :
    Decidable (S.Taken source F data) :=
  inferInstanceAs (Decidable (∃ v ∈ S.versions source, v.fingerprint = F ∧ v.content = data))

instance (S : BinRoot) (id : ℕ) (source : String) (data : List UInt8) :
    Decidable (S.Fits id source data) :=
  inferInstanceAs (Decidable (_ ∧ _))

instance (S : BinRoot) (c : CopyCall) : Decidable (S.Kept c) :=
  inferInstanceAs (Decidable (_ → _))

instance (S : BinRoot) (name : BinName) : Decidable (S.Expendable name) := by
  unfold Expendable
  split <;> infer_instance

instance (S : BinRoot) (id : ℕ) (c : CopyCall) : Decidable (S.CarefulCall id c) := by
  unfold CarefulCall
  split <;> infer_instance

instance (S : BinRoot) (e : BinEvent) : Decidable (S.Careful e) := by
  unfold Careful
  split <;> infer_instance

/-! ### What a call relies on -/

/-- The copy that the call has renamed, or one just as good, is in place. -/
def Fresh (S : BinRoot) (c : CopyCall) : Prop :=
  ∃ data, S.root.read (.dest c.source) = some data ∧ S.Taken c.source c.fingerprint data

/-- What a call relies on at each of its steps. -/
def Holds (S : BinRoot) (c : CopyCall) : Prop :=
  match c.pc with
  | .lookForCopy => S.Kept c
  | .openTmp k => k < S.files ∧ S.Taken c.source c.fingerprint (S.file k).content
  | .copying k i offset => k < S.files ∧ S.Taken c.source c.fingerprint (S.file k).content ∧
    S.root.entry (.tmp c.pid c.source) = some i ∧
    (S.root.inode i).data = (S.file k).content.take offset
  | .copyTimes | .copyMode | .rename =>
    ∃ data, S.root.read (.tmp c.pid c.source) = some data ∧ S.Taken c.source c.fingerprint data
  | .openMeta => S.Fresh c
  | .writeMeta i => S.Fresh c ∧ i < S.root.next ∧
    (∀ name, S.root.entry name = some i → name = .sidecar c.source) ∧
    ((S.root.inode i).data = [] ∨ (S.root.inode i).data = c.fingerprint)
  | .raised .missingTmp => False
  | .raised (.unreachable (some t)) => c.stale (.dest c.source) t = true
  | _ => True

/-- A step from `S` to `T` leaves a call what it relies on. -/
structure Spares (S T : BinRoot) (c : CopyCall) : Prop where
  versions : ∀ source v, v ∈ S.versions source → v ∈ T.versions source
  files : S.files ≤ T.files
  file : ∀ k < S.files, c.pc.reads k = true → T.file k = S.file k
  tmp : c.pc.hasTmp = true →
    T.root.entry (.tmp c.pid c.source) = S.root.entry (.tmp c.pid c.source) ∧
      ∀ i, S.root.entry (.tmp c.pid c.source) = some i →
        (T.root.inode i).data = (S.root.inode i).data
  dest : c.pc.owesMeta = true → S.Fresh c → T.Fresh c
  sidecar : ∀ i, c.pc = .writeMeta i → i < S.root.next →
    (∀ name, S.root.entry name = some i → name = .sidecar c.source) →
    i < T.root.next ∧ (∀ name, T.root.entry name = some i → name = .sidecar c.source) ∧
      ((T.root.inode i).data = (S.root.inode i).data ∨ (T.root.inode i).data = [] ∨
        (T.root.inode i).data = c.fingerprint)
  kept : c.pc = .lookForCopy → S.Kept c → T.Kept c

variable {S T : BinRoot} {c d : CopyCall} {id : ℕ} {e : BinEvent}

private theorem Taken.mono {source : String} {F data : List UInt8} (h : S.Taken source F data)
    (hversions : ∀ v ∈ S.versions source, v ∈ T.versions source) : T.Taken source F data := by
  obtain ⟨v, hv, hF, hdata⟩ := h
  exact ⟨v, hversions v hv, hF, hdata⟩

/-- What a call relies on holds after a step that spares it. -/
theorem Holds.of_spares (h : S.Holds c) (hs : Spares S T c) : T.Holds c := by
  have htaken {F data : List UInt8} (ht : S.Taken c.source F data) : T.Taken c.source F data :=
    ht.mono (hs.versions _)
  have htmp (hpc : c.pc.hasTmp = true)
      (hd : ∃ data, S.root.read (.tmp c.pid c.source) = some data ∧
        S.Taken c.source c.fingerprint data) :
      ∃ data, T.root.read (.tmp c.pid c.source) = some data ∧
        T.Taken c.source c.fingerprint data := by
    obtain ⟨data, hread, ht⟩ := hd
    obtain ⟨i, hi, hdata⟩ := Directory.read_eq_some.mp hread
    obtain ⟨hentry, hsame⟩ := hs.tmp hpc
    exact ⟨data, Directory.read_eq_some.mpr ⟨i, hentry.trans hi, (hsame i hi).trans hdata⟩,
      htaken ht⟩
  unfold Holds at h ⊢
  cases hpc : c.pc with
  | lookForCopy =>
      rw [hpc] at h
      exact hs.kept hpc h
  | openTmp k =>
      rw [hpc] at h
      obtain ⟨hk, ht⟩ := h
      refine ⟨hk.trans_le hs.files, ?_⟩
      rw [hs.file k hk (by simp [hpc, CopyPc.reads])]
      exact htaken ht
  | copying k i offset =>
      rw [hpc] at h
      obtain ⟨hk, ht, hentry, hdata⟩ := h
      obtain ⟨hentry', hsame⟩ := hs.tmp (by rw [hpc]; rfl)
      simp only [hs.file k hk (by simp [hpc, CopyPc.reads])]
      exact ⟨hk.trans_le hs.files, htaken ht, hentry'.trans hentry, (hsame i hentry).trans hdata⟩
  | copyTimes | copyMode | rename =>
      rw [hpc] at h
      exact htmp (by rw [hpc]; rfl) h
  | openMeta =>
      rw [hpc] at h
      exact hs.dest (by rw [hpc]; rfl) h
  | writeMeta i =>
      rw [hpc] at h
      obtain ⟨hfresh, hi, hbound, hdata⟩ := h
      obtain ⟨hi', hbound', hdata'⟩ := hs.sidecar i hpc hi hbound
      refine ⟨hs.dest (by rw [hpc]; rfl) hfresh, hi', hbound', ?_⟩
      rcases hdata' with hd | hd | hd
      · rw [hd]
        exact hdata
      · exact .inl hd
      · exact .inr hd
  | raised err =>
      rw [hpc] at h
      cases err with
      | unreachable lost =>
          cases lost with
          | none => trivial
          | some t => exact h
      | missingTmp => exact h.elim
      | notRegular | undecodable | os => trivial
  | _ => trivial

/-! ### The invariant -/

/-- The bin root is in order, and so is every call. -/
structure Sound (S : BinRoot) : Prop where
  sources : ∀ source k, S.source source = some k → k < S.files
  calls : ∀ id c, S.call id = some c → id < S.calls ∧ S.Holds c
  /-- No two calls share a temporary file. -/
  apart : ∀ id id' c c', S.call id = some c → S.call id' = some c' → c.pc.hasTmp = true →
    c'.pc.hasTmp = true → c.pid = c'.pid → c.source = c'.source → id = id'
  /-- Calls that share an open sidecar agree on the fingerprint. -/
  agree : ∀ id id' c c' i, S.call id = some c → S.call id' = some c' → c.pc = .writeMeta i →
    c'.pc = .writeMeta i → c.fingerprint = c'.fingerprint
  complete : ∀ source data, S.root.read (.dest source) = some data →
    ∃ v ∈ S.versions source, v.content = data
  recorded : ∀ source F, S.root.read (.sidecar source) = some F → F ≠ [] →
    ∃ data, S.root.read (.dest source) = some data ∧ S.Taken source F data

/-- An empty directory of binaries is sound. -/
theorem sound_init : Sound {} where
  sources _ _ := nofun
  calls _ _ := nofun
  apart _ _ _ _ := nofun
  agree _ _ _ _ _ := nofun
  complete _ _ := nofun
  recorded _ _ := nofun

/-- Neither the names nor the data nor the calls change, and versions are only added. -/
structure SameData (S T : BinRoot) : Prop where
  entry : T.root.entry = S.root.entry
  data : ∀ i, (T.root.inode i).data = (S.root.inode i).data
  next : T.root.next = S.root.next
  lost : T.lost = S.lost
  versions : ∀ source v, v ∈ S.versions source → v ∈ T.versions source
  files : S.files ≤ T.files

private theorem SameData.read (h : SameData S T) (name : BinName) :
    T.root.read name = S.root.read name := by
  simp only [Directory.read, h.entry, h.data]

/-- Where no data change, a call is spared if the source files that it reads stay as they are. -/
theorem SameData.spares (h : SameData S T)
    (hfile : ∀ k < S.files, c.pc.reads k = true → T.file k = S.file k) : Spares S T c where
  versions := h.versions
  files := h.files
  file := hfile
  tmp _ := ⟨by rw [h.entry], fun i _ => h.data i⟩
  dest _ hfresh := by
    obtain ⟨data, hread, ht⟩ := hfresh
    exact ⟨data, (h.read _).trans hread, ht.mono (h.versions _)⟩
  sidecar i _ hi hbound := by
    refine ⟨h.next ▸ hi, fun name hname => hbound name ?_, .inl (h.data i)⟩
    rwa [h.entry] at hname
  kept _ hkept hread t ht := by
    rw [h.read] at hread
    rw [h.lost] at ht
    exact hkept hread t ht

/-- Where no data change, a copy that is read has the content of a version. -/
theorem SameData.complete (h : SameData S T) (hs : S.Sound) (source : String)
    (data : List UInt8) (hread : T.root.read (.dest source) = some data) :
    ∃ v ∈ T.versions source, v.content = data := by
  obtain ⟨v, hv, hdata⟩ := hs.complete source data ((h.read _).symm.trans hread)
  exact ⟨v, h.versions _ v hv, hdata⟩

/-- Where no data change, a sidecar that is read is of the copy beside it. -/
theorem SameData.recorded (h : SameData S T) (hs : S.Sound) (source : String)
    (F : List UInt8) (hread : T.root.read (.sidecar source) = some F) (hF : F ≠ []) :
    ∃ data, T.root.read (.dest source) = some data ∧ T.Taken source F data := by
  obtain ⟨data, hdest, ht⟩ := hs.recorded source F ((h.read _).symm.trans hread) hF
  exact ⟨data, (h.read _).trans hdest, ht.mono (h.versions _)⟩

/-- The environment or the clock takes a step: the calls stay where they are. -/
theorem Sound.environment (h : S.Sound) (hsame : SameData S T) (hcall : T.call = S.call)
    (hcalls : T.calls = S.calls)
    (hfile : ∀ id c, S.call id = some c → ∀ k < S.files, c.pc.reads k = true →
      T.file k = S.file k)
    (hsources : ∀ source k, T.source source = some k → k < T.files) : T.Sound where
  sources := hsources
  calls id c hc := by
    rw [hcall] at hc
    obtain ⟨hid, hholds⟩ := h.calls id c hc
    exact ⟨hcalls ▸ hid, hholds.of_spares (hsame.spares (hfile id c hc))⟩
  apart := by
    rw [hcall]
    exact h.apart
  agree := by
    rw [hcall]
    exact h.agree
  complete := hsame.complete h
  recorded := hsame.recorded h

/-- A call takes a step: the others keep what they rely on, and it gets what it relies on. -/
theorem Sound.call_step (h : S.Sound) (hc : S.call id = some c)
    (hcall : T.call = Function.update S.call id (some d)) (hcalls : T.calls = S.calls)
    (hsource : T.source = S.source) (hfiles : T.files = S.files)
    (hspares : ∀ id' c', id' ≠ id → S.call id' = some c' → Spares S T c') (hholds : T.Holds d)
    (hapart : d.pc.hasTmp = true → ∀ id' c', id' ≠ id → S.call id' = some c' →
      c'.pc.hasTmp = true → c'.pid = d.pid → c'.source ≠ d.source)
    (hagree : ∀ i, d.pc = .writeMeta i → ∀ id' c', id' ≠ id → S.call id' = some c' →
      c'.pc = .writeMeta i → c'.fingerprint = d.fingerprint)
    (hcomplete : ∀ source data, T.root.read (.dest source) = some data →
      ∃ v ∈ T.versions source, v.content = data)
    (hrecorded : ∀ source F, T.root.read (.sidecar source) = some F → F ≠ [] →
      ∃ data, T.root.read (.dest source) = some data ∧ T.Taken source F data) : T.Sound where
  sources source k hk := by
    rw [hsource] at hk
    exact hfiles ▸ h.sources source k hk
  calls id' c' hc' := by
    rw [hcalls]
    by_cases hid : id' = id
    · subst hid
      rw [hcall, Function.update_self, Option.some.injEq] at hc'
      subst hc'
      exact ⟨(h.calls id' c hc).1, hholds⟩
    · rw [hcall, Function.update_of_ne hid] at hc'
      obtain ⟨hlt, hold⟩ := h.calls id' c' hc'
      exact ⟨hlt, hold.of_spares (hspares id' c' hid hc')⟩
  apart id₁ id₂ c₁ c₂ h₁ h₂ ht₁ ht₂ hpid hsrc := by
    by_cases hid₁ : id₁ = id
    · by_cases hid₂ : id₂ = id
      · rw [hid₁, hid₂]
      · subst hid₁
        rw [hcall, Function.update_self, Option.some.injEq] at h₁
        rw [hcall, Function.update_of_ne hid₂] at h₂
        subst h₁
        exact absurd hsrc.symm (hapart ht₁ id₂ c₂ hid₂ h₂ ht₂ hpid.symm)
    · rw [hcall, Function.update_of_ne hid₁] at h₁
      by_cases hid₂ : id₂ = id
      · subst hid₂
        rw [hcall, Function.update_self, Option.some.injEq] at h₂
        subst h₂
        exact absurd hsrc (hapart ht₂ id₁ c₁ hid₁ h₁ ht₁ hpid)
      · rw [hcall, Function.update_of_ne hid₂] at h₂
        exact h.apart id₁ id₂ c₁ c₂ h₁ h₂ ht₁ ht₂ hpid hsrc
  agree id₁ id₂ c₁ c₂ i h₁ h₂ hp₁ hp₂ := by
    by_cases hid₁ : id₁ = id
    · by_cases hid₂ : id₂ = id
      · rw [hid₁] at h₁
        rw [hid₂, h₁, Option.some.injEq] at h₂
        rw [h₂]
      · subst hid₁
        rw [hcall, Function.update_self, Option.some.injEq] at h₁
        rw [hcall, Function.update_of_ne hid₂] at h₂
        subst h₁
        exact (hagree i hp₁ id₂ c₂ hid₂ h₂ hp₂).symm
    · rw [hcall, Function.update_of_ne hid₁] at h₁
      by_cases hid₂ : id₂ = id
      · subst hid₂
        rw [hcall, Function.update_self, Option.some.injEq] at h₂
        subst h₂
        exact hagree i hp₂ id₁ c₁ hid₁ h₁ hp₁
      · rw [hcall, Function.update_of_ne hid₂] at h₂
        exact h.agree id₁ id₂ c₁ c₂ i h₁ h₂ hp₁ hp₂
  complete := hcomplete
  recorded := hrecorded

end BinRoot

end Jetty.Orchestrator

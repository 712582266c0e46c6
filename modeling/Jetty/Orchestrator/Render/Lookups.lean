import Jetty.Core.Python.Lookups
import Jetty.Orchestrator.Render.Render

/-!
# What rendering looks up

Unknown placeholders come from the look-ups of templates alone. For each of the rendering
functions: success finds every name, a smaller context either has all names or raises an
unknown placeholder, and a context with all names raises none.
-/

namespace Jetty.Orchestrator

open Python Failure

/-- The names a template looks up, at any depth. -/
def lookups (template : String) : List String := fieldNames 3 template

/-- The names that only the format specifications of a template look up. -/
def nestedLookups (template : String) : List String :=
  (parse template).fields.flatMap fun field => fieldNames 2 field.spec

/-- A template looks up the names of its fields and those in their format specifications. -/
theorem mem_lookups {template name : String} :
    name ∈ lookups template ↔
      (∃ field ∈ (parse template).fields, field.name = name) ∨ name ∈ nestedLookups template := by
  simp only [lookups, nestedLookups, fieldNames, List.mem_flatMap, List.mem_cons]
  constructor
  · rintro ⟨field, hfield, rfl | hname⟩
    · exact .inl ⟨field, hfield, rfl⟩
    · exact .inr ⟨field, hfield, hname⟩
  · rintro (⟨field, hfield, rfl⟩ | ⟨field, hfield, hname⟩)
    · exact ⟨field, hfield, .inl rfl⟩
    · exact ⟨field, hfield, .inr hname⟩

/-- The name is neither an environment variable's nor in the context. -/
def Missing (ctx : Context) (name : String) : Prop :=
  envField name = none ∧ ctx.lookup name = none

/-- No key of the context is a number. -/
def Lettered (ctx : Context) : Prop := ∀ n : ℕ, ctx.lookup (toString n) = none

/-- `small` has no name that `large` lacks, and the same values. -/
def Within (small large : Context) : Prop :=
  ∀ name, small.lookup name = none ∨ small.lookup name = large.lookup name

/-- Unknown placeholders, before `render_str` wraps them. -/
def unknownField (e : FormatError ⊕ RenderError) : Prop :=
  ∃ e', e = .inr e' ∧ e'.isUnknown = true

def unknown (e : Raised) : Prop := e.isUnknown = true

private theorem getField_eq_ok {host : Host} {ctx : Context} {name : String} :
    (∃ v, getField host ctx name = .ok v) ↔ ¬ Missing ctx name := by
  unfold getField Missing
  split
  · rename_i h
    simp [h]
  · rename_i h
    split
    · rename_i h'
      simp [h']
    · rename_i h'
      simp [h, h']

private theorem toList_toString_nat (n : ℕ) : (toString n).toList = Nat.toDigits 10 n := by
  rw [show toString n = n.repr from rfl, Nat.repr, String.toList_ofList]

private theorem not_envField_toString (n : ℕ) : envField (toString n) = none := by
  unfold envField
  rw [if_neg]
  rintro ⟨⟨rest, hrest⟩, -⟩
  have hmem : 'e' ∈ (toString n).toList := by
    rw [← hrest]
    exact List.mem_append_left _ (by decide)
  rw [toList_toString_nat] at hmem
  exact absurd (Nat.isDigit_of_mem_toDigits (by decide) (by decide) hmem) (by decide)

private theorem Lettered.getField {ctx : Context} (h : Lettered ctx) (host : Host) (n : ℕ)
    (v : RenderValue) : getField host ctx (toString n) ≠ .ok v := by
  intro hv
  exact getField_eq_ok.mp ⟨v, hv⟩ ⟨not_envField_toString n, h n⟩

/-- A key with a letter in it is no number. -/
theorem ne_toString_of_mem {key : String} {c : Char} (hc : c ∈ key.toList)
    (hdigit : c.isDigit = false) (n : ℕ) : toString n ≠ key := by
  rintro rfl
  rw [toList_toString_nat] at hc
  rw [Nat.isDigit_of_mem_toDigits (by decide) (by decide) hc] at hdigit
  cases hdigit

section Templates

variable {host : Host} {ctx small : Context}

/-- A template renders only if it parses and none of the names it looks up is empty or missing. -/
theorem renderStr_needs (hctx : Lettered ctx) (template : String) :
    Needs (renderStr host ctx template) ((parse template).error = none ∧
      ∀ name ∈ lookups template, name ≠ "" ∧ ¬ Missing ctx name) := by
  intro v hv
  obtain ⟨out, hout, -⟩ := map_eq_ok.mp (mapError_eq_ok.mp hv)
  have hnumber := fun n v => hctx.getField host n v
  refine ⟨Formatter.parse_error_of_vformatAux hnumber 3 template _ out hout, fun name hname => ?_⟩
  obtain ⟨hempty, hfound⟩ := Formatter.vformatAux_needs hnumber 3 template _ out hout name hname
  exact ⟨hempty, getField_eq_ok.mp hfound⟩

/-- A template that renders renders alike in a smaller context, unless that misses one of its names.
-/
theorem renderStr_follows (hctx : Lettered ctx) (hsmall : Within small ctx) (template : String) :
    Follows unknown Eq (∀ name ∈ lookups template, ¬ Missing small name)
      (renderStr host ctx template) (renderStr host small template) := by
  have hsame : Formatter.SameButFields (formatter host ctx) (formatter host small) :=
    ⟨rfl, rfl, rfl, rfl, rfl⟩
  have hfield (name : String) : Follows unknownField Eq (¬ Missing small name)
      ((formatter host ctx).getField name) ((formatter host small).getField name) := by
    intro v hv
    refine ⟨fun hfound => ⟨v, ?_, rfl⟩, fun hmissing => ?_⟩
    · rw [← hv]
      show getField host small name = getField host ctx name
      unfold getField
      split
      · rfl
      · rename_i henv
        cases hvalue : small.lookup name with
        | none => exact absurd ⟨henv, hvalue⟩ hfound
        | some value =>
            have heq := (hsmall name).resolve_left (by simp [hvalue])
            rw [← heq, hvalue]
    · obtain ⟨henv, hnone⟩ := not_not.mp hmissing
      refine ⟨.inr (.unknownPlaceholder name (known small)), ?_, _, rfl, rfl⟩
      show getField host small name = _
      unfold getField
      rw [henv, hnone]
  have hfollows := Formatter.vformatAux_follows hsame (fun n v => hctx.getField host n v) hfield 3
    template (some 0)
  refine Follows.mapError (hfollows.map (S := Eq) ?_) ?_
  · rintro v _ rfl
    rfl
  · rintro _ ⟨e, rfl, he⟩
    exact he

private theorem formatField_spares (value : RenderValue) (spec : String) :
    Spares unknownField (formatField value spec) := by
  intro e he
  rintro ⟨e', rfl, hunknown⟩
  unfold formatField at he
  split at he
  · split at he
    · cases he
    · obtain rfl := Sum.inr.inj (Except.error.inj he)
      cases hunknown
    · split at he
      · cases he
      · obtain rfl := Sum.inr.inj (Except.error.inj he)
        cases hunknown
  · cases hstr : formatStr _ spec <;> rw [hstr] at he <;> cases he

/-- A template whose names are all known does not fail for an unknown one. -/
theorem renderStr_spares (template : String)
    (hnames : ∀ name ∈ lookups template, name ≠ "" ∧ ¬ Missing ctx name) :
    Spares unknown (renderStr host ctx template) := by
  refine Spares.mapError fun e he => ?_
  have hfield : ∀ name ∈ lookups template, name ≠ "" ∧
      Spares unknownField ((formatter host ctx).getField name) := by
    intro name hname
    obtain ⟨hempty, hfound⟩ := hnames name hname
    obtain ⟨v, hv⟩ := getField_eq_ok.mpr hfound
    refine ⟨hempty, ?_⟩
    show Spares unknownField (getField host ctx name)
    rw [hv]
    exact spares_ok v
  have hspares : Spares unknownField ((formatter host ctx).vformat template) :=
    (Formatter.vformatAux_spares (by rintro e ⟨e', h, -⟩; cases h) formatField_spares 3 template
      hfield (some 0)).map
  have hnot := hspares e he
  cases e with
  | inl e => nofun
  | inr e => exact fun hunknown => hnot ⟨e, rfl, hunknown⟩

end Templates

/-- The templates that are rendered for a service, in the order of rendering. -/
def serviceTemplates (svc : ServiceConfig) : List String :=
  svc.cmd ++ (svc.cwd.toList ++ ((svc.ready.path.filter (· ≠ "")).toList ++
    ((svc.ready.uds.filter (· ≠ "")).toList ++ (svc.env.map Prod.snd ++
      ((svc.ready.http.filter (· ≠ "")).toList ++ ((svc.ready.tcp.filter (· ≠ "")).toList ++
        svc.watch))))))

private theorem renderOptional_needs {render : String → Except Raised String} {G : String → Prop}
    (hrender : ∀ template, Needs (render template) (G template)) (template : Option String) :
    Needs (renderOptional render template)
      (∀ t ∈ (template.filter (· ≠ "")).toList, G t) := by
  unfold renderOptional
  cases template.filter (· ≠ "") with
  | none => exact fun _ _ => List.forall_mem_nil _
  | some t => exact (hrender t).map.mono fun h => List.forall_mem_singleton.mpr h

section Needs

variable {host : Host} {ctx : Context} {G : String → Prop}
  (hG : ∀ template, Needs (renderStr host ctx template) (G template))
include hG

private theorem renderElement_needs (what element : String) :
    Needs (renderElement host ctx what element) (G element) := by
  unfold renderElement
  split
  · refine Needs.bind_left fun v hv => ?_
    exact hG element v (mapError_eq_ok.mp hv)
  · exact (hG element).map

/-- A command renders only if each element does. -/
theorem renderArgv_needs (configDir what : String) (elements : List String) :
    Needs (renderArgv host ctx configDir what elements) (∀ element ∈ elements, G element) :=
  (Needs.mapM fun element _ => renderElement_needs hG what element).bind_left

private theorem renderPath_needs (configDir what template : String) :
    Needs (renderPath host ctx configDir what template) (G template) :=
  (hG template).bind_left

/-- The working directory renders only if its template does. -/
theorem renderWorkdir_needs (configDir : String) (inst : InstanceConfig) :
    Needs (renderWorkdir host ctx configDir inst) (∀ t ∈ inst.workdir.toList, G t) := by
  unfold renderWorkdir
  cases inst.workdir with
  | none => exact fun _ _ => List.forall_mem_nil _
  | some t =>
      exact (renderPath_needs hG configDir _ t).mono fun h => List.forall_mem_singleton.mpr h

private theorem renderCwd_needs (configDir : String) (defaultCwd cwd : Option String) :
    Needs (renderCwd host ctx configDir defaultCwd cwd) (∀ t ∈ cwd.toList, G t) := by
  unfold renderCwd
  cases cwd with
  | none => exact fun _ _ => List.forall_mem_nil _
  | some t => exact ((hG t).mono fun h => List.forall_mem_singleton.mpr h).bind_left

/-- A service renders only if each of its templates does. -/
theorem renderService_needs (configDir : String) (defaultCwd : Option String)
    (svc : ServiceConfig) :
    Needs (renderService host ctx configDir defaultCwd svc) (∀ t ∈ serviceTemplates svc, G t) := by
  simp only [serviceTemplates, List.forall_mem_append, List.forall_mem_map]
  refine (renderArgv_needs hG configDir "cmd" svc.cmd).bind fun _ => ?_
  refine (renderCwd_needs hG configDir defaultCwd svc.cwd).bind fun _ => ?_
  refine (renderOptional_needs (renderPath_needs hG configDir "ready.path") _).bind fun _ => ?_
  refine (renderOptional_needs (fun t => (renderPath_needs hG configDir _ t).bind_left) _).bind
    fun _ => ?_
  refine (Needs.mapM fun entry _ => (hG entry.2).map).bind fun _ => ?_
  refine (renderOptional_needs hG svc.ready.http).bind fun _ => ?_
  refine (renderOptional_needs hG svc.ready.tcp).bind fun _ => ?_
  exact (Needs.mapM fun t _ => renderPath_needs hG configDir "watch" t).bind_left

end Needs

private theorem renderOptional_follows {f g : String → Except Raised String} {G : String → Prop}
    (hfg : ∀ template, Follows unknown Eq (G template) (f template) (g template))
    (template : Option String) :
    Follows unknown Eq (∀ t ∈ (template.filter (· ≠ "")).toList, G t)
      (renderOptional f template) (renderOptional g template) := by
  unfold renderOptional
  cases template.filter (· ≠ "") with
  | none => exact (follows_refl _).congr (by simp)
  | some t =>
      refine ((hfg t).map (S := Eq) ?_).congr (by simp)
      rintro v _ rfl
      rfl

section Follows

variable {host : Host} {ctx small : Context} {G : String → Prop}
  (hG : ∀ template, Follows unknown Eq (G template) (renderStr host ctx template)
    (renderStr host small template))
include hG

private theorem renderElement_follows (what element : String) :
    Follows unknown Eq (G element) (renderElement host ctx what element)
      (renderElement host small what element) := by
  unfold renderElement
  split
  · refine (Follows.bind ((hG element).mapError ?_) ?_).congr (and_iff_left trivial)
    · rintro (e | -) he
      · exact he
      · cases he
    · rintro text _ rfl
      exact follows_refl _
  · refine (hG element).map ?_
    rintro text _ rfl
    rfl

/-- A command follows its elements into the smaller context. -/
theorem renderArgv_follows (configDir what : String) (elements : List String) :
    Follows unknown Eq (∀ element ∈ elements, G element)
      (renderArgv host ctx configDir what elements)
      (renderArgv host small configDir what elements) := by
  have hout := Follows.mapM_eq (l := elements) fun element _ =>
    renderElement_follows hG what element
  refine (hout.bind ?_).congr (and_iff_left trivial)
  rintro out _ rfl
  exact follows_refl _

private theorem renderPath_follows (configDir what template : String) :
    Follows unknown Eq (G template) (renderPath host ctx configDir what template)
      (renderPath host small configDir what template) := by
  refine ((hG template).bind ?_).congr (and_iff_left trivial)
  rintro path _ rfl
  exact follows_refl _

/-- The working directory follows its template. -/
theorem renderWorkdir_follows (configDir : String) (inst : InstanceConfig) :
    Follows unknown Eq (∀ t ∈ inst.workdir.toList, G t) (renderWorkdir host ctx configDir inst)
      (renderWorkdir host small configDir inst) := by
  unfold renderWorkdir
  cases inst.workdir with
  | none => exact (follows_refl _).congr (by simp)
  | some t => exact (renderPath_follows hG configDir _ t).congr (by simp)

private theorem renderUds_follows (configDir template : String) :
    Follows unknown Eq (G template) (renderUds host ctx configDir template)
      (renderUds host small configDir template) := by
  refine ((renderPath_follows hG configDir "ready.uds" template).bind ?_).congr
    (and_iff_left trivial)
  rintro path _ rfl
  exact follows_refl _

/-- The default directory may differ where both are absolute. -/
theorem renderCwd_follows (configDir : String) {dir dir' : Option String} (cwd : Option String)
    (hdir : ∀ v, resolveConfigPath host configDir "cwd" (dir.getD configDir) = .ok v →
      ∃ w, resolveConfigPath host configDir "cwd" (dir'.getD configDir) = .ok w) :
    Follows unknown (fun _ _ => True) (∀ t ∈ cwd.toList, G t)
      (renderCwd host ctx configDir dir cwd) (renderCwd host small configDir dir' cwd) := by
  unfold renderCwd
  cases cwd with
  | none =>
      intro v hv
      refine ⟨fun _ => ?_, fun h => absurd (by simp) h⟩
      obtain ⟨w, hw⟩ := hdir v hv
      exact ⟨w, hw, trivial⟩
  | some t =>
      have hcwd : G t ∧ True ↔ ∀ t' ∈ (some t).toList, G t' := by simp
      refine ((hG t).bind ?_).congr hcwd
      rintro path _ rfl
      exact (follows_refl _).mono fun _ _ _ => trivial

/-- A service follows its templates, whatever directory it starts in. -/
theorem renderService_follows (configDir : String) {dir dir' : Option String} (svc : ServiceConfig)
    (hdir : ∀ v, resolveConfigPath host configDir "cwd" (dir.getD configDir) = .ok v →
      ∃ w, resolveConfigPath host configDir "cwd" (dir'.getD configDir) = .ok w) :
    Follows unknown (fun _ _ => True) (∀ t ∈ serviceTemplates svc, G t)
      (renderService host ctx configDir dir svc) (renderService host small configDir dir' svc) := by
  simp only [serviceTemplates, List.forall_mem_append, List.forall_mem_map]
  refine (renderArgv_follows hG configDir "cmd" svc.cmd).bind fun _ _ _ => ?_
  refine (renderCwd_follows hG configDir svc.cwd hdir).bind fun _ _ _ => ?_
  refine (renderOptional_follows (renderPath_follows hG configDir _) _).bind fun _ _ _ => ?_
  refine (renderOptional_follows (renderUds_follows hG configDir) _).bind fun _ _ _ => ?_
  have henv := Follows.mapM_eq (l := svc.env) fun (entry : String × String) _ =>
    (hG entry.2).map (S := Eq) (f := fun v => (entry.1, v)) (g := fun v => (entry.1, v))
      (by rintro v _ rfl; rfl)
  refine henv.bind fun _ _ _ => ?_
  refine (renderOptional_follows hG svc.ready.http).bind fun _ _ _ => ?_
  refine (renderOptional_follows hG svc.ready.tcp).bind fun _ _ _ => ?_
  have hwatch := Follows.mapM_eq (l := svc.watch) fun t _ =>
    renderPath_follows hG configDir "watch" t
  exact (hwatch.bind fun _ _ _ => follows_ok trivial).congr (and_iff_left trivial)

end Follows

private theorem resolveConfigPath_spares (host : Host) (configDir what value : String) :
    Spares unknown (resolveConfigPath host configDir what value) := by
  intro e he hunknown
  unfold resolveConfigPath at he
  simp only at he
  split_ifs at he
  all_goals
    obtain rfl := Except.error.inj he
    cases hunknown

private theorem resolveCommand_spares (host : Host) (configDir what : String) (argv : List String) :
    Spares unknown (resolveCommand host configDir what argv) := by
  cases argv with
  | nil =>
      intro e he hunknown
      obtain rfl := Except.error.inj he
      cases hunknown
  | cons arg args =>
      simp only [resolveCommand]
      split
      · exact (resolveConfigPath_spares host configDir what arg).bind fun _ => spares_ok _
      · exact spares_ok _

private theorem renderOptional_spares {render : String → Except Raised String}
    {template : Option String}
    (hrender : ∀ t ∈ (template.filter (· ≠ "")).toList, Spares unknown (render t)) :
    Spares unknown (renderOptional render template) := by
  unfold renderOptional
  cases htemplate : template.filter (· ≠ "") with
  | none => exact spares_ok _
  | some t =>
      rw [htemplate] at hrender
      exact (hrender t (by simp)).map

section Spares

variable {host : Host} {ctx : Context} {G : String → Prop}
  (hG : ∀ template, G template → Spares unknown (renderStr host ctx template))
include hG

private theorem renderElement_spares (what : String) {element : String} (h : G element) :
    Spares unknown (renderElement host ctx what element) := by
  unfold renderElement
  split
  · refine Spares.bind (Spares.mapError fun e he => ?_) fun text => Spares.mapError fun _ _ => nofun
    have hnot := hG element h e he
    cases e with
    | render e => exact hnot
    | literal => nofun
  · exact (hG element h).map

/-- A command whose elements know their names does not fail for an unknown one. -/
theorem renderArgv_spares (configDir what : String) {elements : List String}
    (h : ∀ element ∈ elements, G element) :
    Spares unknown (renderArgv host ctx configDir what elements) :=
  (Spares.mapM fun element helement => renderElement_spares hG what (h element helement)).bind
    fun out => resolveCommand_spares host configDir what out.flatten

private theorem renderPath_spares (configDir what : String) {template : String} (h : G template) :
    Spares unknown (renderPath host ctx configDir what template) :=
  (hG template h).bind fun path => resolveConfigPath_spares host configDir what path

/-- Neither does the working directory. -/
theorem renderWorkdir_spares (configDir : String) {inst : InstanceConfig}
    (h : ∀ t ∈ inst.workdir.toList, G t) :
    Spares unknown (renderWorkdir host ctx configDir inst) := by
  unfold renderWorkdir
  cases hworkdir : inst.workdir with
  | none => exact spares_ok _
  | some t => exact renderPath_spares hG configDir _ (h t (Option.mem_toList.mpr hworkdir))

private theorem renderUds_spares (configDir : String) {template : String} (h : G template) :
    Spares unknown (renderUds host ctx configDir template) := by
  refine (renderPath_spares hG configDir "ready.uds" h).bind fun path => ?_
  split
  · intro e he hunknown
    obtain rfl := Except.error.inj he
    cases hunknown
  · exact spares_ok _

private theorem renderCwd_spares (configDir : String) (dir : Option String) {cwd : Option String}
    (h : ∀ t ∈ cwd.toList, G t) : Spares unknown (renderCwd host ctx configDir dir cwd) := by
  unfold renderCwd
  cases cwd with
  | none => exact resolveConfigPath_spares host configDir "cwd" _
  | some t =>
      exact (hG t (h t (by simp))).bind fun path =>
        resolveConfigPath_spares host configDir "cwd" path

/-- Neither does a service. -/
theorem renderService_spares (configDir : String) (dir : Option String) {svc : ServiceConfig}
    (h : ∀ t ∈ serviceTemplates svc, G t) :
    Spares unknown (renderService host ctx configDir dir svc) := by
  simp only [serviceTemplates, List.forall_mem_append, List.forall_mem_map] at h
  obtain ⟨hcmd, hcwd, hpath, huds, henv, hhttp, htcp, hwatch⟩ := h
  refine (renderArgv_spares hG configDir "cmd" hcmd).bind fun _ => ?_
  refine (renderCwd_spares hG configDir dir hcwd).bind fun _ => ?_
  refine (renderOptional_spares fun t ht => renderPath_spares hG configDir _ (hpath t ht)).bind
    fun _ => ?_
  refine (renderOptional_spares fun t ht => renderUds_spares hG configDir (huds t ht)).bind
    fun _ => ?_
  refine (Spares.mapM fun entry hentry => (hG entry.2 (henv entry hentry)).map).bind fun _ => ?_
  refine (renderOptional_spares fun t ht => hG t (hhttp t ht)).bind fun _ => ?_
  refine (renderOptional_spares fun t ht => hG t (htcp t ht)).bind fun _ => ?_
  exact (Spares.mapM fun t ht => renderPath_spares hG configDir "watch" (hwatch t ht)).bind
    fun _ => spares_ok _

end Spares

end Jetty.Orchestrator

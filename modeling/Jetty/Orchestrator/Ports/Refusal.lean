import Jetty.Orchestrator.Ports.Allocation

/-!
# Refused ports

A pinned port is refused as in use where others hold it, and also where an earlier name of the
same batch was given it: the broker cannot tell its own probe sockets from those of the others.
-/

namespace Jetty.Orchestrator.Ports

open Effects

variable {k : Kernel} {s s' : Probes} {lead : Family} {rest : List Family}

/-- The port that a spec pins. -/
def pinned (want : Toml) : Option ℕ :=
  match parsePortSpec want with
  | .ok (some (.range low high)) => if low = high then some low else none
  | _ => none

/-- The ports that the specs pin, in order. -/
def pins (spec : List (String × Toml)) : List ℕ := spec.filterMap fun entry => pinned entry.2

/-- No two specs pin the same port. -/
def PinsDistinct (spec : List (String × Toml)) : Prop := (pins spec).Nodup

instance (spec : List (String × Toml)) : Decidable (PinsDistinct spec) :=
  inferInstanceAs (Decidable (List.Nodup _))

private theorem pinned_eq_some {want : Toml} {port : ℕ} :
    pinned want = some port ↔ parsePortSpec want = .ok (some (.range port port)) := by
  unfold pinned
  constructor
  · intro h
    split at h
    next low high hparse =>
      split_ifs at h with heq
      obtain rfl := Option.some.inj h
      rw [hparse, heq]
    next => cases h
  · intro h
    simp only [h, if_true]

/-- The turn of a name: the families found, and the names before it served. -/
def Turn (k : Kernel) (spec : List (String × Toml)) (entry : String × Toml) (lead : Family)
    (rest : List Family) (batch : Batch) (s : Probes) : Prop :=
  ∃ before after s₀, spec = before ++ entry :: after ∧
    outcome (loopbacks k knownLoopbacks) {} = (.ok (lead :: rest), s₀) ∧
    outcome (before.foldlM (serve k lead rest) {}) s₀ = (.ok batch, s)

/-- Others hold the port on some loopback family while the call goes on. -/
def Held (k : Kernel) (time port : ℕ) : Prop :=
  ∃ families s₀, outcome (loopbacks k knownLoopbacks) {} = (.ok families, s₀) ∧
    ∃ family ∈ families, k.Busy time family port

/-- A port is refused as in use only if others hold it. -/
def OutsidersOnly (k : Kernel) (spec : List (String × Toml)) : Prop :=
  ∀ name port s, outcome (allocatePorts k spec) {} = (.error (.port (.inUse name port)), s) →
    Held k s.clock port

/-- When its turn comes, whether a pinned port is refused depends on the others alone. -/
def Impartial (k : Kernel) (spec : List (String × Toml)) : Prop :=
  ∀ name want port lead rest batch s, pinned want = some port →
    Turn k spec (name, want) lead rest batch s →
      ((∃ s', outcome (serve k lead rest batch (name, want)) s =
          (.error (.port (.inUse name port)), s')) ↔
        ∃ family ∈ lead :: rest, k.taken 0 family port = true)

/-- When its turn comes, no name of the batch has been given a pinned port. -/
def Unforestalled (k : Kernel) (spec : List (String × Toml)) : Prop :=
  ∀ name want port lead rest batch s, pinned want = some port →
    Turn k spec (name, want) lead rest batch s → port ∉ batch.allocated.map Prod.snd

private theorem checkFixed_keys {name : String} {fixed fixed' : List (ℕ × String)} {want : Toml}
    {range : PortRange} (hparse : parsePortSpec want = .ok (some range))
    (h : checkFixed name fixed range = .ok fixed') :
    fixed'.map Prod.fst = (pinned want).toList ++ fixed.map Prod.fst := by
  cases range with
  | auto =>
      obtain rfl := Except.ok.inj h
      simp [pinned, hparse]
  | range low high =>
      rw [checkFixed] at h
      split_ifs at h with heq
      · subst heq
        rw [pinned_eq_some.mpr hparse]
        cases hlookup : fixed.lookup low with
        | some other => rw [hlookup] at h; cases h
        | none => rw [hlookup] at h; cases h; rfl
      · obtain rfl := Except.ok.inj h
        simp [pinned, hparse, heq]

private theorem pins_append_cons (before after : List (String × Toml)) (entry : String × Toml) :
    pins (before ++ entry :: after) = pins before ++ ((pinned entry.2).toList ++ pins after) := by
  rw [pins, List.filterMap_append, ← List.singleton_append, List.filterMap_append]
  cases h : pinned entry.2 <;> simp [pins, h]

/-- The state of the loop, with the ports that the names so far pin. -/
def Tracked (k : Kernel) (lead : Family) (rest : List Family) (before : List (String × Toml))
    (batch : Batch) (s : Probes) : Prop :=
  Sound k lead rest (batch.allocated.map Prod.snd) s ∧
    batch.fixed.map Prod.fst = (pins before).reverse

private theorem wp_tracked (hfound : Found k lead rest) (before : List (String × Toml))
    (entry : String × Toml) (batch : Batch) (s : Probes) (h : Tracked k lead rest before batch s) :
    wp (serve k lead rest batch entry) (Tracked k lead rest (before ++ [entry]))
      (fun _ _ => True) s := by
  refine wp_mono (wp_serve hfound h.1 entry.1 entry.2) ?_ (fun _ _ _ => trivial)
  rintro ⟨allocated, fixed⟩ s' ⟨-, port, range, rfl, hparse, hcheck, hsound, -⟩
  refine ⟨?_, ?_⟩
  · rw [List.map_append]
    exact hsound
  · rw [checkFixed_keys hparse hcheck, h.2, pins_append_cons, List.reverse_append]
    cases pinned entry.2 <;> simp [pins]

/-- The sockets of the names before, and what they pin: when the turn of a pinned port comes, it
is none of that. -/
theorem Turn.sound {spec : List (String × Toml)} {entry : String × Toml} {batch : Batch}
    (h : Turn k spec entry lead rest batch s) :
    Found k lead rest ∧ Sound k lead rest (batch.allocated.map Prod.snd) s ∧
      (PinsDistinct spec → ∀ port, pinned entry.2 = some port →
        batch.fixed.lookup port = none) := by
  obtain ⟨before, after, s₀, rfl, hloop, hbefore⟩ := h
  obtain ⟨hsub, hsupports, hopened, hholds⟩ := of_wp_ok (wp_loopbacks knownLoopbacks) hloop
  have hfound : Found k lead rest := ⟨hsupports, hsub.nodup (by decide)⟩
  have hstart : Tracked k lead rest [] {} s₀ :=
    ⟨sound_nil (by rw [hopened, hholds]) hopened, rfl⟩
  have hdone := of_wp_ok (wp_foldlM (wp_tracked hfound) hstart) hbefore
  refine ⟨hfound, hdone.1, fun hpins port hport => ?_⟩
  rw [PinsDistinct, pins_append_cons, hport] at hpins
  rw [List.lookup_eq_none_iff]
  rintro ⟨pin, name⟩ hentry
  rw [bne_iff_ne]
  rintro rfl
  have hmem : port ∈ pins before := by
    have hkeys := List.mem_map_of_mem (f := Prod.fst) hentry
    rwa [hdone.2, List.mem_reverse] at hkeys
  exact (List.nodup_append.mp hpins).2.2 port hmem port (List.mem_append_left _ (.head _)) rfl

/-- The turn of a pinned port that no earlier name pins: it is given where nobody holds it, and
refused where the batch or the others do. -/
theorem wp_serve_pinned (hfound : Found k lead rest) {batch : Batch}
    (h : Sound k lead rest (batch.allocated.map Prod.snd) s) (name : String) {want : Toml}
    {port : ℕ} (hport : pinned want = some port) (hfixed : batch.fixed.lookup port = none) :
    wp (serve k lead rest batch (name, want))
      (fun _ s' => port ∉ batch.allocated.map Prod.snd ∧
        ∀ family ∈ lead :: rest, k.Free s'.clock family port)
      (fun e s' => e = .port (.inUse name port) ∧ (port ∈ batch.allocated.map Prod.snd ∨
        ∃ family ∈ lead :: rest, k.Busy s'.clock family port)) s := by
  have hparse := pinned_eq_some.mp hport
  have hpos : port ≠ 0 := Nat.one_le_iff_ne_zero.mp (parsePortSpec_bounds hparse).1
  simp only [serve, hparse, checkFixed, if_true, hfixed, wp_bind]
  refine wp_mono (wp_scan hfound h (port + 1 - port) hpos) ?_ (fun _ _ h => h.elim)
  rintro (_ | given) s' ⟨-, hresult⟩
  · obtain ⟨-, hall⟩ := hresult
    exact ⟨rfl, hall port le_rfl (by omega)⟩
  · obtain ⟨hsound, ⟨hlow, hhigh⟩, hfresh, -⟩ := hresult
    obtain rfl : given = port := by omega
    exact ⟨hfresh, fun family hfamily => (hsound.granted given (by simp) family hfamily).2⟩

/-- A port that the call refuses is refused in the turn of its name. -/
theorem turn_of_inUse {spec : List (String × Toml)} {name : String} {port : ℕ}
    (h : outcome (allocatePorts k spec) {} = (.error (.port (.inUse name port)), s)) :
    ∃ entry lead rest batch s₁ s₂, Turn k spec entry lead rest batch s₁ ∧
      outcome (serve k lead rest batch entry) s₁ = (.error (.port (.inUse name port)), s₂) ∧
      s.clock = s₂.clock := by
  unfold allocatePorts at h
  rw [outcome_bind] at h
  rcases hloop : outcome (loopbacks k knownLoopbacks) {} with ⟨e | families, s₀⟩
  · exact (of_wp_error (wp_loopbacks knownLoopbacks) hloop).elim
  · rw [hloop] at h
    cases families with
    | nil => cases h
    | cons lead rest =>
        dsimp only at h
        rw [outcome_bind, outcome_ensure] at h
        rcases hrun : outcome (spec.foldlM (serve k lead rest) {}) s₀ with ⟨e | batch, s₁⟩ <;>
          rw [hrun] at h
        · obtain ⟨rfl, rfl⟩ : e = .port (.inUse name port) ∧ s₁.closeHolds = s := by
            simpa using h
          obtain ⟨before, entry, after, batch, s₂, rfl, hbefore, herror⟩ :=
            foldlM_error_split hrun
          refine ⟨entry, lead, rest, batch, s₂, s₁, ⟨before, after, s₀, rfl, hloop, hbefore⟩,
            herror, ?_⟩
          rw [Probes.closeHolds, closeAll_eq]
        · cases h

/-- A turn that fails ends the call. -/
theorem Turn.fails {spec : List (String × Toml)} {entry : String × Toml} {batch : Batch}
    {e : Raised} (h : Turn k spec entry lead rest batch s)
    (herror : outcome (serve k lead rest batch entry) s = (.error e, s')) :
    outcome (allocatePorts k spec) {} = (.error e, s'.closeHolds) := by
  obtain ⟨before, after, s₀, rfl, hloop, hbefore⟩ := h
  unfold allocatePorts
  rw [outcome_bind, hloop]
  dsimp only
  rw [outcome_bind, outcome_ensure, foldlM_error_of_split hbefore herror]

/-- A pinned port that no earlier name was given is refused only where others hold it. -/
theorem Unforestalled.outsidersOnly {spec : List (String × Toml)} (h : Unforestalled k spec) :
    OutsidersOnly k spec := by
  intro name port s hrun
  obtain ⟨⟨name', want⟩, lead, rest, batch, s₁, s₂, hturn, herror, hclock⟩ := turn_of_inUse hrun
  obtain ⟨hfound, hsound, -⟩ := hturn.sound
  obtain ⟨-, -, hreason⟩ := of_wp_error (wp_serve hfound hsound name' want) herror
  obtain ⟨rfl, hparse, hgiven | hbusy⟩ := hreason name port rfl
  · exact absurd hgiven (h name want port lead rest batch s₁ (pinned_eq_some.mpr hparse) hturn)
  · obtain ⟨before, after, s₀, -, hloop, -⟩ := hturn
    exact ⟨lead :: rest, s₀, hloop, hclock ▸ hbusy⟩

/-- What was free at one `bind` call is free, as long as the others hold the same ports. -/
theorem Kernel.Free.steady {time port : ℕ} {family : Family} (h : k.Free time family port)
    (hsteady : k.Steady) : k.taken 0 family port = false := by
  obtain ⟨t, -, hfree⟩ := h
  rwa [hsteady t] at hfree

private theorem Kernel.Busy.steady {time port : ℕ} {family : Family} (h : k.Busy time family port)
    (hsteady : k.Steady) : k.taken 0 family port = true := by
  obtain ⟨t, -, hbusy⟩ := h
  rwa [hsteady t] at hbusy

private theorem Unforestalled.impartial {spec : List (String × Toml)} (h : Unforestalled k spec)
    (hpins : PinsDistinct spec) (hsteady : k.Steady) : Impartial k spec := by
  intro name want port lead rest batch s hport hturn
  obtain ⟨hfound, hsound, hfixed⟩ := hturn.sound
  have hserve := wp_serve_pinned hfound hsound name hport (hfixed hpins port hport)
  constructor
  · rintro ⟨s', herror⟩
    obtain ⟨-, hgiven | ⟨family, hfamily, hbusy⟩⟩ := of_wp_error hserve herror
    · exact absurd hgiven (h name want port lead rest batch s hport hturn)
    · exact ⟨family, hfamily, hbusy.steady hsteady⟩
  · rintro ⟨family, hfamily, htaken⟩
    rcases hrun : outcome (serve k lead rest batch (name, want)) s with ⟨e | batch', s'⟩
    · obtain ⟨rfl, -⟩ := of_wp_error hserve hrun
      exact ⟨s', rfl⟩
    · obtain ⟨-, hfree⟩ := of_wp_ok hserve hrun
      rw [(hfree family hfamily).steady hsteady] at htaken
      cases htaken

/-- A pinned port that an earlier name was given is refused, and nobody else holds it. -/
theorem OutsidersOnly.unforestalled {spec : List (String × Toml)} (h : OutsidersOnly k spec)
    (hpins : PinsDistinct spec) (hsteady : k.Steady) : Unforestalled k spec := by
  intro name want port lead rest batch s hport hturn hgiven
  obtain ⟨hfound, hsound, hfixed⟩ := hturn.sound
  have hserve := wp_serve_pinned hfound hsound name hport (hfixed hpins port hport)
  rcases hrun : outcome (serve k lead rest batch (name, want)) s with ⟨e | batch', s'⟩
  · obtain ⟨rfl, -⟩ := of_wp_error hserve hrun
    obtain ⟨families, s₀, hloop, family, hfamily, hbusy⟩ := h name port _ (hturn.fails hrun)
    obtain ⟨-, -, s₀', -, hloop', -⟩ := hturn
    obtain rfl : families = lead :: rest := by
      have heq := hloop.symm.trans hloop'
      exact Except.ok.inj (Prod.mk.inj heq).1
    have hfree := (hsound.granted port hgiven family hfamily).2.steady hsteady
    exact Bool.false_ne_true (hfree.symm.trans (hbusy.steady hsteady))
  · exact (of_wp_ok hserve hrun).1 hgiven

/-- A host on which nobody else holds a port; it picks the first one left from 49152 on. -/
def quietKernel : Kernel where
  supports _ := true
  taken _ _ _ := false
  pick _ family opened :=
    (List.range' 49152 1024).find? fun port => decide (⟨family, port⟩ ∉ opened)
  pick_range {_ _ _ port} h := by
    have hmem := List.mem_range'_1.mp (List.mem_of_find?_eq_some h)
    omega
  pick_taken _ := rfl
  pick_opened {_ family opened port} h := by
    have hopened := List.find?_some (p := fun port => decide (⟨family, port⟩ ∉ opened)) h
    exact of_decide_eq_true hopened

private theorem quietKernel_steady : quietKernel.Steady := fun _ => rfl

end Jetty.Orchestrator.Ports

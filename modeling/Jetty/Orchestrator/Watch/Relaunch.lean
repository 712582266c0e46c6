import Jetty.Orchestrator.Watch.Changes
import Jetty.Orchestrator.Watch.Timeline

/-!
# Relaunches and missed changes

The path watcher relaunches only at a poll that finds all paths, as the poll before found them and
otherwise than the baseline. It compares with what it found when it started, which is after the
process was created: a change in between is not seen by any poll.
-/

namespace Jetty.Orchestrator.Watch

open Transition Service

namespace Timeline

variable {c : ServiceSetup} {o : NameOrder} {digest : Bytes → String}

/-- A step relaunches only at a poll that finds all paths present, as at the poll before, and not
as in the baseline. -/
def Cautious (T : Timeline) (m : Moment) (T' : Timeline) : Prop :=
  T.relaunched = false → T'.relaunched = true →
    ∃ current φ, m = .service (.pathWoke current φ) ∧ Scan.Present current ∧
      T.polls.head? = some current ∧ current ≠ T.service.baseline

/-- After two polls alike that found all paths, without a relaunch, the paths are as they were when
the process was created. -/
def Complete (T : Timeline) : Prop :=
  ∀ current rest, T.polls = current :: current :: rest → current.Present →
    T.relaunched = false → current = T.launched

/-- A baseline with all paths in it is that of the launch, and neither the note of a change nor
the sweep after it raises. -/
def Timely (T : Timeline) : Moment → Prop
  | .service (.pathStarted scan _ _) => Scan.Present scan → scan = T.launched
  | .service (.pathWoke current φ) => T.service.Fires current → T.service.Notes φ
  | _ => True

instance (T : Timeline) (m : Moment) : Decidable (T.Timely m) := by
  unfold Timely
  split <;> infer_instance

/-- What a moment does to the watcher and to what the timeline remembers. -/
inductive Effect (T : Timeline) : Moment → Timeline → Prop
  | moved {files : Files} : Effect T (.move files) { T with files := files }
  /-- A process is created. -/
  | launched {e : RunEvent} {φ : Option Fault} {s : Service} {scan : Scan} :
      T.service.run = .rendering → s.pathWatch = T.service.pathWatch →
      Effect T (.service (.run e φ))
        { T with service := s, launched := scan, polls := [], relaunched := false }
  /-- The watcher is at most created or cancelled. -/
  | apart {e : Event} {s : Service} : (∀ i, s.run = .creating i → T.service.run = .creating i) →
      (s.pathWatch = T.service.pathWatch ∨ s.pathWatch = cancelled T.service.pathWatch ∨
        (∃ i, T.service.run = .creating i) ∧ (s.pathWatch = .absent ∨ s.pathWatch = .created)) →
      SameScans T.service s → Effect T (.service e) { T with service := s }
  | started {scan : Scan} {wide : Bool} {φ : Option Fault} {s : Service} {paths : List String} :
      T.service.pathWatch = .created →
      s.pathWatch = .died ∨ s = { T.service with baseline := scan, previous := scan,
                                                 pathWatch := .sleeping } →
      (∀ i, s.run = .creating i → T.service.run = .creating i) →
      Effect T (.service (.pathStarted scan wide φ)) { T with service := s, paths := paths }
  /-- The watcher ends without a poll. -/
  | ended {e : Event} {s : Service} : T.service.pathWatch.over = false → s.pathWatch.over = true →
      (∀ i, s.run = .creating i → T.service.run = .creating i) →
      Effect T (.service e) { T with service := s }
  | polled {current : Scan} {φ : Option Fault} {s : Service} : T.service.pathWatch = .sleeping →
      PollEffect current φ T.service s → T.service.Polls φ →
      (∀ i, s.run = .creating i → T.service.run = .creating i) →
      Effect T (.service (.pathWoke current φ))
        { T with service := s, polls := current :: T.polls,
                 relaunched := decide (s.pathWatch = .terminating) }

private theorem record_of_bystander {T : Timeline} {e : Event} {s : Service}
    (he : e.bystander = true) : T.record o digest e s = { T with service := s } := by
  cases e <;> first | rfl | cases he

private theorem record_service {T : Timeline} {e : Event} {s : Service} :
    (T.record o digest e s).service = s := by
  unfold record
  split
  · split <;> rfl
  · rfl
  · split <;> rfl
  · rfl

/-- Only the run loop creates a process. -/
theorem creating_of_aside {s t : Service} {e : Event} (h : Aside s e t) (i : ℕ)
    (hi : t.run = .creating i) : s.run = .creating i := by
  rcases h.run with hrun | ⟨-, hrun, -⟩
  · exact hrun ▸ hi
  · rw [hrun] at hi
    cases hi

private theorem Steps.effect {T T' : Timeline} {m : Moment} (hst : Steps c o digest T m T') :
    Effect T m T' := by
  cases m with
  | move files =>
      obtain rfl := Option.some.inj hst
      exact .moved
  | service e =>
      rw [Steps, ofPartial, step, Option.ite_none_right_eq_some] at hst
      obtain ⟨-, hst⟩ := hst
      obtain ⟨s, hs, rfl⟩ := Option.map_eq_some_iff.mp hst
      by_cases he : e.bystander = true
      · rw [record_of_bystander he]
        obtain ⟨hpath, hscans⟩ := step_scans he hs
        have haside := step_aside hs (Event.ne_run_of_bystander he)
        exact .apart (creating_of_aside haside) (hpath.imp_right .inl) hscans
      cases e with
      | run e φ =>
          simp only [Service.step] at hs
          have heffect := runStep_effect hs
          simp only [record]
          rcases heffect.forks with ⟨hspawned, hcreating⟩ | ⟨hrun, hspawned, hpath⟩
          · rw [if_neg (by omega)]
            exact .apart (fun i hi => absurd hi (hcreating i)) heffect.pathWatch heffect.scans
          · rw [if_pos hspawned]
            exact .launched hrun hpath
      | pathStarted scan wide φ =>
          simp only [Service.step] at hs
          obtain ⟨hcreated, hstarted⟩ := pathStarted_effect hs
          exact .started hcreated hstarted (creating_of_aside (pathStep_aside hs))
      | pathWoke current φ =>
          simp only [Service.step] at hs
          obtain ⟨hsleep, hpoll⟩ := pathWoke_effect hs
          have hcreating := creating_of_aside (pathStep_aside hs)
          simp only [record]
          split
          · exact .polled hsleep hpoll ‹_› hcreating
          · rename_i hnone
            refine .ended (by rw [hsleep]; rfl) ?_ hcreating
            cases hpoll with
            | ended _ hover => rcases hover with hover | hover <;> rw [hover] <;> rfl
            | quiet hpolls | relaunches hpolls | dies hpolls => exact absurd hpolls hnone
      | pathTerminated timeout φ =>
          simp only [Service.step] at hs
          obtain ⟨hterminating, hended⟩ := pathTerminated_effect hs
          refine .ended (by rw [hterminating]; rfl) ?_ (creating_of_aside (pathStep_aside hs))
          rcases hended with hended | hended <;> rw [hended] <;> rfl
      | _ => exact absurd rfl he

private theorem Steps.unwatched {T T' : Timeline} {m : Moment} (hst : Steps c o digest T m T')
    (h : Unwatched T.service) : Unwatched T'.service := by
  cases m with
  | move files =>
      obtain rfl := Option.some.inj hst
      exact h
  | service e =>
      rw [Steps, ofPartial, step, Option.ite_none_right_eq_some] at hst
      obtain ⟨-, hst⟩ := hst
      obtain ⟨s, hs, rfl⟩ := Option.map_eq_some_iff.mp hst
      rw [record_service]
      exact h.of_step hs

/-- What the watcher remembers of its polls. -/
structure Kept (T : Timeline) : Prop where
  unwatched : Unwatched T.service
  creating : ∀ i, T.service.run = .creating i → T.polls = [] ∧ T.relaunched = false
  created : T.service.pathWatch = .created → T.polls = [] ∧ T.relaunched = false
  sleeping : T.service.pathWatch = .sleeping →
    T.relaunched = false ∧ T.service.previous = T.polls.headD T.service.baseline

private theorem kept_init (files : Files) : Kept { files := files } where
  unwatched := Unwatched.init
  creating _ h := by cases h
  created h := by cases h
  sleeping h := by cases h

private theorem cancelled_ne {w w' : WatchPc} (h : w'.over = false) : cancelled w ≠ w' := by
  rintro rfl
  rw [over_cancelled] at h
  cases h

/-- A watcher that is up is not beside a process that is being created. -/
theorem Kept.not_creating {T : Timeline} (h : Kept T) (hup : T.service.pathWatch.over = false)
    (i : ℕ) : T.service.run ≠ .creating i := fun hrun => by
  have hover := h.unwatched (by rw [hrun]; rfl)
  rw [hup] at hover
  cases hover

private theorem Kept.step {T T' : Timeline} {m : Moment} (h : Kept T)
    (hst : Steps c o digest T m T') : Kept T' := by
  have hun := hst.unwatched h.unwatched
  cases hst.effect with
  | moved => exact { h with }
  | launched hrun hpath =>
      -- no watcher is up where the run loop renders
      have hover := h.unwatched (by rw [hrun]; rfl)
      rw [← hpath] at hover
      exact {
        unwatched := hun
        creating := fun _ _ => ⟨rfl, rfl⟩
        created := fun _ => ⟨rfl, rfl⟩
        sleeping := fun hsleep => by
          simp only at hsleep
          rw [hsleep] at hover
          cases hover }
  | apart hrun hpath hscans =>
      refine ⟨hun, fun i hi => h.creating i (hrun i hi), fun hcreated => ?_, fun hsleep => ?_⟩
      · rcases hpath with hpath | hpath | ⟨⟨i, hi⟩, -⟩
        · exact h.created (hpath ▸ hcreated)
        · exact absurd (hpath ▸ hcreated) (cancelled_ne rfl)
        · exact h.creating i hi
      · rcases hpath with hpath | hpath | ⟨-, hpath | hpath⟩
        · rw [hscans.1, hscans.2]
          exact h.sleeping (hpath ▸ hsleep)
        · exact absurd (hpath ▸ hsleep) (cancelled_ne rfl)
        · exact absurd (hpath ▸ hsleep) nofun
        · exact absurd (hpath ▸ hsleep) nofun
  | @started _ _ _ s _ hcreated hs hrun =>
      have hup : T.service.pathWatch.over = false := by rw [hcreated]; rfl
      have hcreating (i : ℕ) (hi : s.run = .creating i) := h.not_creating hup i (hrun i hi)
      refine ⟨hun, fun i hi => (hcreating i hi).elim, fun hc => ?_, fun hsl => ?_⟩
      · rcases hs with hs | rfl
        · exact absurd (hs ▸ hc) nofun
        · exact absurd hc nofun
      · rcases hs with hs | rfl
        · exact absurd (hs ▸ hsl) nofun
        · obtain ⟨hpolls, hrelaunched⟩ := h.created hcreated
          refine ⟨hrelaunched, ?_⟩
          simp only [hpolls, List.headD_nil]
  | @ended _ s hup hover hrun =>
      have hcreating (i : ℕ) (hi : s.run = .creating i) := h.not_creating hup i (hrun i hi)
      refine ⟨hun, fun i hi => (hcreating i hi).elim, fun hc => ?_, fun hsl => ?_⟩
      · exact absurd (hc ▸ hover) nofun
      · exact absurd (hsl ▸ hover) nofun
  | @polled _ _ s hsleep hpoll hpolls hrun =>
      have hup : T.service.pathWatch.over = false := by rw [hsleep]; rfl
      have hcreating (i : ℕ) (hi : s.run = .creating i) := h.not_creating hup i (hrun i hi)
      refine ⟨hun, fun i hi => (hcreating i hi).elim, fun hc => ?_, fun hsl => ?_⟩
      · rcases hpoll with ⟨hnone, -⟩ | ⟨-, -, rfl⟩ | ⟨-, -, rfl⟩ | ⟨-, -, -, hdied⟩
        · exact absurd hpolls hnone
        · exact absurd (hsleep.symm.trans hc) nofun
        · exact absurd hc nofun
        · exact absurd (hdied ▸ hc) nofun
      · refine ⟨decide_eq_false (hsl ▸ nofun), ?_⟩
        rcases hpoll with ⟨hnone, -⟩ | ⟨-, -, rfl⟩ | ⟨-, -, rfl⟩ | ⟨-, -, -, hdied⟩
        · exact absurd hpolls hnone
        · rfl
        · exact absurd hsl nofun
        · exact absurd (hdied ▸ hsl) nofun

/-- Only a poll relaunches, and only after the same find at the poll before. -/
theorem Kept.cautious {T T' : Timeline} {m : Moment} (h : Kept T)
    (hst : Steps c o digest T m T') : Cautious T m T' := by
  intro hbefore hafter
  have hsame {b : Bool} (hb : b = T.relaunched) : b ≠ true := by
    rw [hb, hbefore]
    exact nofun
  cases hst.effect with
  | moved | apart | started | ended => exact absurd hafter (hsame rfl)
  | launched => cases hafter
  | @polled current φ s hsleep hpoll hpolls hrun =>
      have hterminating : s.pathWatch = .terminating := of_decide_eq_true hafter
      rcases hpoll with ⟨hnone, -⟩ | ⟨-, -, rfl⟩ | ⟨-, hfires, rfl⟩ | ⟨-, -, -, hdied⟩
      · exact absurd hpolls hnone
      · exact absurd (hsleep.symm.trans hterminating) nofun
      · obtain ⟨hchanged, hpresent, hstill⟩ := hfires
        refine ⟨current, φ, rfl, hpresent, ?_, hchanged⟩
        -- without a poll before, the watcher compares with the baseline twice
        rw [(h.sleeping hsleep).2] at hstill
        cases hp : T.polls with
        | nil =>
            rw [hp, List.headD_nil] at hstill
            exact absurd hstill hchanged
        | cons poll polls =>
            rw [hp, List.headD_cons] at hstill
            rw [hstill, List.head?_cons]
      · exact absurd (hdied ▸ hterminating) nofun

/-- What the polls of a timely watcher say about the launch. -/
structure Informed (T : Timeline) : Prop where
  timely : T.service.pathWatch = .sleeping → Scan.Present T.service.baseline →
    T.service.baseline = T.launched
  complete : Complete T

private theorem informed_init (files : Files) : Informed { files := files } where
  timely h := by cases h
  complete _ _ h := by cases h

private theorem Informed.step {T T' : Timeline} {m : Moment} (h : Informed T) (hkept : Kept T)
    (htimely : Timely T m) (hst : Steps c o digest T m T') : Informed T' := by
  cases hst.effect with
  | moved => exact { h with }
  | launched hrun hpath =>
      have hover := hkept.unwatched (by rw [hrun]; rfl)
      refine ⟨fun hsleep => ?_, fun _ _ hpolls => absurd hpolls nofun⟩
      rw [← hpath, hsleep] at hover
      cases hover
  | apart hrun hpath hscans =>
      refine ⟨fun hsleep => ?_, h.complete⟩
      rcases hpath with hpath | hpath | ⟨-, hpath | hpath⟩
      · rw [hscans.1]
        exact h.timely (hpath ▸ hsleep)
      · exact absurd (hpath ▸ hsleep) (cancelled_ne rfl)
      · exact absurd (hpath ▸ hsleep) nofun
      · exact absurd (hpath ▸ hsleep) nofun
  | started hcreated hs hrun =>
      refine ⟨fun hsleep => ?_, h.complete⟩
      rcases hs with hs | rfl
      · exact absurd (hs ▸ hsleep) nofun
      · exact htimely
  | ended hup hover hrun => exact ⟨fun hsleep => absurd (hsleep ▸ hover) nofun, h.complete⟩
  | @polled current φ s hsleep hpoll hpolls hrun =>
      rcases hpoll with ⟨hnone, -⟩ | ⟨-, hquiet, rfl⟩ | ⟨-, -, rfl⟩ | ⟨-, hfires, hnotes, -⟩
      · exact absurd hpolls hnone
      · refine ⟨fun _ => h.timely hsleep, fun found rest hfound hpresent _ => ?_⟩
        obtain ⟨rfl, hpolls⟩ := List.cons_eq_cons.mp hfound
        have hstill : current = T.service.previous := by
          rw [(hkept.sleeping hsleep).2, hpolls, List.headD_cons]
        have hbaseline : current = T.service.baseline := by
          by_contra hchanged
          exact hquiet ⟨hchanged, hpresent, hstill⟩
        rw [hbaseline]
        exact h.timely hsleep (hbaseline ▸ hpresent)
      · refine ⟨fun hs => absurd hs nofun, fun _ _ _ _ hrelaunched => ?_⟩
        exact absurd hrelaunched nofun
      · exact absurd (htimely hfires) hnotes

private theorem kept_of_run {files : Files} {ms : List Moment} {T : Timeline}
    (h : Run (Steps c o digest) { files := files } ms T) : Kept T :=
  h.invariant Kept (kept_init files) fun _ _ _ hkept hst => hkept.step hst

/-- In every run the watcher relaunches with caution. In every run in which each baseline with all
paths in it is that of the launch, and neither the note of a change nor the sweep after it raises,
it misses no settled change. -/
theorem watcher_settles (files : Files) :
    (∀ ms T, Run (Steps c o digest) { files := files } ms T →
      ∀ m T', Steps c o digest T m T' → Cautious T m T') ∧
    ∀ ms T, Run ((Steps c o digest).within Timely) { files := files } ms T → Complete T := by
  refine ⟨fun ms T hrun m T' hst => (kept_of_run hrun).cautious hst, fun ms T hrun => ?_⟩
  have hboth : Kept T ∧ Informed T := by
    refine hrun.invariant (fun T => Kept T ∧ Informed T) ⟨kept_init files, informed_init files⟩ ?_
    rintro T m T' ⟨hkept, hinformed⟩ ⟨htimely, hst⟩
    exact ⟨hkept.step hst, hinformed.step hkept htimely hst⟩
  exact hboth.2.complete

/-- A poll that finds the baseline. -/
theorem step_baseline {T : Timeline} (hsleep : T.service.pathWatch = .sleeping)
    (hpolls : T.service.Polls none)
    (hfiles : T.service.baseline = scan o digest T.files T.paths) :
    step c o digest T (.service (.pathWoke T.service.baseline none)) =
      some { T with
        service := { T.service with previous := T.service.baseline }
        polls := T.service.baseline :: T.polls
        relaunched := false } := by
  have hservice : Service.step c T.service (.pathWoke T.service.baseline none) =
      some { T.service with previous := T.service.baseline } := by
    simp [Service.step, pathStep, hsleep, hpolls.1, hpolls.2.1]
  have hreads : T.Reads o digest (.pathWoke T.service.baseline none) := hfiles
  rw [step, if_pos hreads, hservice, Option.map_some, record, if_pos hpolls]
  simp [hsleep]

/-- A baseline that is late is never noticed while the files stay as they are. -/
theorem late_baseline_missed {T : Timeline} (hsleep : T.service.pathWatch = .sleeping)
    (hpolls : T.service.Polls none) (hpresent : Scan.Present T.service.baseline)
    (hfiles : T.service.baseline = scan o digest T.files T.paths)
    (hlate : T.service.baseline ≠ T.launched) :
    ∃ ms T', Run (Steps c o digest) T ms T' ∧ ¬Complete T' := by
  let T₁ : Timeline := { T with
    service := { T.service with previous := T.service.baseline }
    polls := T.service.baseline :: T.polls
    relaunched := false }
  have hfirst : Steps c o digest T (.service (.pathWoke T.service.baseline none)) T₁ :=
    step_baseline hsleep hpolls hfiles
  have hsecond : Steps c o digest T₁ (.service (.pathWoke T.service.baseline none))
      { T₁ with polls := T.service.baseline :: T₁.polls } :=
    step_baseline (T := T₁) hsleep hpolls hfiles
  refine ⟨_, _, Run.cons hfirst (Run.single hsecond), fun hcomplete => ?_⟩
  exact hlate (hcomplete _ _ rfl hpresent rfl)

section Runs

/-- Every path leads to a file with this inode. -/
def built (ino : ℕ) : Files := fun _ => .file ⟨ino, 0, 0⟩

/-- A service that watches one path comes up. -/
def comesUp : List Moment :=
  [.service (.run .begin none),
    .service (.run (.rendered (.ok { cmd := ["app"], watch := ["app"] } (some 100)) 0) none),
    .service (.run (.connected true false 0) none)]

/-- The watcher starts, and polls twice. -/
def pollsTwice (scan : Scan) : List Moment :=
  [.service (.pathStarted scan false none), .service (.pathWoke scan none),
    .service (.pathWoke scan none)]

/-- Two polls of a file that stays as it is. -/
theorem watcher_settles_quiet :
    ∃ T, Run ((Steps {} byteOrder asText).within Timely) { files := built 1 }
        (comesUp ++ pollsTwice [some (.file 1 0 0)]) T ∧
      T.polls = [[some (.file 1 0 0)], [some (.file 1 0 0)]] ∧ Complete T := by
  obtain ⟨T, hrun, hpolls⟩ := exists_run_of_execWithin (step {} byteOrder asText) Timely
    { files := built 1 } (comesUp ++ pollsTwice [some (.file 1 0 0)])
    (fun T => decide (T.polls = [[some (.file 1 0 0)], [some (.file 1 0 0)]])) (by decide +kernel)
  exact ⟨T, hrun, of_decide_eq_true hpolls, (watcher_settles (built 1)).2 _ T hrun⟩

/-- The file is replaced before the watcher starts. -/
theorem rebuild_missed :
    ¬∀ ms T, Run (Steps {} byteOrder asText) { files := built 1 } ms T → Complete T := by
  intro h
  let missed (T : Timeline) : Prop :=
    T.polls = [[some (.file 2 0 0)], [some (.file 2 0 0)]] ∧ T.relaunched = false ∧
      T.launched = [some (.file 1 0 0)]
  obtain ⟨T, hrun, hmissed⟩ := exists_run_of_exec (step {} byteOrder asText) { files := built 1 }
    (comesUp ++ .move (built 2) :: pollsTwice [some (.file 2 0 0)])
    (fun T => decide (missed T)) (by decide +kernel)
  obtain ⟨hpolls, hrelaunched, hlaunched⟩ := of_decide_eq_true hmissed
  have hsame := h _ T hrun _ _ hpolls (by decide) hrelaunched
  rw [hlaunched] at hsame
  revert hsame
  decide

end Runs

end Timeline

end Jetty.Orchestrator.Watch

import Mathlib.Data.List.Basic
import Mathlib.Data.List.Nodup

/-!
# Process tables with sessions and process groups

Ids are handed out to new processes once no process, session or process group uses them any
more. Sessions and groups come from `setsid` and `setpgid` and are inherited by children. The
origin of a process is a ghost: children inherit it, and nothing of the table depends on it.
-/

namespace Processes

variable {τ : Type*}

/-- An entry of the table: a process or, until it is reaped, a zombie. -/
structure Proc (τ : Type*) where
  pid : ℕ
  sid : ℕ
  pgid : ℕ
  zombie : Bool := false
  /-- A `SIGTERM` does not end the process. -/
  ignoresTerm : Bool := false
  /-- The process gets a `SIGTERM` when its parent dies; children do not inherit it. -/
  deathsig : Bool := false
  /-- Still in the session that its ancestor was spawned into. -/
  native : Bool := false
  /-- Where the process descends from. -/
  origin : τ

/-- What the rules for sessions and groups keep true of a table. -/
structure WellFormed (l : List (Proc τ)) : Prop where
  nodup : (l.map Proc.pid).Nodup
  /-- The id of a session is only ever the pid of its leader. -/
  session_leader : ∀ p ∈ l, ∀ r ∈ l, r.sid = p.pid → p.sid = p.pid
  leader_group : ∀ p ∈ l, p.sid = p.pid → p.pgid = p.pid
  /-- The id of a group is only ever the pid of a process of the same session. -/
  group_leader : ∀ p ∈ l, ∀ r ∈ l, r.pgid = p.pid → r.sid = p.sid
  group_session : ∀ p ∈ l, ∀ r ∈ l, p.pgid = r.pgid → p.sid = r.sid
  /-- A session has one origin. -/
  origin : ∀ p ∈ l, ∀ r ∈ l, p.sid = r.sid → p.origin = r.origin

/-- A process table. -/
structure Table (τ : Type*) where
  procs : List (Proc τ)
  wf : WellFormed procs

/-- The id names a process, a session or a group of the list. -/
def used (l : List (Proc τ)) (n : ℕ) : Bool :=
  l.any fun p => p.pid == n || p.sid == n || p.pgid == n

private theorem used_eq_false {l : List (Proc τ)} {n : ℕ} (h : used l n = false) :
    ∀ p ∈ l, p.pid ≠ n ∧ p.sid ≠ n ∧ p.pgid ≠ n := by
  intro p hp
  have hn := List.any_eq_false.mp h p hp
  simp only [Bool.or_eq_true, beq_iff_eq, not_or] at hn
  exact ⟨hn.1.1, hn.1.2, hn.2⟩

/-- A pid names one entry. -/
theorem WellFormed.eq_of_pid {l : List (Proc τ)} (h : WellFormed l) {p r : Proc τ} (hp : p ∈ l)
    (hr : r ∈ l) (hpr : p.pid = r.pid) : p = r :=
  List.inj_on_of_nodup_map h.nodup hp hr hpr

/-- A process with a new id: the child of a process of the table, or the leader of a session
of its own. -/
theorem WellFormed.cons {l : List (Proc τ)} (h : WellFormed l) {c : Proc τ}
    (hfree : used l c.pid = false)
    (hids : (∃ p ∈ l, c.sid = p.sid ∧ c.pgid = p.pgid ∧ c.origin = p.origin) ∨
      c.sid = c.pid ∧ c.pgid = c.pid) : WellFormed (c :: l) := by
  have hnew := used_eq_false hfree
  constructor
  · refine List.nodup_cons.mpr ⟨fun hc => ?_, h.nodup⟩
    obtain ⟨p, hp, hpid⟩ := List.mem_map.mp hc
    exact (hnew p hp).1 hpid
  all_goals simp only [List.forall_mem_cons]
  · grind [h.session_leader]
  · grind [h.leader_group]
  · grind [h.group_leader]
  · grind [h.group_session]
  · grind [h.origin]

private theorem map_pids {l : List (Proc τ)} {f : Proc τ → Proc τ}
    (hpid : ∀ p, (f p).pid = p.pid) : (l.map f).map Proc.pid = l.map Proc.pid := by
  rw [List.map_map]
  exact List.map_congr_left fun p _ => hpid p

/-- Changes that leave ids, sessions, groups and origins alone. -/
theorem WellFormed.map {l : List (Proc τ)} (h : WellFormed l) {f : Proc τ → Proc τ}
    (hf : ∀ p, (f p).pid = p.pid ∧ (f p).sid = p.sid ∧ (f p).pgid = p.pgid ∧
      (f p).origin = p.origin) : WellFormed (l.map f) := by
  have hpid : ∀ p, (f p).pid = p.pid := fun p => (hf p).1
  have hsid : ∀ p, (f p).sid = p.sid := fun p => (hf p).2.1
  have hpgid : ∀ p, (f p).pgid = p.pgid := fun p => (hf p).2.2.1
  have horigin : ∀ p, (f p).origin = p.origin := fun p => (hf p).2.2.2
  constructor
  · rw [map_pids hpid]
    exact h.nodup
  all_goals simp only [List.forall_mem_map, hpid, hsid, hpgid, horigin]
  · exact h.session_leader
  · exact h.leader_group
  · exact h.group_leader
  · exact h.group_session
  · exact h.origin

private theorem WellFormed.filter {l : List (Proc τ)} (h : WellFormed l) (keep : Proc τ → Bool) :
    WellFormed (l.filter keep) := by
  have hsub : ∀ p ∈ l.filter keep, p ∈ l := fun p hp => (List.mem_filter.mp hp).1
  exact {
    nodup := h.nodup.sublist (List.filter_sublist.map _)
    session_leader := fun p hp r hr => h.session_leader p (hsub p hp) r (hsub r hr)
    leader_group := fun p hp => h.leader_group p (hsub p hp)
    group_leader := fun p hp r hr => h.group_leader p (hsub p hp) r (hsub r hr)
    group_session := fun p hp r hr => h.group_session p (hsub p hp) r (hsub r hr)
    origin := fun p hp r hr => h.origin p (hsub p hp) r (hsub r hr) }

/-- The entry of the pid `q` changes its session and group. -/
def assign (q sid pgid : ℕ) (native : Bool) (p : Proc τ) : Proc τ :=
  if p.pid = q then { p with sid := sid, pgid := pgid, native := p.native && native } else p

@[simp] theorem assign_pid (q sid pgid : ℕ) (native : Bool) (p : Proc τ) :
    (assign q sid pgid native p).pid = p.pid := by
  unfold assign
  split <;> rfl

@[simp] theorem assign_origin (q sid pgid : ℕ) (native : Bool) (p : Proc τ) :
    (assign q sid pgid native p).origin = p.origin := by
  unfold assign
  split <;> rfl

/-- Where an entry comes from if one entry has changed its session and group. -/
theorem mem_map_assign {l : List (Proc τ)} {q sid pgid : ℕ} {native : Bool} {p : Proc τ}
    (hp : p ∈ l.map (assign q sid pgid native)) :
    ∃ r ∈ l, p.pid = r.pid ∧ p.zombie = r.zombie ∧ p.origin = r.origin ∧
      (r.pid = q ∧ p.sid = sid ∧ p.pgid = pgid ∧ p.native = (r.native && native) ∨
        r.pid ≠ q ∧ p.sid = r.sid ∧ p.pgid = r.pgid ∧ p.native = r.native) := by
  obtain ⟨r, hr, rfl⟩ := List.mem_map.mp hp
  refine ⟨r, hr, assign_pid _ _ _ _ r, ?_, assign_origin _ _ _ _ r, ?_⟩
  · unfold assign
    split <;> rfl
  · unfold assign
    split
    · rename_i hq
      exact .inl ⟨hq, rfl, rfl, rfl⟩
    · rename_i hq
      exact .inr ⟨hq, rfl, rfl, rfl⟩

/-- `setsid`: a process that leads no group becomes the leader of a new session. -/
theorem WellFormed.setsid {l : List (Proc τ)} (h : WellFormed l) {q : ℕ}
    (hguard : ∀ r ∈ l, r.pgid ≠ q) : WellFormed (l.map (assign q q q false)) := by
  constructor
  · rw [map_pids fun p => assign_pid q q q false p]
    exact h.nodup
  all_goals simp only [List.forall_mem_map, assign_pid, assign_origin]
  all_goals simp only [assign]
  · grind [h.session_leader]
  · grind [h.leader_group]
  · grind [h.group_leader]
  · grind [h.group_session]
  · grind [h.origin, h.session_leader, h.leader_group, h.eq_of_pid]

/-- `setpgid`: a process other than a session leader joins a group of its session, or founds
one. -/
theorem WellFormed.setpgid {l : List (Proc τ)} (h : WellFormed l) {p : Proc τ} (hp : p ∈ l)
    (hleader : p.sid ≠ p.pid) {g : ℕ}
    (hguard : g = p.pid ∨ ∃ r ∈ l, r.pgid = g ∧ r.sid = p.sid) :
    WellFormed (l.map (assign p.pid p.sid g true)) := by
  have hsid : ∀ r ∈ l, (assign p.pid p.sid g true r).sid = r.sid := by
    intro r hr
    unfold assign
    split
    · rename_i heq
      rw [h.eq_of_pid hr hp heq]
    · rfl
  have hgroup : ∀ r ∈ l, r.pgid = g → r.sid = p.sid := by
    intro r hr hg
    rcases hguard with rfl | ⟨m, hm, hmg, hms⟩
    · exact h.group_leader p hp r hr hg
    · rw [h.group_session r hr m hm (hg.trans hmg.symm), hms]
  have hfounder : ∀ r ∈ l, r.pid = g → r.sid = p.sid := by
    intro r hr hg
    rcases hguard with rfl | ⟨m, hm, hmg, hms⟩
    · rw [h.eq_of_pid hr hp hg]
    · rw [← h.group_leader r hr m hm (hmg.trans hg.symm), hms]
  constructor
  · rw [map_pids fun r => assign_pid p.pid p.sid g true r]
    exact h.nodup
  all_goals simp only [List.forall_mem_map, assign_pid, assign_origin]
  · intro r hr x hx
    rw [hsid r hr, hsid x hx]
    exact h.session_leader r hr x hx
  · intro r hr
    rw [hsid r hr]
    simp only [assign]
    grind [h.leader_group, h.eq_of_pid]
  · intro r hr x hx
    rw [hsid r hr, hsid x hx]
    simp only [assign]
    grind [h.group_leader, h.eq_of_pid]
  · intro r hr x hx
    rw [hsid r hr, hsid x hx]
    simp only [assign]
    grind [h.group_session, h.eq_of_pid]
  · intro r hr x hx
    rw [hsid r hr, hsid x hx]
    exact h.origin r hr x hx

namespace Table

/-- The process of a pid, unless it is a zombie. -/
def running (K : Table τ) (q : ℕ) : Option {p // p ∈ K.procs} :=
  K.procs.attach.find? fun p => p.1.pid == q && !p.1.zombie

private theorem running_some {K : Table τ} {q : ℕ} {p : {p // p ∈ K.procs}}
    (h : K.running q = some p) : p.1.pid = q ∧ p.1.zombie = false := by
  have hp := List.find?_some h
  simpa only [Bool.and_eq_true, beq_iff_eq, Bool.not_eq_true'] using hp

def fork (K : Table τ) (p : {p // p ∈ K.procs}) (child : ℕ)
    (h : used K.procs child = false) : Table τ where
  procs := { p.1 with pid := child, deathsig := false } :: K.procs
  wf := K.wf.cons h (.inl ⟨p.1, p.2, rfl, rfl, rfl⟩)

/-- A child that is the leader of a session of its own from the start. -/
def spawn (K : Table τ) (pid : ℕ) (origin : τ) (h : used K.procs pid = false) : Table τ where
  procs := { pid := pid, sid := pid, pgid := pid, deathsig := true, native := true,
             origin := origin } :: K.procs
  wf := K.wf.cons h (.inr ⟨rfl, rfl⟩)

def setsid (K : Table τ) (q : ℕ) (h : ∀ r ∈ K.procs, r.pgid ≠ q) : Table τ where
  procs := K.procs.map (assign q q q false)
  wf := K.wf.setsid h

def setpgid (K : Table τ) (p : {p // p ∈ K.procs}) (g : ℕ)
    (h : p.1.sid ≠ p.1.pid ∧ (g = p.1.pid ∨ ∃ r ∈ K.procs, r.pgid = g ∧ r.sid = p.1.sid)) :
    Table τ where
  procs := K.procs.map (assign p.1.pid p.1.sid g true)
  wf := K.wf.setpgid p.2 h.1 h.2

/-- The processes that meet a test end. -/
def kill (K : Table τ) (test : Proc τ → Bool) : Table τ where
  procs := K.procs.map fun p => { p with zombie := p.zombie || test p }
  wf := K.wf.map fun _ => ⟨rfl, rfl, rfl, rfl⟩

/-- A process changes what a `SIGTERM` does to it. -/
def mask (K : Table τ) (q : ℕ) (ignore : Bool) : Table τ where
  procs := K.procs.map fun p =>
    { p with ignoresTerm := if p.pid = q then ignore else p.ignoresTerm }
  wf := K.wf.map fun _ => ⟨rfl, rfl, rfl, rfl⟩

/-- The zombie of a pid disappears. -/
def reap (K : Table τ) (q : ℕ) : Table τ where
  procs := K.procs.filter fun p => !(p.pid == q && p.zombie)
  wf := K.wf.filter _

end Table

/-- What processes do on their own account. -/
inductive Event
  | fork (q child : ℕ)
  | setsid (q : ℕ)
  | setpgid (q g : ℕ)
  | mask (q : ℕ) (ignore : Bool)
  | exit (q : ℕ)
  | reap (q : ℕ)
deriving DecidableEq, Repr

namespace Table

/-- One step of a process of the table. -/
def step (K : Table τ) : Event → Option (Table τ)
  | .fork q child => (K.running q).bind fun p =>
    if h : 1 < child ∧ used K.procs child = false then some (K.fork p child h.2) else none
  | .setsid q => (K.running q).bind fun _ =>
    if h : ∀ r ∈ K.procs, r.pgid ≠ q then some (K.setsid q h) else none
  | .setpgid q g => (K.running q).bind fun p =>
    if h : p.1.sid ≠ p.1.pid ∧ (g = p.1.pid ∨ ∃ r ∈ K.procs, r.pgid = g ∧ r.sid = p.1.sid) then
      some (K.setpgid p g h)
    else none
  | .mask q ignore => (K.running q).map fun _ => K.mask q ignore
  | .exit q => (K.running q).map fun _ => K.kill fun p => p.pid == q
  | .reap q => some (K.reap q)

/-- Every process of `T` was one of `K`; nothing of it but its end and its attitude towards
`SIGTERM` has changed. -/
def Fades (K T : Table τ) : Prop :=
  ∀ p ∈ T.procs, ∃ r ∈ K.procs, p.pid = r.pid ∧ p.sid = r.sid ∧ p.pgid = r.pgid ∧
    p.native = r.native ∧ p.origin = r.origin ∧ (p.zombie = false → r.zombie = false)

/-- A kill only takes processes out of the table. -/
theorem fades_kill (K : Table τ) (test : Proc τ → Bool) : K.Fades (K.kill test) := by
  intro p hp
  obtain ⟨r, hr, rfl⟩ := List.mem_map.mp hp
  exact ⟨r, hr, rfl, rfl, rfl, rfl, rfl, fun hz => (Bool.or_eq_false_iff.mp hz).1⟩

private theorem fades_mask (K : Table τ) (q : ℕ) (ignore : Bool) : K.Fades (K.mask q ignore) := by
  intro p hp
  obtain ⟨r, hr, rfl⟩ := List.mem_map.mp hp
  exact ⟨r, hr, rfl, rfl, rfl, rfl, rfl, id⟩

private theorem fades_reap (K : Table τ) (q : ℕ) : K.Fades (K.reap q) := by
  intro p hp
  exact ⟨p, (List.mem_filter.mp hp).1, rfl, rfl, rfl, rfl, rfl, id⟩

/-- Whoever survives a kill was not meant. -/
theorem mem_of_mem_kill {K : Table τ} {test : Proc τ → Bool} {p : Proc τ}
    (hp : p ∈ (K.kill test).procs) (hz : p.zombie = false) : p ∈ K.procs ∧ test p = false := by
  obtain ⟨r, hr, rfl⟩ := List.mem_map.mp hp
  obtain ⟨hrz, htest⟩ := Bool.or_eq_false_iff.mp hz
  have hsame : { r with zombie := r.zombie || test r } = r := by
    rw [htest, Bool.or_false]
  rw [hsame]
  exact ⟨hr, htest⟩

/-- What a step of a process can do to the table. -/
theorem step_cases {K T : Table τ} {e : Event} (h : K.step e = some T) :
    (∃ p ∈ K.procs, ∃ child, e = .fork p.pid child ∧ p.zombie = false ∧ 1 < child ∧
      used K.procs child = false ∧
      T.procs = { p with pid := child, deathsig := false } :: K.procs) ∨
    (∃ p ∈ K.procs, e = .setsid p.pid ∧ p.zombie = false ∧ (∀ r ∈ K.procs, r.pgid ≠ p.pid) ∧
      T.procs = K.procs.map (assign p.pid p.pid p.pid false)) ∨
    (∃ p ∈ K.procs, ∃ g, e = .setpgid p.pid g ∧ p.zombie = false ∧ p.sid ≠ p.pid ∧
      (g = p.pid ∨ ∃ r ∈ K.procs, r.pgid = g ∧ r.sid = p.sid) ∧
      T.procs = K.procs.map (assign p.pid p.sid g true)) ∨
    ((∀ q child, e ≠ .fork q child) ∧ (∀ q, e ≠ .setsid q) ∧ (∀ q g, e ≠ .setpgid q g) ∧
      K.Fades T) := by
  cases e with
  | fork q child =>
      obtain ⟨p, hp, hT⟩ := Option.bind_eq_some_iff.mp h
      obtain ⟨rfl, hz⟩ := running_some hp
      split at hT
      · rename_i hfree
        obtain rfl := Option.some.inj hT
        exact .inl ⟨p.1, p.2, child, rfl, hz, hfree.1, hfree.2, rfl⟩
      · cases hT
  | setsid q =>
      obtain ⟨p, hp, hT⟩ := Option.bind_eq_some_iff.mp h
      obtain ⟨rfl, hz⟩ := running_some hp
      split at hT
      · rename_i hguard
        obtain rfl := Option.some.inj hT
        exact .inr (.inl ⟨p.1, p.2, rfl, hz, hguard, rfl⟩)
      · cases hT
  | setpgid q g =>
      obtain ⟨p, hp, hT⟩ := Option.bind_eq_some_iff.mp h
      obtain ⟨rfl, hz⟩ := running_some hp
      split at hT
      · rename_i hguard
        obtain rfl := Option.some.inj hT
        exact .inr (.inr (.inl ⟨p.1, p.2, g, rfl, hz, hguard.1, hguard.2, rfl⟩))
      · cases hT
  | mask q ignore =>
      obtain ⟨p, -, rfl⟩ := Option.map_eq_some_iff.mp h
      exact .inr (.inr (.inr ⟨nofun, nofun, nofun, fades_mask K q ignore⟩))
  | exit q =>
      obtain ⟨p, -, rfl⟩ := Option.map_eq_some_iff.mp h
      exact .inr (.inr (.inr ⟨nofun, nofun, nofun, fades_kill K _⟩))
  | reap q =>
      obtain rfl := Option.some.inj h
      exact .inr (.inr (.inr ⟨nofun, nofun, nofun, fades_reap K q⟩))

end Table

end Processes

import Jetty.Orchestrator.Config.PortSpecs
import Jetty.Orchestrator.Ports.Broker
import Mathlib.Data.List.Perm.Basic

/-!
# What the broker gives

Every name gets a port of its own inside its spec, bindable on every loopback family, and a range
gives its first port that nobody holds. No probe socket outlives the call.
-/

namespace Jetty.Orchestrator.Ports

open Effects

variable {k : Kernel} {s s' : Probes} {E : Raised → Probes → Prop}

private theorem wp_bindOne {family : Family} {port : ℕ} {Q : Option Socket → Probes → Prop}
    (hfamily : k.supports family = true) : wp (bindOne k family port) Q E s ↔
      match k.bind s.clock family port (⟨family, 0⟩ :: s.opened) with
      | some port => Q (some ⟨family, port⟩) ⟨s.clock + 1, ⟨family, port⟩ :: s.opened, s.holds⟩
      | none => Q none ⟨s.clock + 1, s.opened, s.holds⟩ := by
  unfold bindOne openSocket bindSocket
  rw [if_pos hfamily]
  simp only [wp_bind, wp_modify, wp_pure, wp_get]
  cases k.bind s.clock family port (⟨family, 0⟩ :: s.opened) with
  | none => simp [close, Probes.close]
  | some port => simp

private theorem bind_eq_none {time : ℕ} {family : Family} {port : ℕ} {opened : List Socket}
    (hport : port ≠ 0) : k.bind time family port opened = none ↔
      k.taken time family port = true ∨ ⟨family, port⟩ ∈ opened := by
  rw [Kernel.bind, if_neg hport, ite_eq_left_iff, Bool.or_eq_true, decide_eq_true_eq]
  exact ⟨fun h => by_contra fun hno => Option.some_ne_none _ (h hno), fun h hno => absurd h hno⟩

private theorem bind_eq_some {time : ℕ} {family : Family} {port p : ℕ} {opened : List Socket}
    (hport : port ≠ 0) (h : k.bind time family port opened = some p) :
    p = port ∧ k.taken time family port = false ∧ ⟨family, port⟩ ∉ opened := by
  rw [Kernel.bind, if_neg hport] at h
  split_ifs at h with hno
  rw [Bool.or_eq_true, decide_eq_true_eq, not_or, Bool.not_eq_true] at hno
  exact ⟨(Option.some.inj h).symm, hno⟩

/-- Others held the port on the family at a `bind` call before the time. -/
def Kernel.Busy (k : Kernel) (time : ℕ) (family : Family) (port : ℕ) : Prop :=
  ∃ t < time, k.taken t family port = true

/-- Nobody else held the port on the family at a `bind` call before the time. -/
def Kernel.Free (k : Kernel) (time : ℕ) (family : Family) (port : ℕ) : Prop :=
  ∃ t < time, k.taken t family port = false

private theorem Kernel.Busy.later {time time' : ℕ} {family : Family} {port : ℕ}
    (h : k.Busy time family port) (ht : time ≤ time') : k.Busy time' family port :=
  let ⟨t, hlt, hbusy⟩ := h
  ⟨t, hlt.trans_le ht, hbusy⟩

private theorem Kernel.Free.later {time time' : ℕ} {family : Family} {port : ℕ}
    (h : k.Free time family port) (ht : time ≤ time') : k.Free time' family port :=
  let ⟨t, hlt, hfree⟩ := h
  ⟨t, hlt.trans_le ht, hfree⟩

/-- Closing sockets takes them off the open ones. -/
theorem closeAll_eq (socks : List Socket) (s : Probes) :
    socks.foldl Probes.close s = { s with opened := s.opened.diff socks } := by
  induction socks generalizing s with
  | nil => rfl
  | cons sock socks ih =>
      rw [List.foldl_cons, ih, List.diff_cons]
      rfl

private theorem append_diff (l l' : List Socket) : (l ++ l').diff l = l' := by
  induction l with
  | nil => rfl
  | cons a l ih => rw [List.cons_append, List.diff_cons, List.erase_cons_head, ih]

/-- The sockets that hold a port on the families. -/
def socketsOn (families : List Family) (port : ℕ) : List Socket :=
  families.map fun family => ⟨family, port⟩

private theorem mem_socketsOn {families : List Family} {port : ℕ} {sock : Socket} :
    sock ∈ socketsOn families port ↔ sock.family ∈ families ∧ sock.port = port := by
  rw [socketsOn, List.mem_map]
  constructor
  · rintro ⟨family, hfamily, rfl⟩
    exact ⟨hfamily, rfl⟩
  · rintro ⟨hfamily, rfl⟩
    exact ⟨sock.family, hfamily, rfl⟩

/-- The port was refused on one of the families: others held it, or a socket did that is open. -/
def Refused (k : Kernel) (families : List Family) (opened : List Socket) (time port : ℕ) : Prop :=
  ∃ family ∈ families, ⟨family, port⟩ ∈ opened ∨ k.Busy time family port

/-- The port was taken on all the families: nobody held it. -/
def Taken (k : Kernel) (families : List Family) (opened : List Socket) (time port : ℕ) : Prop :=
  ∀ family ∈ families, ⟨family, port⟩ ∉ opened ∧ k.Free time family port

/-- `_try_bind` holds the port on every family or on none. -/
theorem wp_tryBind {families : List Family} {port : ℕ} {held opened : List Socket}
    (hfamilies : ∀ family ∈ families, k.supports family = true) (hnodup : families.Nodup)
    (hport : port ≠ 0) (hopened : s.opened.Perm (held ++ opened))
    (hheld : ∀ family ∈ families, ⟨family, port⟩ ∉ held) :
    wp (tryBind k port families held)
      (fun r s' => s.clock ≤ s'.clock ∧ s'.holds = s.holds ∧ match r with
        | some socks => socks = held ++ socketsOn families port ∧
            s'.opened.Perm (socks ++ opened) ∧ Taken k families opened s'.clock port
        | none => s'.opened.Perm opened ∧ Refused k families opened s'.clock port)
      (fun _ _ => False) s := by
  induction families generalizing s held with
  | nil => exact ⟨le_rfl, rfl, (List.append_nil held).symm, hopened, List.forall_mem_nil _⟩
  | cons family families ih =>
      obtain ⟨hfamily, hfamilies⟩ := List.forall_mem_cons.mp hfamilies
      obtain ⟨hnot, hnodup⟩ := List.nodup_cons.mp hnodup
      obtain ⟨hfree, hheld⟩ := List.forall_mem_cons.mp hheld
      have hmem : (⟨family, port⟩ : Socket) ∈ (⟨family, 0⟩ :: s.opened : List Socket) ↔
          (⟨family, port⟩ : Socket) ∈ opened := by
        simp [hopened.mem_iff, hfree, hport]
      rw [tryBind, wp_bind, wp_bindOne hfamily]
      cases hbind : k.bind s.clock family port (⟨family, 0⟩ :: s.opened) with
      | none =>
          simp only [wp_bind, wp_modify, wp_pure, closeAll_eq]
          refine ⟨Nat.le_succ _, trivial, ?_, family, .head _, ?_⟩
          · exact (hopened.diff_right held).trans (List.Perm.of_eq (append_diff held opened))
          · rw [bind_eq_none hport, hmem] at hbind
            exact hbind.symm.imp_right fun h => ⟨s.clock, Nat.lt_succ_self _, h⟩
      | some p =>
          obtain ⟨rfl, htaken, hopen⟩ := bind_eq_some hport hbind
          rw [hmem] at hopen
          have hnext : ∀ family' ∈ families,
              (⟨family', p⟩ : Socket) ∉ held ++ [(⟨family, p⟩ : Socket)] := by
            intro family' hfamily' h
            obtain h | h := List.mem_append.mp h
            · exact hheld family' hfamily' h
            · obtain rfl : family' = family := by simpa using h
              exact hnot hfamily'
          have hperm : (⟨family, p⟩ :: s.opened : List Socket).Perm
              (held ++ [(⟨family, p⟩ : Socket)] ++ opened) := by
            rw [List.append_assoc, List.singleton_append]
            exact (hopened.cons _).trans List.perm_middle.symm
          refine wp_mono (ih (s := ⟨s.clock + 1, ⟨family, p⟩ :: s.opened, s.holds⟩) hfamilies hnodup
            hperm hnext) ?_ (fun _ _ h => h)
          rintro (_ | socks) s' ⟨hclock, hholds, hresult⟩
          · obtain ⟨hopened', family', hfamily', hrefused⟩ := hresult
            exact ⟨(Nat.le_succ _).trans hclock, hholds, hopened', family', .tail _ hfamily',
              hrefused⟩
          · obtain ⟨rfl, hopened', htaken'⟩ := hresult
            refine ⟨(Nat.le_succ _).trans hclock, hholds, ?_, hopened',
              List.forall_mem_cons.mpr ⟨⟨hopen, s.clock, hclock, htaken⟩, htaken'⟩⟩
            exact (List.append_cons held _ _).symm

/-- The loopback families found: those the host has, each once. -/
structure Found (k : Kernel) (lead : Family) (rest : List Family) : Prop where
  supported : ∀ family ∈ lead :: rest, k.supports family = true
  nodup : (lead :: rest).Nodup

/-- The open sockets between two names. They are those in `holds`, a given port is held on every
family, and a candidate that was rejected stays held on the first one. -/
structure Sound (k : Kernel) (lead : Family) (rest : List Family) (ports : List ℕ) (s : Probes) :
    Prop where
  held : s.opened.Perm s.holds
  granted : ∀ port ∈ ports, ∀ family ∈ lead :: rest,
    ⟨family, port⟩ ∈ s.opened ∧ k.Free s.clock family port
  kept : ∀ sock ∈ s.opened, sock.port ∈ ports ∨
    ∃ family ∈ lead :: rest, k.Busy s.clock family sock.port
  paired : ∀ sock ∈ s.opened, ⟨lead, sock.port⟩ ∈ s.opened

variable {lead : Family} {rest : List Family} {ports : List ℕ}

private theorem Sound.later (h : Sound k lead rest ports s) (hclock : s.clock ≤ s'.clock)
    (hopened : s'.opened.Perm s.opened) (hholds : s'.holds = s.holds) :
    Sound k lead rest ports s' where
  held := hholds ▸ hopened.trans h.held
  granted port hport family hfamily :=
    have hgranted := h.granted port hport family hfamily
    ⟨hopened.mem_iff.mpr hgranted.1, hgranted.2.later hclock⟩
  kept sock hsock := (h.kept sock (hopened.mem_iff.mp hsock)).imp_right
    fun ⟨family, hfamily, hbusy⟩ => ⟨family, hfamily, hbusy.later hclock⟩
  paired sock hsock := hopened.mem_iff.mpr (h.paired sock (hopened.mem_iff.mp hsock))

/-- The port of one more name is held. -/
theorem Sound.give (h : Sound k lead rest ports s) {port : ℕ} (hclock : s.clock ≤ s'.clock)
    (hopened : s'.opened.Perm (socketsOn (lead :: rest) port ++ s.opened))
    (hholds : s'.holds.Perm (socketsOn (lead :: rest) port ++ s.holds))
    (hfree : ∀ family ∈ lead :: rest, k.Free s'.clock family port) :
    Sound k lead rest (ports ++ [port]) s' where
  held := hopened.trans ((h.held.append_left _).trans hholds.symm)
  granted p hp family hfamily := by
    rw [hopened.mem_iff, List.mem_append, mem_socketsOn]
    obtain hp | hp := List.mem_append.mp hp
    · obtain ⟨hmem, hfree⟩ := h.granted p hp family hfamily
      exact ⟨.inr hmem, hfree.later hclock⟩
    · obtain rfl := List.mem_singleton.mp hp
      exact ⟨.inl ⟨hfamily, rfl⟩, hfree family hfamily⟩
  kept sock hsock := by
    rw [List.mem_append, List.mem_singleton]
    rw [hopened.mem_iff, List.mem_append, mem_socketsOn] at hsock
    obtain ⟨-, hport⟩ | hsock := hsock
    · exact .inl (.inr hport)
    · obtain hport | ⟨family, hfamily, hbusy⟩ := h.kept sock hsock
      · exact .inl (.inl hport)
      · exact .inr ⟨family, hfamily, hbusy.later hclock⟩
  paired sock hsock := by
    rw [hopened.mem_iff, List.mem_append, mem_socketsOn] at hsock ⊢
    obtain ⟨-, hport⟩ | hsock := hsock
    · exact .inl ⟨List.mem_cons_self, hport⟩
    · exact .inr (h.paired sock hsock)

/-- A candidate that others hold on another family is kept on the first one. -/
theorem Sound.reject (h : Sound k lead rest ports s) {port : ℕ} (hclock : s.clock ≤ s'.clock)
    (hopened : s'.opened.Perm (⟨lead, port⟩ :: s.opened))
    (hholds : s'.holds = s.holds ++ [⟨lead, port⟩])
    (hbusy : ∃ family ∈ lead :: rest, k.Busy s'.clock family port) :
    Sound k lead rest ports s' where
  held := by
    rw [hholds]
    exact hopened.trans ((h.held.cons _).trans (List.perm_append_singleton _ _).symm)
  granted p hp family hfamily :=
    have hgranted := h.granted p hp family hfamily
    ⟨hopened.mem_iff.mpr (.tail _ hgranted.1), hgranted.2.later hclock⟩
  kept sock hsock := by
    obtain rfl | hsock := List.mem_cons.mp (hopened.mem_iff.mp hsock)
    · exact .inr hbusy
    · exact (h.kept sock hsock).imp_right
        fun ⟨family, hfamily, hbusy⟩ => ⟨family, hfamily, hbusy.later hclock⟩
  paired sock hsock := by
    rw [hopened.mem_iff]
    obtain rfl | hsock := List.mem_cons.mp (hopened.mem_iff.mp hsock)
    · exact .head _
    · exact .tail _ (h.paired sock hsock)

/-- A port that is refused has been given to a name before, or others held it. -/
theorem Sound.refused (h : Sound k lead rest ports s) {time port : ℕ} (htime : s.clock ≤ time)
    (hrefused : Refused k (lead :: rest) s.opened time port) :
    port ∈ ports ∨ ∃ family ∈ lead :: rest, k.Busy time family port := by
  obtain ⟨family, hfamily, hopened | hbusy⟩ := hrefused
  · exact (h.kept _ hopened).imp_right
      fun ⟨family, hfamily, hbusy⟩ => ⟨family, hfamily, hbusy.later htime⟩
  · exact .inr ⟨family, hfamily, hbusy⟩

/-- A port that is taken has not been given before. -/
theorem Sound.fresh (h : Sound k lead rest ports s) {time port : ℕ}
    (htaken : Taken k (lead :: rest) s.opened time port) : port ∉ ports := fun hport =>
  (htaken lead (.head _)).1 (h.granted port hport lead (.head _)).1

/-- `_bind_auto`: every rejected candidate is one that others hold on another family, so the port
that is left is nobody's. -/
theorem wp_bindAuto (hfound : Found k lead rest) (h : Sound k lead rest ports s) (name : String)
    (attempts : ℕ) :
    wp (bindAuto k name lead rest attempts)
      (fun port s' => s.clock ≤ s'.clock ∧ Sound k lead rest (ports ++ [port]) s' ∧
        (1 ≤ port ∧ port ≤ 65535) ∧ port ∉ ports)
      (fun e s' => e = .port (.noAuto name) ∧ s'.opened.Perm s'.holds) s := by
  obtain ⟨hlead, hrest⟩ := List.forall_mem_cons.mp hfound.supported
  obtain ⟨hnot, hnodup⟩ := List.nodup_cons.mp hfound.nodup
  induction attempts generalizing s with
  | zero => exact ⟨rfl, h.held⟩
  | succ attempts ih =>
      rw [bindAuto, wp_bind, wp_bindOne hlead, Kernel.bind, if_pos rfl]
      cases hpick : k.pick s.clock lead (⟨lead, 0⟩ :: s.opened) with
      | none => exact ⟨rfl, h.held⟩
      | some port =>
          have hopen : (⟨lead, port⟩ : Socket) ∉ s.opened := fun hmem =>
            k.pick_opened hpick (.tail _ hmem)
          obtain ⟨hlow, hhigh⟩ := k.pick_range hpick
          simp only [hold, wp_bind, wp_modify]
          refine wp_mono (wp_tryBind hrest hnodup (by omega) (List.Perm.refl _)
            (fun _ _ => List.not_mem_nil)) ?_ (fun _ _ h => h.elim)
          rintro (_ | socks) s' ⟨hclock, hholds, hresult⟩
          · obtain ⟨hopened, family, hfamily, hrefused⟩ := hresult
            have hbusy : k.Busy s'.clock family port := by
              refine hrefused.resolve_left fun hmem => ?_
              obtain heq | hmem := List.mem_cons.mp hmem
              · obtain rfl : family = lead := congrArg Socket.family heq
                exact hnot hfamily
              · exact hopen (h.paired _ hmem)
            have hsound := h.reject ((Nat.le_succ _).trans hclock) hopened hholds
              ⟨family, .tail _ hfamily, hbusy⟩
            refine wp_mono (ih hsound) (fun port' s'' h'' => ?_) fun _ _ h => h
            exact ⟨((Nat.le_succ _).trans hclock).trans h''.1, h''.2⟩
          · obtain ⟨rfl, hopened, htaken⟩ := hresult
            simp only [wp_bind, wp_modify, wp_pure]
            refine ⟨(Nat.le_succ _).trans hclock, h.give ((Nat.le_succ _).trans hclock) ?_ ?_ ?_,
              ⟨hlow, hhigh⟩, fun hport => hopen (h.granted port hport lead (.head _)).1⟩
            · exact hopened.trans List.perm_middle
            · rw [hholds, List.append_assoc]
              exact List.perm_append_comm
            · refine List.forall_mem_cons.mpr ⟨?_, fun family hfamily => (htaken family hfamily).2⟩
              exact ⟨s.clock, hclock, k.pick_taken hpick⟩

/-- The scan of a range stops at the first port that nobody holds. -/
theorem wp_scan (hfound : Found k lead rest) (h : Sound k lead rest ports s) (n : ℕ)
    {candidate : ℕ} (hpos : candidate ≠ 0) :
    wp (scan k (lead :: rest) n candidate)
      (fun r s' => s.clock ≤ s'.clock ∧ match r with
        | some port => Sound k lead rest (ports ++ [port]) s' ∧
            (candidate ≤ port ∧ port < candidate + n) ∧ port ∉ ports ∧
            ∀ q, candidate ≤ q → q < port →
              q ∈ ports ∨ ∃ family ∈ lead :: rest, k.Busy s'.clock family q
        | none => Sound k lead rest ports s' ∧ ∀ q, candidate ≤ q → q < candidate + n →
            q ∈ ports ∨ ∃ family ∈ lead :: rest, k.Busy s'.clock family q)
      (fun _ _ => False) s := by
  induction n generalizing s candidate with
  | zero => exact ⟨le_rfl, h, fun q hlow hhigh => absurd hhigh hlow.not_gt⟩
  | succ n ih =>
      rw [scan, wp_bind]
      refine wp_mono (wp_tryBind hfound.supported hfound.nodup hpos (List.Perm.refl _)
        (fun _ _ => List.not_mem_nil)) ?_ (fun _ _ h => h)
      rintro (_ | socks) s' ⟨hclock, hholds, hresult⟩
      · obtain ⟨hopened, hrefused⟩ := hresult
        have hfirst := h.refused hclock hrefused
        refine wp_mono (ih (h.later hclock hopened hholds) (Nat.succ_ne_zero candidate)) ?_
          (fun _ _ h => h)
        have hpassed {time : ℕ} (htime : s'.clock ≤ time) {q : ℕ} (hlow : candidate ≤ q)
            (hrest : candidate + 1 ≤ q →
              q ∈ ports ∨ ∃ family ∈ lead :: rest, k.Busy time family q) :
            q ∈ ports ∨ ∃ family ∈ lead :: rest, k.Busy time family q := by
          obtain rfl | hlt := hlow.eq_or_lt
          · exact hfirst.imp_right fun ⟨family, hfamily, hbusy⟩ =>
              ⟨family, hfamily, hbusy.later htime⟩
          · exact hrest hlt
        rintro (_ | port) s'' ⟨hclock', hresult⟩
        · obtain ⟨hsound, hall⟩ := hresult
          exact ⟨hclock.trans hclock', hsound, fun q hlow hhigh =>
            hpassed hclock' hlow fun hlt => hall q hlt (by omega)⟩
        · obtain ⟨hsound, ⟨hlow', hhigh'⟩, hfresh, hall⟩ := hresult
          exact ⟨hclock.trans hclock', hsound, ⟨by omega, by omega⟩, hfresh, fun q hlow hhigh =>
            hpassed hclock' hlow fun hlt => hall q hlt hhigh⟩
      · obtain ⟨rfl, hopened, htaken⟩ := hresult
        simp only [hold, wp_bind, wp_modify, wp_pure]
        refine ⟨hclock, h.give hclock hopened ?_ fun family hfamily => (htaken family hfamily).2,
          ⟨le_rfl, by omega⟩, h.fresh htaken, fun q hlow hhigh => absurd hhigh hlow.not_gt⟩
        rw [hholds]
        exact List.perm_append_comm

/-- The ports that a spec asks for. -/
def Admits (port : ℕ) : PortRange → Prop
  | .auto => 1 ≤ port ∧ port ≤ 65535
  | .range low high => low ≤ port ∧ port ≤ high

/-- The port that a spec gets after the earlier names got theirs: inside the spec, nobody's on any
of the families when it was tried, and the first such port of a range. -/
structure Served (k : Kernel) (families : List Family) (time : ℕ) (earlier : List ℕ) (want : Toml)
    (port : ℕ) : Prop where
  admitted : ∃ range, parsePortSpec want = .ok (some range) ∧ Admits port range
  fresh : port ∉ earlier
  bindable : ∀ family ∈ families, k.Free time family port
  lowest : ∀ low high, parsePortSpec want = .ok (some (.range low high)) →
    ∀ q, low ≤ q → q < port → q ∈ earlier ∨ ∃ family ∈ families, k.Busy time family q

/-- The ports given, name after name, each in that relation to the ports before it and to its
spec. -/
inductive Given (R : List ℕ → Toml → ℕ → Prop) : List (String × Toml) → List (String × ℕ) → Prop
  | nil : Given R [] []
  | snoc {spec : List (String × Toml)} {given : List (String × ℕ)} {name : String} {want : Toml}
      {port : ℕ} (hgiven : Given R spec given) (hport : R (given.map Prod.snd) want port) :
      Given R (spec ++ [(name, want)]) (given ++ [(name, port)])

private theorem checkFixed_error {name : String} {fixed : List (ℕ × String)} {range : PortRange}
    {e : PortError} (h : checkFixed name fixed range = .error e) :
    ∃ other port, e = .clash name other port := by
  cases range with
  | auto => cases h
  | range low high =>
      rw [checkFixed] at h
      split_ifs at h
      cases hlookup : fixed.lookup low with
      | none => rw [hlookup] at h; cases h
      | some other => rw [hlookup] at h; cases h; exact ⟨other, low, rfl⟩

/-- One round: the name gets its port, or the round fails with the sockets in `holds`. A port is
refused as in use where an earlier name got it or others held it. -/
theorem wp_serve (hfound : Found k lead rest) {batch : Batch}
    (h : Sound k lead rest (batch.allocated.map Prod.snd) s) (name : String) (want : Toml) :
    wp (serve k lead rest batch (name, want))
      (fun batch' s' => s.clock ≤ s'.clock ∧ ∃ port range,
        batch'.allocated = batch.allocated ++ [(name, port)] ∧
        parsePortSpec want = .ok (some range) ∧
        checkFixed name batch.fixed range = .ok batch'.fixed ∧
        Sound k lead rest (batch.allocated.map Prod.snd ++ [port]) s' ∧
        Served k (lead :: rest) s'.clock (batch.allocated.map Prod.snd) want port)
      (fun e s' => s'.opened.Perm s'.holds ∧ e ≠ .os ∧ ∀ name' port, e = .port (.inUse name' port) →
        name' = name ∧ parsePortSpec want = .ok (some (.range port port)) ∧
          (port ∈ batch.allocated.map Prod.snd ∨
            ∃ family ∈ lead :: rest, k.Busy s'.clock family port)) s := by
  unfold serve
  dsimp only
  split
  next error hparse => exact ⟨h.held, nofun, nofun⟩
  next hparse => exact ⟨h.held, nofun, nofun⟩
  next range hparse =>
    split
    next error hcheck =>
      obtain ⟨other, port, rfl⟩ := checkFixed_error hcheck
      exact ⟨h.held, nofun, nofun⟩
    next fixed hcheck =>
      split
      next =>
        rw [wp_bind]
        refine wp_mono (wp_bindAuto hfound h name _) ?_ ?_
        · rintro port s' ⟨hclock, hsound, hrange, hfresh⟩
          refine ⟨hclock, port, .auto, rfl, hparse, hcheck, hsound, ⟨_, hparse, hrange⟩, hfresh,
            fun family hfamily => ?_, fun low high hlow => ?_⟩
          · exact (hsound.granted port (by simp) family hfamily).2
          · cases hparse.symm.trans hlow
        · rintro _ s' ⟨rfl, hheld⟩
          exact ⟨hheld, nofun, nofun⟩
      next low high =>
        obtain ⟨hlow, horder, hhigh⟩ := parsePortSpec_bounds hparse
        rw [wp_bind]
        refine wp_mono (wp_scan hfound h (high + 1 - low) (by omega)) ?_ (fun _ _ h => h.elim)
        rintro (_ | port) s' ⟨hclock, hresult⟩
        · obtain ⟨hsound, hall⟩ := hresult
          refine ⟨hsound.held, nofun, fun name' port he => ?_⟩
          have he := Raised.port.inj he
          split_ifs at he with hsingle
          obtain ⟨rfl, rfl⟩ := PortError.inUse.inj he
          subst hsingle
          exact ⟨rfl, hparse, hall low le_rfl (by omega)⟩
        · obtain ⟨hsound, ⟨hle, hlt⟩, hfresh, hall⟩ := hresult
          refine ⟨hclock, port, _, rfl, hparse, hcheck, hsound, ⟨_, hparse, hle, by omega⟩, hfresh,
            fun family hfamily => ?_, fun low' high' hlow' => ?_⟩
          · exact (hsound.granted port (by simp) family hfamily).2
          · obtain ⟨rfl, rfl⟩ : low = low' ∧ high = high' := by simpa [hparse] using hlow'
            exact hall

private theorem Served.later {families : List Family} {time time' : ℕ} {earlier : List ℕ}
    {want : Toml} {port : ℕ} (h : Served k families time earlier want port) (htime : time ≤ time') :
    Served k families time' earlier want port where
  admitted := h.admitted
  fresh := h.fresh
  bindable family hfamily := (h.bindable family hfamily).later htime
  lowest low high hparse q hlow hhigh := (h.lowest low high hparse q hlow hhigh).imp_right
    fun ⟨family, hfamily, hbusy⟩ => ⟨family, hfamily, hbusy.later htime⟩

section Given

variable {R R' : List ℕ → Toml → ℕ → Prop} {spec : List (String × Toml)}
  {given : List (String × ℕ)}

private theorem Given.mono (h : Given R spec given)
    (hmono : ∀ earlier want port, R earlier want port → R' earlier want port) :
    Given R' spec given := by
  induction h with
  | nil => exact .nil
  | snoc _ hport ih => exact .snoc ih (hmono _ _ _ hport)

private theorem Given.names (h : Given R spec given) : given.map Prod.fst = spec.map Prod.fst := by
  induction h with
  | nil => rfl
  | snoc _ _ ih => rw [List.map_append, List.map_append, ih]; rfl

private theorem Given.nodup (h : Given R spec given)
    (hfresh : ∀ earlier want port, R earlier want port → port ∉ earlier) :
    (given.map Prod.snd).Nodup := by
  induction h with
  | nil => exact List.nodup_nil
  | snoc _ hport ih =>
      rw [List.map_append, List.map_singleton, (List.perm_append_singleton _ _).nodup_iff]
      exact List.nodup_cons.mpr ⟨hfresh _ _ _ hport, ih⟩

end Given

/-- The state of the loop after the names so far. -/
def Progress (k : Kernel) (lead : Family) (rest : List Family) (before : List (String × Toml))
    (batch : Batch) (s : Probes) : Prop :=
  Sound k lead rest (batch.allocated.map Prod.snd) s ∧
    Given (Served k (lead :: rest) s.clock) before batch.allocated

private theorem wp_round (hfound : Found k lead rest) (before : List (String × Toml))
    (entry : String × Toml) (batch : Batch) (s : Probes)
    (h : Progress k lead rest before batch s) :
    wp (serve k lead rest batch entry) (Progress k lead rest (before ++ [entry]))
      (fun e s' => s'.opened.Perm s'.holds ∧ e ≠ .os) s := by
  obtain ⟨name, want⟩ := entry
  refine wp_mono (wp_serve hfound h.1 name want) ?_ (fun _ _ he => ⟨he.1, he.2.1⟩)
  rintro ⟨allocated, fixed⟩ s' ⟨hclock, port, range, rfl, -, -, hsound, hserved⟩
  refine ⟨?_, .snoc (h.2.mono fun _ _ _ h => h.later hclock) hserved⟩
  rw [List.map_append]
  exact hsound

/-- Before the first specification nothing has been granted. -/
theorem sound_nil (hheld : s.opened.Perm s.holds) (hopened : s.opened = []) :
    Sound k lead rest [] s where
  held := hheld
  granted := List.forall_mem_nil _
  kept := hopened ▸ List.forall_mem_nil _
  paired := hopened ▸ List.forall_mem_nil _

/-- `_loopbacks` finds some of the families that the host has, and leaves no socket open. -/
theorem wp_loopbacks (families : List Family) :
    wp (loopbacks k families)
      (fun found s' => found.Sublist families ∧ (∀ family ∈ found, k.supports family = true) ∧
        s'.opened = s.opened ∧ s'.holds = s.holds)
      (fun _ _ => False) s := by
  induction families generalizing s with
  | nil => exact ⟨List.Sublist.refl _, List.forall_mem_nil _, rfl, rfl⟩
  | cons family families ih =>
      rw [loopbacks, wp_bind, openSocket]
      split
      next hfamily =>
        simp only [wp_bind, wp_modify, wp_pure, bindSocket, wp_get]
        cases k.bind s.clock family 0 (⟨family, 0⟩ :: s.opened) with
        | none =>
            simp only [wp_bind, wp_set, wp_pure, close, wp_modify, Probes.close,
              List.erase_cons_head]
            refine wp_mono ih ?_ (fun _ _ h => h)
            rintro found s' ⟨hsub, hsupports, hopened, hholds⟩
            exact ⟨hsub.cons _, hsupports, hopened, hholds⟩
        | some port =>
            simp only [wp_bind, wp_set, wp_pure, close, wp_modify, Probes.close,
              List.erase_cons_head]
            refine wp_mono ih ?_ (fun _ _ h => h)
            rintro found s' ⟨hsub, hsupports, hopened, hholds⟩
            exact ⟨hsub.cons_cons _, List.forall_mem_cons.mpr ⟨hfamily, hsupports⟩, hopened, hholds⟩
      next =>
        rw [wp_pure]
        refine wp_mono ih ?_ (fun _ _ h => h)
        rintro found s' ⟨hsub, hsupports, hopened, hholds⟩
        exact ⟨hsub.cons _, hsupports, hopened, hholds⟩

private theorem closeHolds_opened (h : s.opened.Perm s.holds) : s.closeHolds.opened = [] := by
  rw [Probes.closeHolds, closeAll_eq]
  have hnil := append_diff s.holds []
  rw [List.append_nil] at hnil
  exact List.perm_nil.mp ((h.diff_right s.holds).trans (List.Perm.of_eq hnil))

/-- Others hold the same ports at every `bind` call. -/
def Kernel.Steady (k : Kernel) : Prop := ∀ t, k.taken t = k.taken 0

/-- The first port of a range that neither the others nor the names before hold. -/
def First (k : Kernel) (families : List Family) (earlier : List ℕ) (want : Toml) (port : ℕ) :
    Prop :=
  ∀ low high, parsePortSpec want = .ok (some (.range low high)) →
    IsLeast {q | (low ≤ q ∧ q ≤ high) ∧ q ∉ earlier ∧ ∀ family ∈ families,
      k.taken 0 family q = false} port

private theorem Served.first {families : List Family} {time : ℕ} {earlier : List ℕ} {want : Toml}
    {port : ℕ} (h : Served k families time earlier want port) (hsteady : k.Steady) :
    First k families earlier want port := by
  intro low high hparse
  obtain ⟨range, hrange, hadmits⟩ := h.admitted
  obtain rfl : range = .range low high := Option.some.inj (Except.ok.inj (hrange.symm.trans hparse))
  refine ⟨⟨hadmits, h.fresh, fun family hfamily => ?_⟩, ?_⟩
  · obtain ⟨t, -, hfree⟩ := h.bindable family hfamily
    rwa [hsteady t] at hfree
  · rintro q ⟨⟨hlow, -⟩, hearlier, hnobody⟩
    by_contra hlt
    obtain hgiven | ⟨family, hfamily, t, -, hbusy⟩ :=
      h.lowest low high hparse q hlow (not_le.mp hlt)
    · exact hearlier hgiven
    · rw [hsteady t, hnobody family hfamily] at hbusy
      exact Bool.false_ne_true hbusy

/-- If the call succeeds, the names have their ports, each served as its spec asks and none twice;
against others that hold the same ports all along, a range has its first free port. However the
call ends, all its sockets are closed. -/
theorem allocatePorts_settles (k : Kernel) (spec : List (String × Toml)) :
    wp (allocatePorts k spec)
      (fun given s => s.opened = [] ∧ ∃ families s₀, families ≠ [] ∧
        outcome (loopbacks k knownLoopbacks) {} = (.ok families, s₀) ∧
        given.map Prod.fst = spec.map Prod.fst ∧ (given.map Prod.snd).Nodup ∧
        Given (Served k families s.clock) spec given ∧
        (k.Steady → Given (First k families) spec given))
      (fun e s => s.opened = [] ∧ e ≠ .os) {} := by
  unfold allocatePorts
  rw [wp_bind]
  refine wp_mono (wp_outcome (wp_loopbacks knownLoopbacks)) ?_ (fun _ _ h => h.2.elim)
  rintro (_ | ⟨lead, rest⟩) s₀ ⟨houtcome, hsub, hsupports, hopened, hholds⟩
  · exact ⟨hopened, nofun⟩
  · have hfound : Found k lead rest := ⟨hsupports, hsub.nodup (by decide)⟩
    have hstart : Progress k lead rest [] {} s₀ :=
      ⟨sound_nil (by rw [hopened, hholds]) hopened, .nil⟩
    rw [wp_bind, wp_ensure]
    refine wp_mono (wp_foldlM (wp_round hfound) hstart) ?_ ?_
    · rintro batch s ⟨hsound, hgiven⟩
      rw [List.nil_append] at hgiven
      refine ⟨closeHolds_opened hsound.held, lead :: rest, s₀, List.cons_ne_nil _ _, houtcome,
        hgiven.names, hgiven.nodup fun _ _ _ h => h.fresh, ?_, fun hsteady => ?_⟩
      · rw [Probes.closeHolds, closeAll_eq]
        exact hgiven
      · exact hgiven.mono fun _ _ _ h => h.first hsteady
    · rintro e s ⟨hheld, he⟩
      exact ⟨closeHolds_opened hheld, he⟩

end Jetty.Orchestrator.Ports

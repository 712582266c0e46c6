import Jetty.Core.Python.JsonRoundTrip

/-!
# The record of an instance

What `_write_record` puts into a record, and its text in the file of the instance.
-/

namespace Jetty.Orchestrator.RecordFiles

open Python Python.Json

/-- A name that the command line accepts: it is not empty. -/
abbrev InstanceName := { name : Text // name ≠ [] }

/-- `Service.status`. -/
structure ServiceStatus where
  state : Text
  pid : Option ℕ
  restarts : ℕ
  lastExit : Option ℤ
  blockedOn : List Text

/-- An entry of `Resolvers.state`: its binaries, when they were resolved, and the sources of the
ones that were copied. -/
structure Resolution where
  binaries : Dict Text Text
  resolvedAt : Double
  copiedFrom : Option (Dict Text Text)

/-- What `_write_record` has to write. -/
structure InstanceRecord where
  name : InstanceName
  created : Double
  configPath : Option Text
  supervisorPid : ℕ
  supervisorStartTicks : Option ℕ
  kind : Text
  root : Option Text
  ports : Dict Text ℕ
  stateDir : Text
  logsDir : Text
  state : Text
  services : Dict Text ServiceStatus
  resolvers : Dict Text Resolution

/-- A text that may be `None`. -/
def optionalText : Option Text → Json
  | none => .null
  | some s => .str s

def optionalInt : Option ℤ → Json
  | none => .null
  | some n => .int n

/-- A dictionary with these values. -/
def dictOf {ν : Type*} (json : ν → Json) (d : Dict Text ν) : Json :=
  .dict (d.entries.map fun e => (e.1, json e.2))

def ServiceStatus.json (s : ServiceStatus) : Json :=
  .dict [(text "state", .str s.state), (text "pid", optionalInt (s.pid.map Int.ofNat)),
    (text "restarts", .int s.restarts), (text "last_exit", optionalInt s.lastExit),
    (text "blocked_on", .list (s.blockedOn.map .str))]

def Resolution.json (r : Resolution) : Json :=
  match r.copiedFrom with
  | none =>
    .dict [(text "binaries", dictOf .str r.binaries), (text "resolved_at", .float r.resolvedAt)]
  | some sources =>
    .dict [(text "binaries", dictOf .str r.binaries), (text "resolved_at", .float r.resolvedAt),
      (text "copied_from", dictOf .str sources)]

/-- The dictionary of `_write_record`. -/
def InstanceRecord.json (r : InstanceRecord) : Json :=
  .dict [(text "name", .str r.name.val), (text "created", .float r.created),
    (text "config_path", optionalText r.configPath), (text "supervisor_pid", .int r.supervisorPid),
    (text "supervisor_start_ticks", optionalInt (r.supervisorStartTicks.map Int.ofNat)),
    (text "containment", .dict [(text "kind", .str r.kind), (text "root", optionalText r.root)]),
    (text "ports", dictOf (fun port : ℕ => .int port) r.ports), (text "state_dir", .str r.stateDir),
    (text "logs_dir", .str r.logsDir), (text "state", .str r.state),
    (text "services", dictOf ServiceStatus.json r.services),
    (text "resolvers", dictOf Resolution.json r.resolvers)]

/-- `indent=1`. -/
def recordLayout : Layout := ⟨true, some 1, [], text " ", by decide⟩

/-! ### What can be read again -/

def Resolution.texts (r : Resolution) : List Text :=
  r.binaries.keys ++ (r.binaries.values ++ (r.copiedFrom.toList.flatMap fun sources =>
    sources.keys ++ sources.values))

def ServiceStatus.texts (s : ServiceStatus) : List Text := s.state :: s.blockedOn

def ServiceStatus.numbers (s : ServiceStatus) : List ℤ :=
  s.restarts :: (s.pid.toList.map Int.ofNat ++ s.lastExit.toList)

/-- All texts of a record. -/
def InstanceRecord.texts (r : InstanceRecord) : List Text :=
  [r.name.val, r.kind, r.stateDir, r.logsDir, r.state] ++ (r.configPath.toList ++ (r.root.toList ++
    (r.ports.keys ++ (r.services.keys ++ (r.services.values.flatMap ServiceStatus.texts ++
      (r.resolvers.keys ++ r.resolvers.values.flatMap Resolution.texts))))))

def InstanceRecord.numbers (r : InstanceRecord) : List ℤ :=
  r.supervisorPid :: (r.supervisorStartTicks.toList.map Int.ofNat ++
    (r.ports.values.map Int.ofNat ++ r.services.values.flatMap ServiceStatus.numbers))

def InstanceRecord.times (r : InstanceRecord) : List Double :=
  r.created :: r.resolvers.values.map Resolution.resolvedAt

/-- A record as a supervisor can have it: in no text does a low surrogate follow a high one, the
numbers are not too long for `int`, and the times are written in full. -/
structure InstanceRecord.Legible (F : Floats) (r : InstanceRecord) : Prop where
  texts : ∀ s ∈ r.texts, Joined s
  numbers : ∀ n ∈ r.numbers, (numeral n.natAbs).length ≤ 4300
  times : ∀ x ∈ r.times, F.Faithful x

section Legible

variable {F : Floats} {L : Layout}

private theorem printable_optionalText {o : Option Text} (h : ∀ s ∈ o.toList, Joined s) :
    Printable F L (optionalText o) := by
  cases o with
  | none => trivial
  | some s => exact fun _ => h s (List.mem_singleton_self s)

private theorem printable_optionalInt {o : Option ℤ}
    (h : ∀ n ∈ o.toList, (numeral n.natAbs).length ≤ 4300) : Printable F L (optionalInt o) := by
  cases o with
  | none => trivial
  | some n => exact h n (List.mem_singleton_self n)

private theorem printable_dictOf {ν : Type*} {json : ν → Json} {d : Dict Text ν}
    (hkeys : ∀ k ∈ d.keys, Joined k) (hvalues : ∀ v ∈ d.values, Printable F L (json v)) :
    Printable F L (dictOf json d) := by
  constructor
  · rw [List.map_map]
    exact d.nodup
  · refine printableEntries_of_forall fun e he => ?_
    obtain ⟨e, hmem, rfl⟩ := List.mem_map.mp he
    exact ⟨fun _ => hkeys e.1 (List.mem_map_of_mem hmem), hvalues e.2 (List.mem_map_of_mem hmem)⟩

private theorem ServiceStatus.printable {s : ServiceStatus} (htexts : ∀ t ∈ s.texts, Joined t)
    (hnumbers : ∀ n ∈ s.numbers, (numeral n.natAbs).length ≤ 4300) : Printable F L s.json := by
  obtain ⟨hstate, hblocked⟩ := List.forall_mem_cons.mp htexts
  obtain ⟨hrestarts, hothers⟩ := List.forall_mem_cons.mp hnumbers
  obtain ⟨hpid, hexit⟩ := List.forall_mem_append.mp hothers
  have hpid : ∀ n ∈ (s.pid.map Int.ofNat).toList, (numeral n.natAbs).length ≤ 4300 := by
    rwa [Option.toList_map]
  have hkeys : (["state", "pid", "restarts", "last_exit", "blocked_on"].map text).Nodup := by
    decide
  refine ⟨hkeys, ⟨fun _ => by decide, fun _ => hstate⟩,
    ⟨fun _ => by decide, printable_optionalInt hpid⟩, ⟨fun _ => by decide, hrestarts⟩,
    ⟨fun _ => by decide, printable_optionalInt hexit⟩, ⟨fun _ => by decide, ?_⟩, trivial⟩
  refine printableItems_of_forall fun x hx => ?_
  obtain ⟨t, ht, rfl⟩ := List.mem_map.mp hx
  exact fun _ => hblocked t ht

private theorem Resolution.printable {r : Resolution} (htexts : ∀ t ∈ r.texts, Joined t)
    (htime : F.Faithful r.resolvedAt) : Printable F L r.json := by
  have htextDict {d : Dict Text Text} (hkeys : ∀ k ∈ d.keys, Joined k)
      (hvalues : ∀ v ∈ d.values, Joined v) : Printable F L (dictOf .str d) :=
    printable_dictOf hkeys fun v hv _ => hvalues v hv
  obtain ⟨hkeys, hothers⟩ := List.forall_mem_append.mp htexts
  obtain ⟨hvalues, hsources⟩ := List.forall_mem_append.mp hothers
  unfold Resolution.json
  cases hcopied : r.copiedFrom with
  | none =>
      have hfields : (["binaries", "resolved_at"].map text).Nodup := by decide
      exact ⟨hfields, ⟨fun _ => by decide, htextDict hkeys hvalues⟩,
        ⟨fun _ => by decide, htime⟩, trivial⟩
  | some sources =>
      rw [hcopied] at hsources
      have hboth := List.forall_mem_append.mp fun t ht =>
        hsources t (List.mem_flatMap.mpr ⟨sources, List.mem_singleton_self sources, ht⟩)
      have hfields : (["binaries", "resolved_at", "copied_from"].map text).Nodup := by decide
      exact ⟨hfields, ⟨fun _ => by decide, htextDict hkeys hvalues⟩,
        ⟨fun _ => by decide, htime⟩, ⟨fun _ => by decide, htextDict hboth.1 hboth.2⟩, trivial⟩

/-- Such a record reads as itself. -/
theorem InstanceRecord.Legible.printable {r : InstanceRecord} (h : r.Legible F) :
    Printable F L r.json := by
  obtain ⟨hsingle, htexts⟩ := List.forall_mem_append.mp h.texts
  obtain ⟨hname, hkind, hstateDir, hlogsDir, hstate, -⟩ := by
    simpa only [List.forall_mem_cons] using hsingle
  simp only [List.forall_mem_append] at htexts
  obtain ⟨hconfig, hroot, hports, hservices, hstatuses, hresolvers, hresolutions⟩ := htexts
  obtain ⟨hpid, hnumbers⟩ := List.forall_mem_cons.mp h.numbers
  simp only [List.forall_mem_append] at hnumbers
  obtain ⟨hticks, hportNumbers, hstatusNumbers⟩ := hnumbers
  obtain ⟨hcreated, htimes⟩ := List.forall_mem_cons.mp h.times
  have hticks : ∀ n ∈ (r.supervisorStartTicks.map Int.ofNat).toList,
      (numeral n.natAbs).length ≤ 4300 := by
    rwa [Option.toList_map]
  have hportDict : Printable F L (dictOf (fun port : ℕ => .int port) r.ports) :=
    printable_dictOf hports fun port hport => hportNumbers _ (List.mem_map_of_mem hport)
  have hserviceDict : Printable F L (dictOf ServiceStatus.json r.services) :=
    printable_dictOf hservices fun s hs => ServiceStatus.printable
      (fun t ht => hstatuses t (List.mem_flatMap.mpr ⟨s, hs, ht⟩))
      fun n hn => hstatusNumbers n (List.mem_flatMap.mpr ⟨s, hs, hn⟩)
  have hresolverDict : Printable F L (dictOf Resolution.json r.resolvers) :=
    printable_dictOf hresolvers fun s hs => Resolution.printable
      (fun t ht => hresolutions t (List.mem_flatMap.mpr ⟨s, hs, ht⟩))
      (htimes _ (List.mem_map_of_mem hs))
  have hcontainment : Printable F L
      (.dict [(text "kind", .str r.kind), (text "root", optionalText r.root)]) := by
    have hfields : (["kind", "root"].map text).Nodup := by decide
    exact ⟨hfields, ⟨fun _ => by decide, fun _ => hkind⟩,
      ⟨fun _ => by decide, printable_optionalText hroot⟩, trivial⟩
  have hfields : (["name", "created", "config_path", "supervisor_pid", "supervisor_start_ticks",
      "containment", "ports", "state_dir", "logs_dir", "state", "services", "resolvers"].map
        text).Nodup := by
    decide
  exact ⟨hfields, ⟨fun _ => by decide, fun _ => hname⟩, ⟨fun _ => by decide, hcreated⟩,
    ⟨fun _ => by decide, printable_optionalText hconfig⟩, ⟨fun _ => by decide, hpid⟩,
    ⟨fun _ => by decide, printable_optionalInt hticks⟩, ⟨fun _ => by decide, hcontainment⟩,
    ⟨fun _ => by decide, hportDict⟩, ⟨fun _ => by decide, fun _ => hstateDir⟩,
    ⟨fun _ => by decide, fun _ => hlogsDir⟩, ⟨fun _ => by decide, fun _ => hstate⟩,
    ⟨fun _ => by decide, hserviceDict⟩, ⟨fun _ => by decide, hresolverDict⟩, trivial⟩

end Legible

section Files

variable (F : Floats)

/-- `json.dumps(record, indent=1)`. -/
def InstanceRecord.contents (r : InstanceRecord) : Text := dumps F recordLayout r.json

/-- `Registry.load`, by what was read of the file, if there is one: what is no JSON is no record,
and nothing is returned where the bytes are no text. -/
def load : Option (List ℕ) → Option (Option Json)
  | none => some none
  | some bytes => (Text.readText bytes).map (loads F)

variable {F}

/-- The file of a legible record is ASCII without carriage returns, so reading it as text loses
nothing. -/
theorem plain_contents {r : InstanceRecord} (h : r.Legible F) :
    ∀ c ∈ r.contents F, c.val < 0x80 ∧ c ≠ Text.carriageReturn := by
  have hspace : (0x20 : CodePoint).val < 0x80 ∧ (0x20 : CodePoint) ≠ Text.carriageReturn := by
    decide
  have hnewline : Text.newline.val < 0x80 ∧ Text.newline ≠ Text.carriageReturn := by decide
  have hlayout (level : ℕ) : ∀ c ∈ (0x20 : CodePoint) :: Text.newline ::
      List.replicate (1 * level) 0x20, c.val < 0x80 ∧ c ≠ Text.carriageReturn := by
    refine List.forall_mem_cons.mpr ⟨hspace, List.forall_mem_cons.mpr ⟨hnewline, fun c hc => ?_⟩⟩
    rw [List.eq_of_mem_replicate hc]
    exact hspace
  refine forall_mem_dumpsAt_of_ascii (L := recordLayout)
    (P := fun c => c.val < 0x80 ∧ c ≠ Text.carriageReturn)
    (fun c hlow hhigh => ⟨by omega, ?_⟩) hlayout rfl h.printable 0
  rintro rfl
  exact absurd hlow (by decide)

/-- A record has a text that can be written, and it is read again. -/
theorem load_contents {r : InstanceRecord} (h : r.Legible F) :
    ∃ bytes, Text.encode (r.contents F) = some bytes ∧
      load F (some bytes) = some (some r.json) := by
  have hencode := Text.encode_of_ascii fun c hc => (plain_contents h c hc).1
  refine ⟨_, hencode, ?_⟩
  have hreturn : Text.carriageReturn ∉ r.contents F := fun hmem => (plain_contents h _ hmem).2 rfl
  rw [load, Text.readText, Text.decode_eq_some.mpr hencode, Option.map_some,
    Text.universalNewlines_of_not_mem hreturn, Option.map_some, InstanceRecord.contents,
    loads_dumps h.printable]

end Files

end Jetty.Orchestrator.RecordFiles

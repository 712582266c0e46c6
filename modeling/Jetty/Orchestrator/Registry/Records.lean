import Jetty.Core.Publication
import Jetty.Core.Python.Segments
import Jetty.Orchestrator.Registry.Record

/-!
# Records in files

`Registry.write` and `Registry.load` on the registry directory, one file per instance: supervisors
write their records over and over while other commands load them.
-/

namespace Jetty.Orchestrator.RecordFiles

open Publication Python Python.Json Transition

def dot : CodePoint := 0x2E

/-- `Path.with_suffix` on the last segment of a path. -/
def withSuffix (segment suffix : Text) : Text :=
  if dot ∈ segment ∧ Text.beforeLast dot segment ≠ [] ∧ Text.afterLast dot segment ≠ [] then
    Text.beforeLast dot segment ++ suffix
  else segment ++ suffix

/-- `Registry.path`. -/
def path (name : InstanceName) : Text := name.val ++ text ".json"

/-- The temporary file of `Registry.write`. -/
def tmp (name : InstanceName) : Text := withSuffix (path name) (text ".tmp")

private theorem tmp_eq (name : InstanceName) : tmp name = name.val ++ text ".tmp" := by
  have hdot : path name = name.val ++ dot :: text "json" := rfl
  have hfront : Text.beforeLast dot (path name) = name.val := by
    rw [hdot]
    exact Text.beforeLast_append name.val (by decide)
  have hback : Text.afterLast dot (path name) = text "json" := by
    rw [hdot]
    exact Text.afterLast_append name.val (by decide)
  have hmem : dot ∈ path name := by
    rw [hdot]
    exact List.mem_append_right _ List.mem_cons_self
  rw [tmp, withSuffix, hfront, hback, if_pos ⟨hmem, name.property, by decide⟩]

/-- The files of the instances. -/
def names : Names Text InstanceName where
  final := path
  temp := tmp
  final_injective name name' h := Subtype.ext (List.append_cancel_right h)
  temp_injective name name' h := by
    rw [tmp_eq, tmp_eq] at h
    exact Subtype.ext (List.append_cancel_right h)
  final_ne_temp name name' h := by
    rw [tmp_eq] at h
    have hlast := congrArg List.getLast? h
    have hjson : (text ".json").getLast? = some 0x6E := by decide
    have htmp : (text ".tmp").getLast? = some 0x70 := by decide
    rw [path, List.getLast?_append, List.getLast?_append, hjson, htmp, Option.some_or,
      Option.some_or] at hlast
    exact absurd hlast (by decide)

/-- The directory as `Registry` makes it. -/
def emptyDirectory : Directory Text InstanceName ℕ where
  entry _ := none
  content _ := []
  fresh := 0
  pc _ := .idle

private theorem quiet_emptyDirectory : emptyDirectory.Quiet where
  used _ _ h := by cases h
  apart _ _ _ h := by cases h
  idle _ := rfl

section Records

variable (F : Floats)

/-- `Registry.write`: what is begun to be written is the text of a record, under its name. -/
def Writes : Event InstanceName ℕ → Prop
  | (_, .create name payload) => ∃ record : InstanceRecord, record.Legible F ∧
      record.name = name ∧ Text.encode (record.contents F) = some payload
  | _ => True

/-- The steps of the supervisors and of the commands, each name with one writer at a time. -/
def Serves : Transition.Rel (Directory Text InstanceName ℕ) (Event InstanceName ℕ) :=
  (ofPartial (Directory.step names 0)).within fun s e => s.Alone e ∧ Writes F e

end Records

variable {F : Floats} {es : List (Event InstanceName ℕ)} {t : Directory Text InstanceName ℕ}
  {p : ℕ} {name : InstanceName} {result : Option (List ℕ)}

/-- However the writes, the removals and the loads of many processes interleave, and wherever one
of them stops, a record is loaded whole: the one that was in place when its file was opened. -/
theorem load_whole_record
    (h : Run (Serves F) emptyDirectory (es ++ [(p, .answer name result)]) t) :
    ∃ es₁ es₂, es = es₁ ++ (p, .look name) :: es₂ ∧
      (∀ act, (p, act) ∈ es₂ → act.turns = false) ∧
      ((latest name none es₁ = none ∧ load F result = some none) ∨
        ∃ record : InstanceRecord, record.name = name ∧
          latest name none es₁ = Text.encode (record.contents F) ∧
          load F result = some (some record.json)) := by
  have halone : Run ((ofPartial (Directory.step names 0)).within Directory.Alone) emptyDirectory
      (es ++ [(p, .answer name result)]) t :=
    h.mono fun _ _ _ hstep => ⟨hstep.1.1, hstep.2⟩
  obtain ⟨es₁, es₂, rfl, hsilent, hresult⟩ := answer_eq_latest quiet_emptyDirectory halone
  have hresult : result = latest name none es₁ := hresult
  refine ⟨es₁, es₂, rfl, hsilent, ?_⟩
  cases hlatest : latest name none es₁ with
  | none =>
      rw [hresult, hlatest]
      exact .inl ⟨rfl, rfl⟩
  | some payload =>
      rw [List.append_assoc] at h
      obtain ⟨u, hbefore, -⟩ := h.split
      obtain ⟨record, hlegible, hname, hencode⟩ := created_of_latest
        (fun _ _ _ _ hwrite => (hwrite.2 : ∃ record : InstanceRecord, _ ∧ _ ∧ _))
        quiet_emptyDirectory hbefore hlatest
      obtain ⟨bytes, hbytes, hload⟩ := load_contents hlegible
      rw [hencode] at hbytes
      rw [hresult, hlatest, Option.some.inj hbytes]
      exact .inr ⟨record, hname, hencode ▸ hbytes ▸ rfl, hload⟩

/-- An instance. -/
def app : InstanceName := ⟨text "app", by decide⟩

/-- Floating-point numbers without a fraction. -/
def wholeFloats : Floats where
  repr q := numeral q.num.natAbs ++ text ".0"
  ofText s := .finite (((natOfText (s.takeWhile (· ≠ point))).getD 0 : ℕ) : ℚ)

/-- A record of the instance, in which its one service has this state. -/
def appRecord (state : String) : InstanceRecord where
  name := app
  created := .finite 1700000000
  configPath := none
  supervisorPid := 71
  supervisorStartTicks := some 9
  kind := text "pgroup"
  root := none
  ports := .empty
  stateDir := text "/s/app"
  logsDir := text "/l/app"
  state := text "running"
  services := Dict.empty.set (text "web") ⟨text state, none, 0, none, []⟩
  resolvers := .empty

/-- The bytes of its file. -/
def appBytes (state : String) : List ℕ :=
  ((appRecord state).contents wholeFloats).map Fin.val

private theorem legible_appRecord {state : String} (h : ∀ s ∈ (appRecord state).texts, Joined s) :
    (appRecord state).Legible wholeFloats where
  texts := h
  numbers := by
    have hnumbers : ∀ n ∈ ([71, 9, 0] : List ℤ), (numeral n.natAbs).length ≤ 4300 := by decide
    exact hnumbers
  times := by
    have hfaithful : wholeFloats.Faithful (.finite 1700000000) :=
      ⟨[], numeral 1700000000, text ".0", [], ⟨.inl rfl, isInteger_numeral _,
        .inr ⟨[zero], rfl, by decide, List.forall_mem_singleton.mpr (by decide)⟩, .inl rfl⟩,
        by decide, rfl, by decide +kernel⟩
    exact List.forall_mem_singleton.mpr hfaithful

private theorem encode_appRecord {state : String} (h : ∀ s ∈ (appRecord state).texts, Joined s) :
    Text.encode ((appRecord state).contents wholeFloats) = some (appBytes state) :=
  Text.encode_of_ascii fun c hc => (plain_contents (legible_appRecord h) c hc).1

/-- A record is loaded while the next one takes its place. -/
def replacedMeanwhile : List (Event InstanceName ℕ) :=
  [(1, .create app (appBytes "waiting")), (1, .put 200), (1, .put 300), (1, .close),
    (1, .replace app (appBytes "waiting")), (2, .look app), (2, .get 50),
    (1, .create app (appBytes "running")), (1, .put 500), (1, .close),
    (1, .replace app (appBytes "running")), (2, .get 500)]

/-- A record is loaded whole while the next one takes its place. -/
theorem load_whole_record_replaced :
    ∃ es₁ es₂, replacedMeanwhile = es₁ ++ (2, .look app) :: es₂ ∧
      (∀ act, (2, act) ∈ es₂ → act.turns = false) ∧
      ((latest app none es₁ = none ∧ load wholeFloats (some (appBytes "waiting")) = some none) ∨
        ∃ record : InstanceRecord, record.name = app ∧
          latest app none es₁ = Text.encode (record.contents wholeFloats) ∧
          load wholeFloats (some (appBytes "waiting")) = some (some record.json)) := by
  have hwaiting : ∀ s ∈ (appRecord "waiting").texts, Joined s := by decide +kernel
  have hrunning : ∀ s ∈ (appRecord "running").texts, Joined s := by decide +kernel
  obtain ⟨t, hrun, -⟩ := exists_run_of_exec (Directory.step names 0) emptyDirectory
    (replacedMeanwhile ++ [(2, .answer app (some (appBytes "waiting")))]) (fun _ => true)
    (by decide +kernel)
  have howner : ∀ p k payload, (p, .create k payload) ∈
      replacedMeanwhile ++ [(2, .answer app (some (appBytes "waiting")))] → p = 1 := by
    intro p k payload hmem
    simp only [replacedMeanwhile, List.cons_append, List.nil_append, List.mem_cons, Prod.mk.injEq,
      reduceCtorEq, and_false, false_or, List.not_mem_nil, or_false] at hmem
    exact hmem.elim (fun h => h.1) fun h => h.1
  have hwrites : ∀ e ∈ replacedMeanwhile ++ [(2, .answer app (some (appBytes "waiting")))],
      Writes wholeFloats e := by
    have hrecord {state : String} (h : ∀ s ∈ (appRecord state).texts, Joined s) :
        Writes wholeFloats (1, .create app (appBytes state)) :=
      ⟨appRecord state, legible_appRecord h, rfl, encode_appRecord h⟩
    simp only [replacedMeanwhile, List.cons_append, List.nil_append, List.forall_mem_cons]
    exact ⟨hrecord hwaiting, trivial, trivial, trivial, trivial, trivial, trivial,
      hrecord hrunning, trivial, trivial, trivial, trivial, trivial,
      fun _ he => absurd he List.not_mem_nil⟩
  exact load_whole_record (alone_of_owner (fun _ => 1) quiet_emptyDirectory hrun howner hwrites)

end Jetty.Orchestrator.RecordFiles

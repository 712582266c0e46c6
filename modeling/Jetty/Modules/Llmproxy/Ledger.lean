import Jetty.Core.Transition
import Jetty.Modules.Llmproxy.Relay
import Mathlib.Algebra.Ring.Int.Defs

/-!
# The usage counters

Requests to a surface are served at the same time, on a thread of their own; the control plane reads
the counters from another one. Whatever the interleaving, the rows say how many requests of a
model have come in, how many of them have failed, and how many tokens the answers have reported.
-/

namespace Jetty.Llmproxy

open Python Transition

/-! ### Rows -/

instance : Zero Counters := ⟨⟨0, 0, 0, 0⟩⟩

instance : Add Counters := ⟨fun a b => ⟨a.requests + b.requests, a.errors + b.errors,
  a.inputTokens + b.inputTokens, a.outputTokens + b.outputTokens⟩⟩

/-- The row of a model, before it has one as well. -/
def Usage.row (usage : Usage) (m : Text) : Counters := (usage.lookup m).getD 0

private theorem row_record (usage : Usage) (model m : Text) (counters : Counters) :
    Usage.row (record usage model counters) m =
      if model = m then usage.row m + counters else usage.row m := by
  split
  · rename_i hm
    subst hm
    rw [Usage.row, record, List.lookup_cons_self]
    rfl
  · rename_i hm
    rw [Usage.row, lookup_record usage (Ne.symm hm), Usage.row]

private theorem add_zero_counters (c : Counters) : c + 0 = c := by
  cases c
  exact congr (congr (congr (congrArg Counters.mk (Int.add_zero _)) (Int.add_zero _))
    (Int.add_zero _)) (Int.add_zero _)

/-! ### Requests in flight -/

/-- How a surface handles a request: the model that it counts for, if it is counted at all, and
what becomes of it once what it waits for has come out. -/
structure Handler (Req Out Ans : Type*) where
  model : Req → Option Text
  close : Req → Out → Option Counters × Ans

inductive Event (Req Out Ans : Type*)
  | arrive (p : ℕ) (req : Req)
  | settle (p : ℕ) (req : Req) (out : Out) (answer : Ans)
  /-- The client has gone: the handler is cancelled where it waits. -/
  | leave (p : ℕ) (req : Req)
  /-- `GET /usage`. -/
  | query (usage : Usage)

structure Serving (Req : Type*) where
  usage : Usage := []
  flying : List (ℕ × Req) := []

namespace Handler

variable {Req Out Ans : Type*} (H : Handler Req Out Ans)

/-- What is recorded for a request, if it is counted. -/
def count (usage : Usage) (req : Req) (counters : Option Counters) : Usage :=
  match H.model req, counters with
  | some model, some counters => record usage model counters
  | _, _ => usage

/-- One step of the surfaces or of the control plane. -/
def Steps : Transition.Rel (Serving Req) (Event Req Out Ans) := fun s e t =>
  match e with
  | .arrive p req =>
    t = { usage := H.count s.usage req (some ⟨1, 0, 0, 0⟩), flying := (p, req) :: s.flying }
  | .settle p req out answer =>
    (H.close req out).2 = answer ∧ s.flying.Perm ((p, req) :: t.flying) ∧
      t.usage = H.count s.usage req (H.close req out).1
  | .leave p req => s.flying.Perm ((p, req) :: t.flying) ∧ t.usage = s.usage
  | .query usage => usage = s.usage ∧ t = s

/-- What an event adds to the row of a model. -/
def gain (m : Text) : Event Req Out Ans → Counters
  | .arrive _ req => if H.model req = some m then ⟨1, 0, 0, 0⟩ else 0
  | .settle _ req out _ => if H.model req = some m then (H.close req out).1.getD 0 else 0
  | .leave _ _ | .query _ => 0

private theorem row_count (usage : Usage) (req : Req) (m : Text) (counters : Option Counters) :
    Usage.row (H.count usage req counters) m =
      usage.row m + if H.model req = some m then counters.getD 0 else 0 := by
  unfold count
  cases H.model req with
  | none => simp only [reduceCtorEq, if_false, add_zero_counters]
  | some model =>
      cases counters with
      | none => simp only [Option.getD_none, ite_self, add_zero_counters]
      | some counters =>
          simp only [row_record, Option.some.injEq, Option.getD_some]
          split
          · rfl
          · rw [add_zero_counters]

variable {H} {m : Text} {s t : Serving Req} {e : Event Req Out Ans}
  {es : List (Event Req Out Ans)}

private theorem row_step (h : H.Steps s e t) (m : Text) :
    t.usage.row m = s.usage.row m + H.gain m e := by
  cases e with
  | arrive p req =>
      obtain rfl : t = _ := h
      exact H.row_count s.usage req m _
  | settle p req out answer =>
      obtain ⟨-, -, husage⟩ := h
      rw [husage]
      exact H.row_count s.usage req m _
  | leave p req =>
      obtain ⟨-, husage⟩ := h
      rw [husage, gain, add_zero_counters]
  | query usage =>
      obtain ⟨-, rfl⟩ := h
      rw [gain, add_zero_counters]

/-- A counter is what the events have added to it. -/
theorem row_of_run (h : Run H.Steps {} es t) {f : Counters → ℤ} (hzero : f 0 = 0)
    (hadd : ∀ a b, f (a + b) = f a + f b) (m : Text) :
    f (t.usage.row m) = (es.map fun e => f (H.gain m e)).sum := by
  refine h.history_invariant
    (fun es t => f (t.usage.row m) = (es.map fun e => f (H.gain m e)).sum) hzero
    fun es s e t hs hstep => ?_
  rw [row_step hstep m, hadd, hs, List.map_append, List.sum_append, List.map_singleton,
    List.sum_singleton]

/-- The event brings in a request for the model. -/
def arrives (m : Text) : Event Req Out Ans → Bool
  | .arrive _ req => H.model req = some m
  | .settle _ _ _ _ | .leave _ _ | .query _ => false

/-- The event ends a request for the model. -/
def ends (m : Text) : Event Req Out Ans → Bool
  | .settle _ req _ _ | .leave _ req => H.model req = some m
  | .arrive _ _ | .query _ => false

variable (H) in
/-- The requests for a model that are being handled. -/
def inFlight (m : Text) (s : Serving Req) : ℕ := s.flying.countP fun f => H.model f.2 = some m

/-- Every request that has come in has ended or is being handled. -/
theorem arrivals_of_run (h : Run H.Steps {} es t) (m : Text) :
    es.countP (H.arrives m) = H.inFlight m t + es.countP (H.ends m) := by
  refine h.history_invariant (fun es t =>
    es.countP (H.arrives m) = H.inFlight m t + es.countP (H.ends m)) rfl fun es s e t hs hstep => ?_
  rw [List.countP_append, List.countP_append, hs, List.countP_singleton, List.countP_singleton]
  cases e with
  | arrive p req =>
      obtain rfl : t = _ := hstep
      unfold inFlight arrives ends
      rw [List.countP_cons]
      dsimp only
      simp only [Bool.false_eq_true, if_false]
      omega
  | settle p req out answer =>
      obtain ⟨-, hperm, -⟩ := hstep
      unfold inFlight arrives ends
      rw [hperm.countP_eq, List.countP_cons]
      simp only [Bool.false_eq_true, if_false]
      omega
  | leave p req =>
      obtain ⟨hperm, -⟩ := hstep
      unfold inFlight arrives ends
      rw [hperm.countP_eq, List.countP_cons]
      simp only [Bool.false_eq_true, if_false]
      omega
  | query usage =>
      obtain ⟨-, rfl⟩ := hstep
      rfl

private theorem sum_indicator {β : Type*} (p : β → Bool) (l : List β) :
    (l.map fun b => (p b).toInt).sum = l.countP p := by
  induction l with
  | nil => rfl
  | cons b l ih =>
      rw [List.map_cons, List.sum_cons, ih, List.countP_cons]
      cases p b with
      | true => exact Int.add_comm 1 _
      | false => exact Int.zero_add _

end Handler

/-! ### The forwarder -/

section Forwarder

variable (lib : Library) (apiKey : Text)

/-- What is recorded of a body that has arrived, and the reply. -/
def Library.closeBody (r : Upstream) (raw : List ℕ) : Option Counters × Except Exc Reply :=
  let contentType := lib.mediaType r
  if 400 ≤ r.status then (some ⟨0, 1, 0, 0⟩, lib.respond r.status contentType raw)
  else
    match lib.usageOf contentType raw with
    | .error e => (none, .error e)
    | .ok counters => (counters, lib.respond r.status contentType raw)

/-- What is recorded of a response, and the reply; `complete`: its body arrives. -/
def Library.closeRelay (r : Upstream) (complete : Bool) : Option Counters × Except Exc Reply :=
  let contentType := lib.mediaType r
  let lost : Option Counters × Except Exc Reply := (some ⟨0, 1, 0, 0⟩,
    .ok (.synthesized "upstream_lost" "upstream connection lost mid-response"))
  if (text "text/event-stream").isPrefixOf contentType then
    let cacheControl :=
      if (r.headers.map Prod.fst).contains (text "cache-control") then
        lib.get r.headers (text "cache-control")
      else text "no-store"
    (none, .ok (.stream r.status contentType cacheControl))
  else if complete then
    match lib.decodeBody r.headers r.body with
    | some raw => lib.closeBody r raw
    | none => lost
  else lost

/-- `Forwarder.handle` behind its first record: what is recorded, and the reply. -/
def Library.close (req : Request) (exchange : Exchange) : Option Counters × Except Exc Reply :=
  match lib.buildRequest apiKey req with
  | .error e => (none, .error e)
  | .ok _ =>
    match exchange with
    | .unreachable =>
      (some ⟨0, 1, 0, 0⟩, .ok (.synthesized "upstream_unreachable" "upstream unreachable"))
    | .lost r => lib.closeRelay r false
    | .received r => lib.closeRelay r true

/-- A surface in passthrough mode. -/
def forwarder : Handler Request Exchange (Except Exc Reply) where
  model req := some (modelOf (lib.decodePath req.rawPath))
  close := lib.close apiKey

private theorem relay_eq_close (usage : Usage) (model : Text) (r : Upstream) (complete : Bool) :
    lib.relay usage model r complete =
      ((lib.closeRelay r complete).1.elim usage (record usage model),
        (lib.closeRelay r complete).2) := by
  unfold Library.closeRelay Library.relay Library.mediaType
  dsimp only
  split
  · rfl
  · split
    · cases lib.decodeBody r.headers r.body with
      | none => rfl
      | some raw =>
          unfold Library.account Library.closeBody Library.mediaType
          dsimp only
          split
          · rfl
          · cases lib.usageOf (lib.get r.headers (text "content-type")) raw with
            | error e => rfl
            | ok counters => cases counters <;> rfl
    · rfl

/-- A request that nothing comes between is handled as before. -/
theorem handle_eq_close (usage : Usage) (req : Request) (exchange : Exchange) :
    lib.handle apiKey usage req exchange =
      ((forwarder lib apiKey).count ((forwarder lib apiKey).count usage req (some ⟨1, 0, 0, 0⟩)) req
        (lib.close apiKey req exchange).1, (lib.close apiKey req exchange).2) := by
  unfold Library.handle Library.close
  cases lib.buildRequest apiKey req with
  | error e => rfl
  | ok sent =>
      cases exchange with
      | unreachable => rfl
      | lost r =>
          dsimp only
          rw [relay_eq_close]
          cases h : (lib.closeRelay r false).1 <;> rfl
      | received r =>
          dsimp only
          rw [relay_eq_close]
          cases h : (lib.closeRelay r true).1 <;> rfl

/-- The request counts as failed: the proxy made up its answer, or the body was read and the status
is 400 or more. A streamed answer and an exception before or after that do not count. -/
def failed (exchange : Exchange) (answer : Except Exc Reply) : Bool :=
  match exchange, answer with
  | _, .ok (.synthesized _ _) => true
  | _, .ok (.response status _ _) => 400 ≤ status
  | .received r, .error .encoding => 400 ≤ r.status
  | _, _ => false

/-- The counters of the metadata, if there are any. -/
def tokensOf : Except Exc (Option Counters) → Counters
  | .ok (some counters) => counters
  | .ok none | .error _ => 0

/-- What the body of a response that is below 400 and is no stream reports of its tokens. -/
def Library.metered (r : Upstream) (raw : List ℕ) : Counters :=
  if r.status < 400 then tokensOf (lib.usageOf (lib.mediaType r) raw) else 0

/-- What has been reported of the tokens of a request that was sent. -/
def Library.reported (exchange : Exchange) (answer : Except Exc Reply) : Counters :=
  match exchange, answer with
  | _, .error .invalidRequest => 0
  | .received r, _ => ((lib.decodeBody r.headers r.body).map (lib.metered r)).getD 0
  | _, _ => 0

variable {lib apiKey}

private theorem usageOf_counts {contentType : Text} {raw : List ℕ} {counters : Counters}
    (h : lib.usageOf contentType raw = .ok (some counters)) :
    counters.requests = 0 ∧ counters.errors = 0 := by
  unfold Library.usageOf at h
  split at h
  · split at h
    · split at h
      · split at h
        · obtain rfl := Option.some.inj (Except.ok.inj h)
          exact ⟨rfl, rfl⟩
        · cases h
        · cases h
      · cases Except.ok.inj h
    · cases Except.ok.inj h
  · cases Except.ok.inj h

variable (lib) in
private theorem respond_cases (status : ℕ) (contentType : Text) (raw : List ℕ) :
    (∃ value, lib.respond status contentType raw = .ok (.response status value raw)) ∨
      lib.respond status contentType raw = .error .encoding := by
  unfold Library.respond
  split
  · exact .inl ⟨none, rfl⟩
  · split
    · exact .inl ⟨_, rfl⟩
    · exact .inr rfl

/-- The counters of a closing say what has failed and what was reported. -/
structure Accounts (closed : Option Counters × Except Exc Reply) (bad : Bool) (tokens : Counters) :
    Prop where
  requests : (closed.1.getD 0).requests = 0
  errors : (closed.1.getD 0).errors = bad.toInt
  inputTokens : (closed.1.getD 0).inputTokens = tokens.inputTokens
  outputTokens : (closed.1.getD 0).outputTokens = tokens.outputTokens

private theorem usageOf_stream {contentType : Text} {raw : List ℕ}
    (h : (text "text/event-stream").isPrefixOf contentType = true) :
    lib.usageOf contentType raw = .ok none := by
  have hnot : (text "application/json").isPrefixOf contentType = false := by
    obtain ⟨rest, rfl⟩ := List.isPrefixOf_iff_prefix.mp h
    rfl
  rw [Library.usageOf, hnot]
  rfl

private theorem usageOf_error {contentType : Text} {raw : List ℕ} {e : Exc}
    (h : lib.usageOf contentType raw = .error e) : e = .conversion := by
  have htoken {metadata : List (Text × Json)} {name : String} {e : Exc}
      (h : tokenCount metadata name = .error e) : e = .conversion := by
    unfold tokenCount at h
    split at h
    · cases h
    · split at h
      · cases h
      · exact (Except.error.inj h).symm
  unfold Library.usageOf at h
  split at h
  · split at h
    · split at h
      · split at h
        · cases h
        · rename_i hinput
          obtain rfl := Except.error.inj h
          exact htoken hinput
        · rename_i houtput
          obtain rfl := Except.error.inj h
          exact htoken houtput
      · cases h
    · cases h
  · cases h

private theorem failed_respond {r : Upstream} {contentType : Text} {raw : List ℕ} :
    failed (.received r) (lib.respond r.status contentType raw) = decide (400 ≤ r.status) := by
  rcases respond_cases lib r.status contentType raw with ⟨value, hvalue⟩ | hencoding
  · rw [hvalue]
    rfl
  · rw [hencoding]
    rfl

private theorem accounts_body (r : Upstream) (raw : List ℕ) :
    Accounts (lib.closeBody r raw) (failed (.received r) (lib.closeBody r raw).2)
      (lib.metered r raw) := by
  unfold Library.closeBody Library.metered
  dsimp only
  by_cases hstatus : 400 ≤ r.status
  · rw [if_pos hstatus, if_neg (Nat.not_lt_of_le hstatus), failed_respond, decide_eq_true hstatus]
    exact ⟨rfl, rfl, rfl, rfl⟩
  · rw [if_neg hstatus, if_pos (Nat.lt_of_not_le hstatus)]
    cases husage : lib.usageOf (lib.mediaType r) raw with
    | error e =>
        obtain rfl := usageOf_error husage
        exact ⟨rfl, rfl, rfl, rfl⟩
    | ok counters =>
        dsimp only
        rw [failed_respond, decide_eq_false hstatus]
        cases counters with
        | none => exact ⟨rfl, rfl, rfl, rfl⟩
        | some counters =>
            obtain ⟨hrequests, herrors⟩ := usageOf_counts husage
            exact ⟨hrequests, herrors, rfl, rfl⟩

private theorem closeBody_answer (r : Upstream) (raw : List ℕ) :
    (lib.closeBody r raw).2 ≠ .error .invalidRequest := by
  have hrespond : lib.respond r.status (lib.mediaType r) raw ≠ .error .invalidRequest := by
    rcases respond_cases lib r.status (lib.mediaType r) raw with ⟨value, hvalue⟩ | hencoding
    · rw [hvalue]
      intro h
      cases h
    · rw [hencoding]
      intro h
      cases h
  unfold Library.closeBody
  dsimp only
  split
  · exact hrespond
  · cases husage : lib.usageOf (lib.mediaType r) raw with
    | error e =>
        obtain rfl := usageOf_error husage
        intro h
        cases h
    | ok counters => exact hrespond

private theorem reported_of_sent {r : Upstream} {answer : Except Exc Reply}
    (h : answer ≠ .error .invalidRequest) : lib.reported (.received r) answer =
      ((lib.decodeBody r.headers r.body).map (lib.metered r)).getD 0 := by
  cases answer with
  | ok reply => rfl
  | error e =>
      cases e with
      | invalidRequest => exact absurd rfl h
      | conversion | encoding => rfl

private theorem accounts_received (r : Upstream) :
    Accounts (lib.closeRelay r true) (failed (.received r) (lib.closeRelay r true).2)
      (lib.reported (.received r) (lib.closeRelay r true).2) := by
  unfold Library.closeRelay
  dsimp only
  by_cases hstream : (text "text/event-stream").isPrefixOf (lib.mediaType r) = true
  · rw [if_pos hstream, reported_of_sent (by intro h; cases h)]
    have hnothing : ((lib.decodeBody r.headers r.body).map (lib.metered r)).getD 0 = 0 := by
      cases lib.decodeBody r.headers r.body with
      | none => rfl
      | some raw =>
          rw [Option.map_some, Option.getD_some, Library.metered, usageOf_stream hstream]
          exact ite_self _
    rw [hnothing]
    exact ⟨rfl, rfl, rfl, rfl⟩
  · rw [if_neg hstream, if_pos rfl]
    cases hbody : lib.decodeBody r.headers r.body with
    | none =>
        dsimp only
        rw [reported_of_sent (by intro h; cases h), hbody]
        exact ⟨rfl, rfl, rfl, rfl⟩
    | some raw =>
        dsimp only
        rw [reported_of_sent (closeBody_answer r raw), hbody]
        exact accounts_body r raw

private theorem buildRequest_error {req : Request} {e : Exc}
    (h : lib.buildRequest apiKey req = .error e) : e = .invalidRequest := by
  unfold Library.buildRequest at h
  split at h
  · cases h
  · exact (Except.error.inj h).symm

/-- What is recorded of a request says what has become of it. -/
theorem accounts_close (req : Request) (exchange : Exchange) :
    Accounts (lib.close apiKey req exchange) (failed exchange (lib.close apiKey req exchange).2)
      (lib.reported exchange (lib.close apiKey req exchange).2) := by
  unfold Library.close
  cases hbuild : lib.buildRequest apiKey req with
  | error e =>
      obtain rfl := buildRequest_error hbuild
      cases exchange with
      | unreachable | lost | received => exact ⟨rfl, rfl, rfl, rfl⟩
  | ok sent =>
      cases exchange with
      | unreachable => exact ⟨rfl, rfl, rfl, rfl⟩
      | lost r =>
          dsimp only
          unfold Library.closeRelay
          dsimp only
          split
          · exact ⟨rfl, rfl, rfl, rfl⟩
          · exact ⟨rfl, rfl, rfl, rfl⟩
      | received r => exact accounts_received r

/-! ### Whole runs -/

variable (lib) in
/-- The event ends a request for the model, and it has failed. -/
def fails (m : Text) : Event Request Exchange (Except Exc Reply) → Bool
  | .settle _ req exchange answer =>
    decide (modelOf (lib.decodePath req.rawPath) = m) && failed exchange answer
  | .arrive _ _ | .leave _ _ | .query _ => false

variable (lib) in
/-- What an event reports of the tokens of the model. -/
def reports (m : Text) : Event Request Exchange (Except Exc Reply) → Counters
  | .settle _ req exchange answer =>
    if modelOf (lib.decodePath req.rawPath) = m then lib.reported exchange answer else 0
  | .arrive _ _ | .leave _ _ | .query _ => 0

/-- The answers of a run are those of the forwarder. -/
theorem answered_of_run {t : Serving Request}
    {es : List (Event Request Exchange (Except Exc Reply))}
    (h : Run (forwarder lib apiKey).Steps {} es t) :
    ∀ p req exchange answer, .settle p req exchange answer ∈ es →
      (lib.close apiKey req exchange).2 = answer := by
  refine h.history_invariant (fun es _ => ∀ p req exchange answer,
    .settle p req exchange answer ∈ es → (lib.close apiKey req exchange).2 = answer)
    (fun _ _ _ _ hmem => absurd hmem List.not_mem_nil)
    fun es s e t hs hstep p req exchange answer hmem => ?_
  rcases List.mem_append.mp hmem with hmem | hmem
  · exact hs p req exchange answer hmem
  · obtain rfl := List.mem_singleton.mp hmem
    exact hstep.1

/-- What an event adds to a row. -/
theorem gain_of_answered {e : Event Request Exchange (Except Exc Reply)} (m : Text)
    (h : ∀ p req exchange answer, e = .settle p req exchange answer →
      (lib.close apiKey req exchange).2 = answer) :
    ((forwarder lib apiKey).gain m e).requests =
        ((forwarder lib apiKey).arrives m e).toInt ∧
      ((forwarder lib apiKey).gain m e).errors = (fails lib m e).toInt ∧
      ((forwarder lib apiKey).gain m e).inputTokens = (reports lib m e).inputTokens ∧
      ((forwarder lib apiKey).gain m e).outputTokens = (reports lib m e).outputTokens := by
  have hmodel (req : Request) : (forwarder lib apiKey).model req = some m ↔
      modelOf (lib.decodePath req.rawPath) = m := by
    rw [forwarder, Option.some.injEq]
  cases e with
  | arrive p req =>
      unfold Handler.gain Handler.arrives fails reports
      dsimp only
      by_cases hm : (forwarder lib apiKey).model req = some m
      · rw [if_pos hm, decide_eq_true hm]
        exact ⟨rfl, rfl, rfl, rfl⟩
      · rw [if_neg hm, decide_eq_false hm]
        exact ⟨rfl, rfl, rfl, rfl⟩
  | settle p req exchange answer =>
      obtain rfl := h p req exchange answer rfl
      unfold Handler.gain Handler.arrives fails reports
      dsimp only
      by_cases hm : (forwarder lib apiKey).model req = some m
      · rw [if_pos hm, if_pos ((hmodel req).mp hm), decide_eq_true ((hmodel req).mp hm),
          Bool.true_and]
        have haccounts : Accounts (lib.close apiKey req exchange) _ _ :=
          accounts_close req exchange
        exact ⟨haccounts.requests, haccounts.errors, haccounts.inputTokens,
          haccounts.outputTokens⟩
      · rw [if_neg hm, if_neg fun h => hm ((hmodel req).mpr h),
          decide_eq_false fun h => hm ((hmodel req).mpr h), Bool.false_and]
        exact ⟨rfl, rfl, rfl, rfl⟩
  | leave | query => exact ⟨rfl, rfl, rfl, rfl⟩

/-- The counters are exact at any time of any run, whichever requests are being handled at the
same time: the requests of a model that have come in, those that count as failed, and the tokens
that the bodies which were read have reported; none is lost and none is counted twice. A request
that nothing comes between is handled as `handle` does it. -/
theorem usage_exact {t : Serving Request} {es : List (Event Request Exchange (Except Exc Reply))}
    (h : Run (forwarder lib apiKey).Steps {} es t) (m : Text) :
    (t.usage.row m).requests = es.countP ((forwarder lib apiKey).arrives m) ∧
      (t.usage.row m).errors = es.countP (fails lib m) ∧
      (t.usage.row m).inputTokens = (es.map fun e => (reports lib m e).inputTokens).sum ∧
      (t.usage.row m).outputTokens = (es.map fun e => (reports lib m e).outputTokens).sum ∧
      es.countP ((forwarder lib apiKey).arrives m) = (forwarder lib apiKey).inFlight m t +
        es.countP ((forwarder lib apiKey).ends m) ∧
      (∀ before usage, es = before ++ [.query usage] → usage = t.usage) ∧
      ∀ usage req exchange, lib.handle apiKey usage req exchange =
        ((forwarder lib apiKey).count
          ((forwarder lib apiKey).count usage req (some ⟨1, 0, 0, 0⟩)) req
          (lib.close apiKey req exchange).1, (lib.close apiKey req exchange).2) := by
  have hgain : ∀ e ∈ es, _ := fun e he => gain_of_answered m
    fun p req exchange answer heq => answered_of_run h p req exchange answer (heq ▸ he)
  refine ⟨?_, ?_, ?_, ?_, Handler.arrivals_of_run h m, fun before usage hquery => ?_,
    handle_eq_close lib apiKey⟩
  · rw [Handler.row_of_run h (f := Counters.requests) rfl (fun _ _ => rfl) m,
      ← Handler.sum_indicator]
    exact congrArg _ (List.map_congr_left fun e he => (hgain e he).1)
  · rw [Handler.row_of_run h (f := Counters.errors) rfl (fun _ _ => rfl) m,
      ← Handler.sum_indicator]
    exact congrArg _ (List.map_congr_left fun e he => (hgain e he).2.1)
  · rw [Handler.row_of_run h (f := Counters.inputTokens) rfl (fun _ _ => rfl) m]
    exact congrArg _ (List.map_congr_left fun e he => (hgain e he).2.2.1)
  · rw [Handler.row_of_run h (f := Counters.outputTokens) rfl (fun _ _ => rfl) m]
    exact congrArg _ (List.map_congr_left fun e he => (hgain e he).2.2.2)
  · obtain ⟨u, -, husage, rfl⟩ := (hquery ▸ h).unsnoc
    exact husage

/-- Two requests at the same time, of which the later one fails first. -/
def crossing : List (Event Request Exchange (Except Exc Reply)) :=
  let lib := plainLibrary (counting (.int 7))
  [.arrive 1 generate, .arrive 2 generate,
    .settle 2 generate .unreachable (lib.close (text "secret") generate .unreachable).2,
    .settle 1 generate (.received success)
      (lib.close (text "secret") generate (.received success)).2]

/-- Of two requests at the same time the one that fails is counted. -/
theorem usage_exact_crossing :
    ∃ t, Run (forwarder (plainLibrary (counting (.int 7))) (text "secret")).Steps {} crossing t ∧
      (t.usage.row (text "m")).errors =
        crossing.countP (fails (plainLibrary (counting (.int 7))) (text "m")) := by
  have hsettle (s : Serving Request) (p : ℕ) (exchange : Exchange) (rest : List (ℕ × Request))
      (hflying : s.flying = (p, generate) :: rest) :
      (forwarder (plainLibrary (counting (.int 7))) (text "secret")).Steps s
        (.settle p generate exchange ((plainLibrary (counting (.int 7))).close (text "secret")
          generate exchange).2)
        ⟨(forwarder (plainLibrary (counting (.int 7))) (text "secret")).count s.usage generate
          ((plainLibrary (counting (.int 7))).close (text "secret") generate exchange).1, rest⟩ :=
    ⟨rfl, .of_eq hflying, rfl⟩
  obtain ⟨t, hrun⟩ : ∃ t, Run (forwarder (plainLibrary (counting (.int 7))) (text "secret")).Steps
      {} crossing t :=
    ⟨_, .cons rfl <| .cons rfl <| .cons (hsettle _ 2 .unreachable _ rfl) <|
      .cons (hsettle _ 1 (.received success) _ rfl) .nil⟩
  exact ⟨t, hrun, (usage_exact hrun (text "m")).2.1⟩

end Forwarder

end Jetty.Llmproxy

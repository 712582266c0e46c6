import Jetty.Core.Python.Utf8
import Jetty.Modules.Llmproxy.Forward

/-!
# Relaying a response

What `handle` returns for a response that was received in full. The counters of its metadata are
converted outside of the handler that makes parsing harmless, and the framework writes the
content type anew.
-/

namespace Jetty.Llmproxy

open Python

variable (lib : Library)

/-- The content type of a response; an empty value is none. -/
def Upstream.contentType (r : Upstream) : Option (List ℕ) :=
  if fieldValue r.headers (text "content-type") = [] then none
  else some (fieldValue r.headers (text "content-type"))

/-- The text of the content type. -/
def Library.mediaType (r : Upstream) : Text := lib.get r.headers (text "content-type")

/-- The response is not a stream of events. -/
def Library.Whole (r : Upstream) : Prop :=
  (text "text/event-stream").isPrefixOf (lib.mediaType r) = false

/-- The counters of the metadata, if there are any, are numbers for `int`. -/
def Library.Countable (raw : List ℕ) : Prop :=
  ∀ entries metadata, lib.loads raw = some (.dict entries) →
    Json.get? entries (text "usageMetadata") = some (.dict metadata) →
    ∀ name ∈ ["promptTokenCount", "candidatesTokenCount"], ∀ value,
      Json.get? metadata (text name) = some value → value.toInt.isSome = true

/-- The content type needs no charset, and its bytes are those of its text in Latin-1. -/
def Library.PlainType (r : Upstream) : Prop :=
  lib.mediaType r = [] ∨ lacksCharset (lib.mediaType r) = false ∧
    Text.latin1 (lib.mediaType r) = some (fieldValue r.headers (text "content-type"))

/-- The content encoding changes nothing, the content type is plain, and of a success in JSON
the counters are numbers. -/
def Library.Relayable (r : Upstream) : Prop :=
  lib.decodeBody r.headers r.body = some r.body ∧ lib.PlainType r ∧
    (r.status < 400 → (text "application/json").isPrefixOf (lib.mediaType r) = true →
      lib.Countable r.body)

section Types

variable {lib}

private theorem encode_intercalate (sep : Text) {sepBytes : List ℕ}
    (hsep : Text.encode sep = some sepBytes)
    {values : List (List ℕ)} (h : ∀ v ∈ values, ∃ t, Text.encode t = some v) :
    ∃ t, Text.encode t = some (sepBytes.intercalate values) := by
  induction values with
  | nil => exact ⟨[], rfl⟩
  | cons v values ih =>
      obtain ⟨t, ht⟩ := h v (List.mem_cons_self ..)
      obtain ⟨t', ht'⟩ := ih fun v hv => h v (List.mem_cons_of_mem _ hv)
      cases values with
      | nil => exact ⟨t, by simpa using ht⟩
      | cons w values =>
          refine ⟨t ++ (sep ++ t'), ?_⟩
          rw [Text.encode_append_of_eq ht (Text.encode_append_of_eq hsep ht')]
          simp [List.intercalate]

/-- What the text of a header has to do with its bytes. -/
theorem get_cases (lib : Library) (r : Upstream) (name : Text) :
    Text.encode (lib.get r.headers name) = some (fieldValue r.headers name) ∨
      lib.get r.headers name = (fieldValue r.headers name).map (Fin.ofNat _) := by
  by_cases hutf8 : AllUtf8 r.headers
  · obtain ⟨t, ht⟩ : ∃ t, Text.encode t = some (fieldValue r.headers name) := by
      refine encode_intercalate (text ", ") (by decide) fun v hv => ?_
      obtain ⟨h, hh, rfl⟩ := List.mem_map.mp hv
      exact hutf8 h (List.mem_of_mem_filter hh)
    rw [lib.get_utf8 _ _ t hutf8 ht]
    exact .inl ht
  · exact .inr (lib.get_latin1 _ _ hutf8 r.bytes)

private theorem encode_eq_nil {t : Text} : Text.encode t = some [] ↔ t = [] := by
  constructor
  · intro h
    cases t with
    | nil => rfl
    | cons c t =>
        rw [← List.singleton_append, Text.encode_append, Text.encode_singleton] at h
        obtain ⟨a, ha, h⟩ := Option.bind_eq_some_iff.mp h
        obtain ⟨b, -, hab⟩ := Option.map_eq_some_iff.mp h
        rw [(List.append_eq_nil_iff.mp hab).1] at ha
        exact absurd ha Text.encodePoint_ne_nil
  · rintro rfl
    rfl

private theorem mediaType_eq_nil (r : Upstream) :
    lib.mediaType r = [] ↔ fieldValue r.headers (text "content-type") = [] := by
  rcases get_cases lib r (text "content-type") with henc | hlatin
  · constructor
    · intro h
      rw [show lib.get r.headers (text "content-type") = [] from h] at henc
      exact (Option.some.inj henc).symm
    · intro h
      rw [h] at henc
      exact encode_eq_nil.mp henc
  · rw [Library.mediaType, hlatin, List.map_eq_nil_iff]

private theorem latin1_eq_some {t : Text} {bytes : List ℕ} (h : Text.latin1 t = some bytes) :
    bytes = t.map Fin.val := by
  unfold Text.latin1 at h
  split_ifs at h
  exact (Option.some.inj h).symm

/-- The framework never adds a charset without changing the bytes. -/
theorem contentType_eq_some (r : Upstream) :
    lib.contentType (lib.mediaType r) = some (fieldValue r.headers (text "content-type")) ↔
      lacksCharset (lib.mediaType r) = false ∧
        Text.latin1 (lib.mediaType r) = some (fieldValue r.headers (text "content-type")) := by
  cases hlacks : lacksCharset (lib.mediaType r) with
  | false => simp only [lib.contentType_other _ hlacks, true_and]
  | true =>
      simp only [lib.contentType_text _ hlacks, Bool.true_eq_false, false_and, iff_false]
      intro heq
      have hbytes := latin1_eq_some heq
      rw [List.map_append] at hbytes
      rcases get_cases lib r (text "content-type") with henc | hlatin
      · have hascii : ((text "; charset=utf-8").all fun c => decide (c.val < 0x80)) = true := by
          decide
        rw [hbytes] at henc
        obtain ⟨u, hu⟩ := Text.suffix_of_encode
          (fun c hc => of_decide_eq_true (List.all_eq_true.mp hascii c hc)) henc
        have hinfix : text "charset=" <:+: Text.lower (lib.mediaType r) := by
          rw [show lib.mediaType r = u ++ text "; charset=utf-8" from hu.symm, Text.lower,
            List.map_append]
          have hsuffix : text "charset=" <:+: (text "; charset=utf-8").map Text.lowerPoint :=
            ⟨text "; ", text "utf-8", by decide⟩
          exact hsuffix.trans (List.suffix_append _ _).isInfix
        simp [lacksCharset, hinfix] at hlacks
      · have hlength := congrArg List.length hbytes
        rw [Library.mediaType, hlatin] at hlength
        simp only [List.length_append, List.length_map] at hlength
        have hsuffix : (text "; charset=utf-8").length = 15 := by decide
        omega

private theorem respond_eq (r : Upstream) (raw : List ℕ) :
    lib.respond r.status (lib.mediaType r) raw = .ok (.response r.status r.contentType r.body) ↔
      raw = r.body ∧ lib.PlainType r := by
  unfold Library.respond Upstream.contentType Library.PlainType
  by_cases hnil : lib.mediaType r = []
  · rw [if_pos hnil, if_pos ((mediaType_eq_nil r).mp hnil)]
    simp [hnil]
  · rw [if_neg hnil, if_neg fun h => hnil ((mediaType_eq_nil r).mpr h), ← contentType_eq_some]
    cases htype : lib.contentType (lib.mediaType r) with
    | none => simp [hnil]
    | some value =>
        simp only [Except.ok.injEq, Reply.response.injEq, Option.some.injEq, true_and, hnil,
          false_or]
        exact and_comm

end Types

section Usage

variable {lib}

private theorem tokenCount_isOk {metadata : List (Text × Json)} {name : String} :
    (∃ n, tokenCount metadata name = .ok n) ↔
      ∀ value, Json.get? metadata (text name) = some value → value.toInt.isSome = true := by
  unfold tokenCount
  cases hget : Json.get? metadata (text name) with
  | none => simp
  | some value => cases hint : value.toInt <;> simp [hint]

/-- Accounting raises nothing exactly if the counters of a JSON body are numbers. -/
theorem usageOf_isOk (contentType : Text) (raw : List ℕ) :
    (∃ counters, lib.usageOf contentType raw = .ok counters) ↔
      ((text "application/json").isPrefixOf contentType = true → lib.Countable raw) := by
  unfold Library.usageOf
  by_cases hjson : (text "application/json").isPrefixOf contentType = true
  · simp only [hjson, if_true, forall_const]
    have hother (h : ∀ entries metadata, lib.loads raw = some (.dict entries) →
        Json.get? entries (text "usageMetadata") ≠ some (.dict metadata)) : lib.Countable raw :=
      fun entries metadata hloads hmetadata => absurd hmetadata (h entries metadata hloads)
    split
    · rename_i entries hloads
      split
      · rename_i metadata hmetadata
        have hcount : lib.Countable raw ↔
            (∃ n, tokenCount metadata "promptTokenCount" = .ok n) ∧
              ∃ n, tokenCount metadata "candidatesTokenCount" = .ok n := by
          simp only [tokenCount_isOk]
          constructor
          · intro h
            exact ⟨h entries metadata hloads hmetadata _ (by simp),
              h entries metadata hloads hmetadata _ (by simp)⟩
          · rintro ⟨hinput, houtput⟩ entries' metadata' hloads' hmetadata' name hname value hvalue
            rw [hloads] at hloads'
            cases hloads'
            rw [hmetadata] at hmetadata'
            cases hmetadata'
            simp only [List.mem_cons, List.not_mem_nil, or_false] at hname
            rcases hname with rfl | rfl
            · exact hinput value hvalue
            · exact houtput value hvalue
        rw [hcount]
        cases tokenCount metadata "promptTokenCount" <;>
          cases tokenCount metadata "candidatesTokenCount" <;> simp
      · rename_i hnone
        refine iff_of_true ⟨_, rfl⟩ (hother fun entries' metadata hloads' hmetadata => ?_)
        rw [hloads] at hloads'
        cases hloads'
        exact hnone metadata hmetadata
    · rename_i hnone
      exact iff_of_true ⟨_, rfl⟩
        (hother fun entries metadata hloads => absurd hloads (hnone entries))
  · simp [hjson]

private theorem lookup_filter_ne (usage : Usage) {model m : Text} (hne : m ≠ model) :
    (usage.filter fun entry => entry.1 ≠ model).lookup m = usage.lookup m := by
  induction usage with
  | nil => rfl
  | cons entry usage ih =>
      obtain ⟨m', counters⟩ := entry
      rw [List.filter_cons]
      by_cases hm : m' = model
      · subst hm
        have hkey : (m == m') = false := beq_eq_false_iff_ne.mpr hne
        simp only [ne_eq, not_true_eq_false, decide_false, Bool.false_eq_true, if_false, ih,
          List.lookup_cons, hkey]
      · simp only [ne_eq, hm, not_false_eq_true, decide_true, if_true, List.lookup_cons, ih]

/-- What is recorded of one model leaves the others alone. -/
theorem lookup_record (usage : Usage) {model m : Text} (hne : m ≠ model) (by_ : Counters) :
    (record usage model by_).lookup m = usage.lookup m := by
  have hkey : (m == model) = false := beq_eq_false_iff_ne.mpr hne
  rw [record, List.lookup_cons, hkey]
  exact lookup_filter_ne usage hne

end Usage

section Main

variable {lib} {apiKey : Text} {req : Request} {r : Upstream}

variable (lib r) in
/-- What becomes of the body that was read. -/
theorem account_eq (usage : Usage) (model : Text) (raw : List ℕ) :
    (lib.account usage model r.status (lib.mediaType r) raw).2 =
        .ok (.response r.status r.contentType r.body) ↔
      raw = r.body ∧ lib.PlainType r ∧ (r.status < 400 →
        (text "application/json").isPrefixOf (lib.mediaType r) = true → lib.Countable raw) := by
  unfold Library.account
  by_cases hstatus : 400 ≤ r.status
  · rw [if_pos hstatus, respond_eq]
    have hnot : ¬ r.status < 400 := by omega
    simp [hnot]
  · rw [if_neg hstatus]
    have hlt : r.status < 400 := by omega
    simp only [hlt, forall_const, ← usageOf_isOk]
    rcases husage : lib.usageOf (lib.mediaType r) raw with e | counters
    · simp
    · cases counters <;> simp [respond_eq]

private theorem relay_eq (usage : Usage) (model : Text) (hwhole : lib.Whole r) :
    (lib.relay usage model r true).2 = .ok (.response r.status r.contentType r.body) ↔
      lib.Relayable r := by
  have hwhole : (text "text/event-stream").isPrefixOf
      (lib.get r.headers (text "content-type")) = false := hwhole
  simp only [Library.relay, Library.Relayable, hwhole, Bool.false_eq_true, if_false, if_true]
  cases hbody : lib.decodeBody r.headers r.body with
  | none => simp [lostReply]
  | some raw =>
      have haccount := account_eq lib r usage model raw
      simp only [Library.mediaType] at haccount ⊢
      rw [haccount, Option.some.injEq]
      constructor
      · rintro ⟨rfl, h⟩
        exact ⟨rfl, h⟩
      · rintro ⟨rfl, h⟩
        exact ⟨rfl, h⟩

/-- The reply does not depend on the counters, and only the row of the model changes. -/
theorem relay_usage (usage usage' : Usage) (model : Text) (complete : Bool) :
    (lib.relay usage model r complete).2 = (lib.relay usage' model r complete).2 ∧
      ∀ m ≠ model, (lib.relay usage model r complete).1.lookup m = usage.lookup m := by
  have hlost : (lostReply usage model).2 = (lostReply usage' model).2 ∧
      ∀ m ≠ model, (lostReply usage model).1.lookup m = usage.lookup m :=
    ⟨rfl, fun m hm => lookup_record usage hm _⟩
  simp only [Library.relay]
  split
  · exact ⟨rfl, fun m _ => rfl⟩
  · split
    · split
      · simp only [Library.account]
        split
        · exact ⟨rfl, fun m hm => lookup_record usage hm _⟩
        · split
          · exact ⟨rfl, fun m _ => rfl⟩
          · exact ⟨rfl, fun m _ => rfl⟩
          · exact ⟨rfl, fun m hm => lookup_record usage hm _⟩
      · exact hlost
    · exact hlost

/-- A response that is received in full is returned with its status, content type and body,
exactly if it is relayable; accounting only changes the counters of the model. -/
theorem handle_received_iff {sent : Sent} (hbuild : lib.buildRequest apiKey req = .ok sent)
    (hwhole : lib.Whole r) (usage : Usage) :
    ((lib.handle apiKey usage req (.received r)).2 =
        .ok (.response r.status r.contentType r.body) ↔ lib.Relayable r) ∧
      (∀ usage', (lib.handle apiKey usage' req (.received r)).2 =
        (lib.handle apiKey usage req (.received r)).2) ∧
      ∀ m ≠ modelOf (lib.decodePath req.rawPath),
        (lib.handle apiKey usage req (.received r)).1.lookup m = usage.lookup m := by
  have hhandle (usage : Usage) : lib.handle apiKey usage req (.received r) =
      lib.relay (record usage (modelOf (lib.decodePath req.rawPath)) ⟨1, 0, 0, 0⟩)
        (modelOf (lib.decodePath req.rawPath)) r true := by
    rw [Library.handle, hbuild]
  refine ⟨?_, fun usage' => ?_, fun m hm => ?_⟩
  · rw [hhandle]
    exact relay_eq _ _ hwhole
  · rw [hhandle, hhandle]
    exact (relay_usage _ _ _ _).1
  · rw [hhandle, (relay_usage _ [] _ _).2 m hm, lookup_record usage hm]

end Main

section Plain

def percent : CodePoint := 0x25

/-- The characters that a query does not keep. -/
def isSpecial (c : CodePoint) : Bool := c == percent || c == ampersand || c == equalsSign

def hexDigit (n : ℕ) : CodePoint := Fin.ofNat _ (if n < 10 then 0x30 + n else 0x37 + n)

def hexValue (c : CodePoint) : ℕ := if c.val < 0x3A then c.val - 0x30 else c.val - 0x37

def quotePoint (c : CodePoint) : Text :=
  if isSpecial c then [percent, hexDigit (c.val / 0x10), hexDigit (c.val % 0x10)] else [c]

/-- A quoting of queries that leaves ordinary characters alone. -/
def plainQuote (t : Text) : Text := t.flatMap quotePoint

/-- The inverse of `plainQuote`. -/
def plainUnquote : Text → Text
  | [] => []
  | [c] => [c]
  | [c, d] => [c, d]
  | c :: d :: e :: cs =>
    if c = percent then Fin.ofNat _ (hexValue d * 0x10 + hexValue e) :: plainUnquote cs
    else c :: plainUnquote (d :: e :: cs)

private theorem plainUnquote_cons {c : CodePoint} (hc : c ≠ percent) (t : Text) :
    plainUnquote (c :: t) = c :: plainUnquote t := by
  match t with
  | [] => rfl
  | [d] => rfl
  | d :: e :: cs => rw [plainUnquote, if_neg hc]

private theorem plainUnquote_quotePoint (c : CodePoint) (t : Text) :
    plainUnquote (quotePoint c ++ t) = c :: plainUnquote t := by
  unfold quotePoint
  split
  · rename_i hspecial
    simp only [isSpecial, Bool.or_eq_true, beq_iff_eq] at hspecial
    rcases hspecial with (rfl | rfl) | rfl <;> rfl
  · rename_i hspecial
    refine plainUnquote_cons (fun h => hspecial ?_) t
    rw [h]
    rfl

private theorem plainUnquote_plainQuote (t : Text) : plainUnquote (plainQuote t) = t := by
  induction t with
  | nil => rfl
  | cons c t ih => rw [plainQuote, List.flatMap_cons, plainUnquote_quotePoint, ← plainQuote, ih]

private theorem plainQuote_plain (t : Text) :
    ampersand ∉ plainQuote t ∧ equalsSign ∉ plainQuote t := by
  have hpoint (c : CodePoint) : ampersand ∉ quotePoint c ∧ equalsSign ∉ quotePoint c := by
    unfold quotePoint
    split
    · rename_i hspecial
      simp only [isSpecial, Bool.or_eq_true, beq_iff_eq] at hspecial
      rcases hspecial with (rfl | rfl) | rfl <;> decide
    · rename_i hspecial
      simp only [isSpecial, Bool.or_eq_true, beq_iff_eq, not_or] at hspecial
      simp only [List.mem_singleton]
      exact ⟨Ne.symm hspecial.1.2, Ne.symm hspecial.2⟩
  simp only [plainQuote, List.mem_flatMap, not_exists, not_and]
  exact ⟨fun c _ => (hpoint c).1, fun c _ => (hpoint c).2⟩

instance (headers : List (Text × List ℕ)) : Decidable (AllUtf8 headers) :=
  decidable_of_iff (∀ h ∈ headers, (Text.decode h.2).isSome = true) <| by
    simp only [AllUtf8, Option.isSome_iff_exists, Text.decode_eq_some]

/-- A framework and a client for plain targets and values. -/
def plainLibrary (loads : List ℕ → Option Json) : Library where
  decodePath := plainUnquote
  encodePath := some
  unquote := plainUnquote
  quote := plainQuote
  unquote_quote := plainUnquote_plainQuote
  quote_plain := plainQuote_plain
  arrange := id
  arrange_perm params := .refl params
  encodeValue value := if value.all fun c => decide (c.val < 0x80) then some value else none
  defaults := []
  get headers name :=
    if AllUtf8 headers then (Text.decode (fieldValue headers name)).getD []
    else (fieldValue headers name).map (Fin.ofNat _)
  get_utf8 headers name t hutf8 ht := by
    rw [if_pos hutf8, Text.decode_eq_some.mpr ht, Option.getD_some]
  get_latin1 headers name hutf8 _ := if_neg hutf8
  decodeBody headers body :=
    if ∀ h ∈ headers, h.1 ≠ text "content-encoding" then some body else none
  decodeBody_identity headers body h := if_pos h
  contentType mediaType :=
    Text.latin1 (if lacksCharset mediaType then mediaType ++ text "; charset=utf-8" else mediaType)
  contentType_text mediaType h := by rw [if_pos h]
  contentType_other mediaType h := by rw [h, if_neg Bool.false_ne_true]
  loads := loads

/-- A request for a generation. -/
def generate : Request where
  method := text "POST"
  rawPath := text "v1beta/models/m:generateContent"
  rawQuery := text "alt=json"
  headers := [(text "content-type", text "application/json")]
  body := []

/-- A success in JSON. -/
def success : Upstream where
  status := 200
  headers := [(text "content-type", "application/json".toList.map Char.toNat)]
  body := "metadata".toList.map Char.toNat
  bytes := by decide

/-- A body with one counter. -/
def counting (value : Json) (_ : List ℕ) : Option Json :=
  some (.dict [(text "usageMetadata", .dict [(text "promptTokenCount", value)])])

private theorem build_generate (loads : List ℕ → Option Json) :
    ∃ sent, (plainLibrary loads).buildRequest (text "secret") generate = .ok sent :=
  ⟨_, rfl⟩

private theorem mediaType_success (loads : List ℕ → Option Json) :
    (plainLibrary loads).mediaType success = text "application/json" :=
  (plainLibrary loads).get_utf8 _ _ _ (by decide +kernel) (by decide +kernel)

private theorem whole_success (loads : List ℕ → Option Json) :
    (plainLibrary loads).Whole success := by
  rw [Library.Whole, mediaType_success]
  decide

private theorem relayable_success {n : ℤ} :
    (plainLibrary (counting (.int n))).Relayable success := by
  refine ⟨(plainLibrary _).decodeBody_identity _ _ (by decide), .inr ?_, fun _ _ => ?_⟩
  · rw [mediaType_success]
    exact ⟨by decide, by decide⟩
  intro entries metadata hloads hmetadata name hname value hvalue
  cases hloads
  cases hmetadata
  simp only [List.mem_cons, List.not_mem_nil, or_false] at hname
  rcases hname with rfl | rfl
  · cases hvalue
    rfl
  · cases hvalue

/-- A counter that is a number. -/
theorem handle_success : ((plainLibrary (counting (.int 7))).handle (text "secret") [] generate
    (.received success)).2 = .ok (.response 200 success.contentType success.body) := by
  obtain ⟨sent, hbuild⟩ := build_generate (counting (.int 7))
  exact (handle_received_iff hbuild (whole_success _) []).1.mpr relayable_success

/-- A counter that is `null`. -/
theorem not_handle_success : ¬ ∀ (lib : Library) (apiKey : Text) (usage : Usage) (req : Request)
    (r : Upstream) (sent : Sent), lib.buildRequest apiKey req = .ok sent → lib.Whole r →
      (lib.handle apiKey usage req (.received r)).2 =
        .ok (.response r.status r.contentType r.body) := by
  intro h
  obtain ⟨sent, hbuild⟩ := build_generate (counting .null)
  have hreturns := h _ _ [] _ _ _ hbuild (whole_success _)
  have hraises : ((plainLibrary (counting .null)).handle (text "secret") [] generate
      (.received success)).2 = .error .conversion := by
    decide +kernel
  rw [hraises] at hreturns
  cases hreturns

end Plain

end Jetty.Llmproxy

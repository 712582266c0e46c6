import Jetty.Modules.Llmproxy.Relay
import Mathlib.Data.List.Nodup
import Mathlib.Data.List.Perm.Subperm

/-!
# Relaying a request

What is sent upstream for a request of a client. The headers pass through a dictionary, the path
and the query are decoded and written anew, so that a request is relayed unchanged exactly if it
was written in the way in which it is written again.
-/

namespace Jetty.Llmproxy

open Python

variable (lib : Library) (apiKey : Text)

/-- The headers of the client that are not withheld. -/
def Request.relayed (req : Request) : List Header := req.headers.filter fun h => !withheld h.1

/-- The headers that should be sent. -/
def Request.expectedHeaders (req : Request) : List Header :=
  req.relayed ++ [(authHeader, apiKey), (text "accept-encoding", text "identity")]

/-- The pieces of the raw query without the `key` parameters. -/
def Library.keptSegments (req : Request) : List Text :=
  (segments req.rawQuery).filter fun s => (lib.param s).1 ≠ text "key"

/-- The request is sent as the client wrote it, but for what is withheld. -/
structure Transparent (req : Request) (sent : Sent) : Prop where
  method : sent.method = req.method
  body : sent.body = req.body
  path : sent.rawPath = text "/" ++ req.rawPath
  query : segments sent.rawQuery = lib.keptSegments req
  headers : sent.headers.Perm (req.expectedHeaders apiKey)
  headerOrder : ∀ name, (sent.headers.filter fun h => Text.lower h.1 = Text.lower name) =
    (req.expectedHeaders apiKey).filter fun h => Text.lower h.1 = Text.lower name

/-- The request is written in the way in which it is written again. -/
structure Canonical (req : Request) : Prop where
  /-- The raw path is that of the path it stands for. -/
  path : lib.encodePath (text "/" ++ lib.decodePath req.rawPath) = some (text "/" ++ req.rawPath)
  /-- A piece of the query is that of the parameter it stands for, and not taken for a `key`. -/
  params : ∀ s ∈ lib.keptSegments req, lib.writeParam (lib.param s) = s ∧
    Text.lower (lib.param s).1 ≠ text "key"
  /-- The parameters stand in the order in which they are written. -/
  order : lib.arrange ((lib.keptSegments req).map lib.param) = (lib.keptSegments req).map lib.param
  /-- No relayed header is repeated. -/
  distinct : (req.relayed.map Prod.fst).Nodup
  /-- The values are sent as they are. -/
  values : ∀ h ∈ req.expectedHeaders apiKey, lib.encodeValue h.2 = some h.2
  /-- The client adds no header of its own. -/
  defaults : ∀ d ∈ lib.defaults, Text.lower d.1 ∈
    (req.expectedHeaders apiKey).map fun h => Text.lower h.1

section Query

variable {lib}

private theorem param_writeParam (p : Text × Text) : lib.param (lib.writeParam p) = p := by
  simp only [Library.param, Library.writeParam,
    Text.partition_append (lib.quote_plain p.1).2, lib.unquote_quote]

private theorem ampersand_notMem_writeParam (p : Text × Text) : ampersand ∉ lib.writeParam p := by
  simp only [Library.writeParam, List.mem_append, List.mem_cons, not_or]
  exact ⟨(lib.quote_plain p.1).1, by decide, (lib.quote_plain p.2).1⟩

private theorem writeParam_ne_nil (p : Text × Text) : lib.writeParam p ≠ [] := by
  simp [Library.writeParam]

/-- The pieces of the query that is sent. -/
theorem segments_writeQuery (params : List (Text × Text)) :
    segments (lib.writeQuery params) = (lib.arrange params).map lib.writeParam := by
  unfold Library.writeQuery segments
  cases harrange : lib.arrange params with
  | nil => rfl
  | cons p ps =>
      have hne : [ampersand].intercalate ((p :: ps).map lib.writeParam) ≠ [] := by
        cases ps <;> simp [List.intercalate, writeParam_ne_nil]
      rw [if_neg hne]
      refine List.splitOn_intercalate _ ?_ (by simp)
      intro s hs
      obtain ⟨q, -, rfl⟩ := List.mem_map.mp hs
      exact ampersand_notMem_writeParam q

private theorem lower_key : Text.lower (text "key") = text "key" := by decide

/-- With canonical pieces, the relayed parameters are those of the pieces that are kept. -/
theorem relayedParams_eq {req : Request}
    (h : ∀ s ∈ lib.keptSegments req, lib.writeParam (lib.param s) = s ∧
      Text.lower (lib.param s).1 ≠ text "key") :
    lib.relayedParams req.rawQuery = (lib.keptSegments req).map lib.param := by
  rw [Library.relayedParams, Library.multiItems, List.filter_map, List.filter_filter]
  congr 1
  refine List.filter_congr fun s hs => ?_
  rw [Bool.eq_iff_iff]
  simp only [Function.comp_apply, Bool.and_eq_true, Bool.not_eq_true', decide_eq_true_eq,
    credentialParams, List.contains_eq_mem, List.mem_singleton, decide_eq_false_iff_not]
  constructor
  · rintro ⟨hlower, -⟩ hkey
    rw [hkey, lower_key] at hlower
    exact hlower rfl
  · intro hkey
    obtain ⟨hwrite, hlower⟩ := h s (List.mem_filter.mpr ⟨hs, decide_eq_true hkey⟩)
    refine ⟨hlower, ?_⟩
    rw [← hwrite]
    exact writeParam_ne_nil _

/-- The query is sent as it was exactly if its pieces are canonical and in order. -/
theorem query_iff (req : Request) :
    segments (lib.writeQuery (lib.relayedParams req.rawQuery)) = lib.keptSegments req ↔
      (∀ s ∈ lib.keptSegments req, lib.writeParam (lib.param s) = s ∧
        Text.lower (lib.param s).1 ≠ text "key") ∧
      lib.arrange ((lib.keptSegments req).map lib.param) =
        (lib.keptSegments req).map lib.param := by
  rw [segments_writeQuery]
  constructor
  · intro heq
    have hparams : ∀ s ∈ lib.keptSegments req, lib.writeParam (lib.param s) = s ∧
        Text.lower (lib.param s).1 ≠ text "key" := by
      intro s hs
      rw [← heq] at hs
      obtain ⟨p, hp, rfl⟩ := List.mem_map.mp hs
      rw [param_writeParam]
      have hrelayed := (List.mem_filter.mp ((lib.arrange_perm _).mem_iff.mp hp)).2
      refine ⟨rfl, ?_⟩
      simpa [credentialParams] using hrelayed
    refine ⟨hparams, ?_⟩
    rw [← relayedParams_eq hparams]
    have hmap := congrArg (List.map lib.param) heq
    rw [List.map_map, ← relayedParams_eq hparams] at hmap
    have hid : (lib.arrange (lib.relayedParams req.rawQuery)).map (lib.param ∘ lib.writeParam) =
        lib.arrange (lib.relayedParams req.rawQuery) :=
      (List.map_congr_left fun p _ => param_writeParam p).trans (List.map_id _)
    exact hid.symm.trans hmap
  · rintro ⟨hparams, horder⟩
    rw [relayedParams_eq hparams, horder, List.map_map]
    refine (List.map_congr_left fun s hs => ?_).trans (List.map_id _)
    exact (hparams s hs).1

end Query

section Headers

variable {lib apiKey}

private theorem assign_of_notMem {dict : List Header} {name : Text} (h : name ∉ dict.map Prod.fst)
    (value : Text) : assign dict name value = dict ++ [(name, value)] := if_neg h

private theorem names_assign (dict : List Header) (name value : Text) :
    (assign dict name value).map Prod.fst =
      if name ∈ dict.map Prod.fst then dict.map Prod.fst else dict.map Prod.fst ++ [name] := by
  unfold assign
  split
  · rw [List.map_map]
    refine List.map_congr_left fun h _ => ?_
    simp only [Function.comp_apply]
    split
    · rename_i hname
      exact hname.symm
    · rfl
  · rw [List.map_append, List.map_singleton]

/-- A dictionary has every name once. -/
theorem names_foldl_assign (headers dict : List Header) (hdict : (dict.map Prod.fst).Nodup) :
    ((headers.foldl (fun dict h => assign dict h.1 h.2) dict).map Prod.fst).Nodup ∧
      ∀ name, name ∈ (headers.foldl (fun dict h => assign dict h.1 h.2) dict).map Prod.fst ↔
        name ∈ dict.map Prod.fst ∨ name ∈ headers.map Prod.fst := by
  induction headers generalizing dict with
  | nil => exact ⟨hdict, fun name => by simp⟩
  | cons h headers ih =>
      have hnames := names_assign dict h.1 h.2
      have hassign : ((assign dict h.1 h.2).map Prod.fst).Nodup := by
        rw [hnames]
        split
        · exact hdict
        · rename_i hnew
          refine List.nodup_append.mpr ⟨hdict, List.pairwise_singleton _ _,
            fun name hname n hn heq => ?_⟩
          rw [← List.mem_singleton.mp hn, ← heq] at hnew
          exact hnew hname
      refine ⟨(ih _ hassign).1, fun name => ?_⟩
      rw [List.foldl_cons, (ih _ hassign).2, hnames]
      split
      · rename_i hmem
        rw [List.map_cons, List.mem_cons]
        constructor
        · rintro (hname | hname)
          · exact .inl hname
          · exact .inr (.inr hname)
        · rintro (hname | rfl | hname)
          · exact .inl hname
          · exact .inl hmem
          · exact .inr hname
      · rw [List.map_cons, List.mem_cons, List.mem_append, List.mem_singleton, or_assoc]

/-- Headers without repetition are their own dictionary. -/
theorem foldl_assign_of_nodup {headers : List Header} (dict : List Header)
    (h : (dict.map Prod.fst ++ headers.map Prod.fst).Nodup) :
    headers.foldl (fun dict h => assign dict h.1 h.2) dict = dict ++ headers := by
  induction headers generalizing dict with
  | nil => exact (List.append_nil dict).symm
  | cons header headers ih =>
      have hnew : header.1 ∉ dict.map Prod.fst := fun hmem =>
        (List.nodup_append.mp h).2.2 _ hmem _ (List.mem_cons_self ..) rfl
      rw [List.foldl_cons, assign_of_notMem hnew, ih, List.append_assoc, List.singleton_append]
      rw [List.map_append, List.map_singleton, List.append_assoc, List.singleton_append]
      exact h

/-- A dictionary as long as the headers has all of them. -/
theorem nodup_of_length_relayedHeaders {req : Request}
    (h : (relayedHeaders req.headers).length = req.relayed.length) :
    (req.relayed.map Prod.fst).Nodup := by
  obtain ⟨hnodup, hmem⟩ := names_foldl_assign req.relayed [] List.nodup_nil
  have hsubperm :
      ((relayedHeaders req.headers).map Prod.fst).Subperm (req.relayed.map Prod.fst) :=
    List.subperm_of_subset hnodup fun name hname => by simpa using (hmem name).mp hname
  have hperm := hsubperm.perm_of_length_le (by simp [h])
  exact hperm.nodup_iff.mp hnodup

private theorem notMem_relayed {req : Request} {name : Text} (h : withheld name = true) :
    name ∉ req.relayed.map Prod.fst := by
  intro hmem
  obtain ⟨header, hheader, rfl⟩ := List.mem_map.mp hmem
  have hnot := (List.mem_filter.mp hheader).2
  rw [h] at hnot
  cases hnot

private theorem withheld_authHeader : withheld authHeader = true := by decide

private theorem withheld_acceptEncoding : withheld (text "accept-encoding") = true := by decide

/-- The headers that the client is given end with those of the forwarder. -/
theorem givenHeaders_eq (req : Request) :
    givenHeaders apiKey req.headers = relayedHeaders req.headers ++
      [(authHeader, apiKey), (text "accept-encoding", text "identity")] := by
  have hmem := (names_foldl_assign req.relayed [] List.nodup_nil).2
  have hnot {name : Text} (h : withheld name = true) :
      name ∉ (relayedHeaders req.headers).map Prod.fst := by
    intro hname
    have hrelayed := (hmem name).mp hname
    rw [List.map_nil] at hrelayed
    exact notMem_relayed h (hrelayed.resolve_left (List.not_mem_nil))
  rw [givenHeaders, assign_of_notMem (hnot withheld_authHeader), assign_of_notMem]
  · simp
  · rw [List.map_append, List.mem_append, List.map_singleton, List.mem_singleton]
    have hne : text "accept-encoding" ≠ authHeader := by decide
    exact not_or.mpr ⟨hnot withheld_acceptEncoding, hne⟩

variable (apiKey) in
private theorem nodup_expectedHeaders {req : Request} (h : (req.relayed.map Prod.fst).Nodup) :
    ((req.expectedHeaders apiKey).map Prod.fst).Nodup := by
  rw [Request.expectedHeaders, List.map_append]
  have hown : [authHeader, text "accept-encoding"].Nodup := by decide
  refine List.nodup_append.mpr ⟨h, hown, fun name hname name' hname' heq => ?_⟩
  subst heq
  simp only [List.map_cons, List.map_nil, List.mem_cons, List.not_mem_nil, or_false] at hname'
  rcases hname' with rfl | rfl
  · exact notMem_relayed withheld_authHeader hname
  · exact notMem_relayed withheld_acceptEncoding hname

private theorem mapM_encodeValue {headers written : List Header}
    (h : headers.mapM (fun h => (lib.encodeValue h.2).map (h.1, ·)) = some written) :
    written.length = headers.length ∧ ∀ header ∈ headers, ∃ value,
      lib.encodeValue header.2 = some value ∧ (header.1, value) ∈ written := by
  induction headers generalizing written with
  | nil =>
      cases h
      exact ⟨rfl, fun header hmem => by cases hmem⟩
  | cons header headers ih =>
      rw [List.mapM_cons] at h
      obtain ⟨first, hfirst, h⟩ := Option.bind_eq_some_iff.mp h
      obtain ⟨rest, hrest, h⟩ := Option.bind_eq_some_iff.mp h
      obtain ⟨value, hvalue, rfl⟩ := Option.map_eq_some_iff.mp hfirst
      cases h
      obtain ⟨hlength, hmem⟩ := ih hrest
      refine ⟨by simp [hlength], fun header' hheader => ?_⟩
      rcases List.mem_cons.mp hheader with rfl | hheader
      · exact ⟨value, hvalue, List.mem_cons_self ..⟩
      · obtain ⟨value', hvalue', hwritten⟩ := hmem header' hheader
        exact ⟨value', hvalue', List.mem_cons_of_mem _ hwritten⟩

private theorem mapM_encodeValue_of_eq {headers : List Header}
    (h : ∀ header ∈ headers, lib.encodeValue header.2 = some header.2) :
    headers.mapM (fun h => (lib.encodeValue h.2).map (h.1, ·)) = some headers := by
  induction headers with
  | nil => rfl
  | cons header headers ih =>
      rw [List.mapM_cons, h header (List.mem_cons_self ..),
        ih fun header' hheader => h header' (List.mem_cons_of_mem _ hheader)]
      rfl

/-- The client is given every name that should be sent, and no other. -/
theorem mem_lowerNames (req : Request) (name : Text) :
    (name ∈ (givenHeaders apiKey req.headers).map fun h => Text.lower h.1) ↔
      name ∈ (req.expectedHeaders apiKey).map fun h => Text.lower h.1 := by
  have hnames := (names_foldl_assign req.relayed [] List.nodup_nil).2
  have hrelayed : (name ∈ (relayedHeaders req.headers).map fun h => Text.lower h.1) ↔
      name ∈ req.relayed.map fun h => Text.lower h.1 := by
    have hlower (headers : List Header) : (name ∈ headers.map fun h => Text.lower h.1) ↔
        ∃ n ∈ headers.map Prod.fst, Text.lower n = name := by simp
    rw [hlower, hlower]
    refine exists_congr fun n => and_congr_left fun _ => ?_
    have hn := hnames n
    rw [List.map_nil] at hn
    exact hn.trans (or_iff_right List.not_mem_nil)
  rw [givenHeaders_eq, Request.expectedHeaders, List.map_append, List.map_append, List.mem_append,
    List.mem_append, hrelayed]

variable (lib apiKey) in
/-- The headers are sent as they should be exactly if none is repeated, refused or added. -/
theorem headers_iff (req : Request) :
    (∃ sent, lib.writeHeaders (givenHeaders apiKey req.headers) = some sent ∧
      sent.Perm (req.expectedHeaders apiKey) ∧
      ∀ name, (sent.filter fun h => Text.lower h.1 = Text.lower name) =
        (req.expectedHeaders apiKey).filter fun h => Text.lower h.1 = Text.lower name) ↔
      (req.relayed.map Prod.fst).Nodup ∧
      (∀ h ∈ req.expectedHeaders apiKey, lib.encodeValue h.2 = some h.2) ∧
      ∀ d ∈ lib.defaults, Text.lower d.1 ∈
        (req.expectedHeaders apiKey).map fun h => Text.lower h.1 := by
  have hgiven (hdistinct : (req.relayed.map Prod.fst).Nodup) :
      givenHeaders apiKey req.headers = req.expectedHeaders apiKey := by
    have hdict : relayedHeaders req.headers = req.relayed :=
      foldl_assign_of_nodup [] hdistinct
    rw [givenHeaders_eq, hdict]
    rfl
  constructor
  · rintro ⟨sent, hwrite, hperm, -⟩
    obtain ⟨written, hwritten, rfl⟩ := Option.map_eq_some_iff.mp hwrite
    obtain ⟨hlength, hvalues⟩ := mapM_encodeValue hwritten
    -- a header of the client's own has a name that should not be sent
    have hmissing : lib.missingDefaults (givenHeaders apiKey req.headers) = [] := by
      refine List.eq_nil_iff_forall_not_mem.mpr fun d hd => ?_
      have hexpected := hperm.mem_iff.mp (List.mem_append_right written hd)
      have hgivenName := (mem_lowerNames req _).mpr
        (List.mem_map_of_mem (f := fun h => Text.lower h.1) hexpected)
      have hnot := (List.mem_filter.mp hd).2
      simp only [Bool.not_eq_true', List.contains_eq_mem, decide_eq_false_iff_not] at hnot
      exact hnot hgivenName
    rw [hmissing, List.append_nil] at hperm
    have hsame : (relayedHeaders req.headers).length = req.relayed.length := by
      have hexpected := hperm.length_eq
      rw [hlength, givenHeaders_eq, Request.expectedHeaders, List.length_append,
        List.length_append] at hexpected
      exact Nat.add_right_cancel hexpected
    have hdistinct := nodup_of_length_relayedHeaders hsame
    refine ⟨hdistinct, fun h hh => ?_, fun d hd => ?_⟩
    · rw [hgiven hdistinct] at hvalues
      obtain ⟨value, hvalue, hwritten⟩ := hvalues h hh
      have hheader : (h.1, value) = h := List.inj_on_of_nodup_map
        (nodup_expectedHeaders apiKey hdistinct) (hperm.mem_iff.mp hwritten) hh rfl
      rw [hvalue, ← hheader]
    · by_contra hnot
      have hmem : d ∈ lib.missingDefaults (givenHeaders apiKey req.headers) := by
        refine List.mem_filter.mpr ⟨hd, ?_⟩
        rw [← mem_lowerNames] at hnot
        simpa using hnot
      rw [hmissing] at hmem
      cases hmem
  · rintro ⟨hdistinct, hvalues, hdefaults⟩
    have hmissing : lib.missingDefaults (req.expectedHeaders apiKey) = [] := by
      refine List.filter_eq_nil_iff.mpr fun d hd => ?_
      simpa using hdefaults d hd
    refine ⟨req.expectedHeaders apiKey, ?_, .refl _, fun _ => rfl⟩
    rw [Library.writeHeaders, hgiven hdistinct, mapM_encodeValue_of_eq hvalues, hmissing]
    simp

end Headers

section Main

/-- A request is relayed as the client wrote it exactly if it is canonical. -/
theorem transparent_iff (req : Request) :
    (∃ sent, lib.buildRequest apiKey req = .ok sent ∧ Transparent lib apiKey req sent) ↔
      Canonical lib apiKey req := by
  constructor
  · rintro ⟨sent, hbuild, htransparent⟩
    unfold Library.buildRequest at hbuild
    split at hbuild
    · rename_i rawPath headers hpath hheaders
      cases hbuild
      obtain ⟨hparams, horder⟩ := (query_iff req).mp htransparent.query
      obtain ⟨hdistinct, hvalues, hdefaults⟩ := (headers_iff lib apiKey req).mp
        ⟨headers, hheaders, htransparent.headers, htransparent.headerOrder⟩
      rw [show rawPath = text "/" ++ req.rawPath from htransparent.path] at hpath
      exact ⟨hpath, hparams, horder, hdistinct, hvalues, hdefaults⟩
    · cases hbuild
  · intro h
    obtain ⟨headers, hheaders, hperm, horder⟩ := (headers_iff lib apiKey req).mpr
      ⟨h.distinct, h.values, h.defaults⟩
    refine ⟨⟨req.method, text "/" ++ req.rawPath, lib.writeQuery (lib.relayedParams req.rawQuery),
      headers, req.body⟩, ?_, ?_⟩
    · simp only [Library.buildRequest, h.path, hheaders]
    · exact ⟨rfl, rfl, rfl, (query_iff req).mpr ⟨h.params, h.order⟩, hperm, horder⟩

/-- A request with one header in two lines. -/
def twice : Request :=
  { generate with headers :=
      [(text "x-goog-request-params", text "a"), (text "x-goog-request-params", text "b")] }

/-- The second line takes the place of the first. -/
theorem not_transparent_twice : ¬ ∀ (lib : Library) (apiKey : Text) (req : Request),
    ∃ sent, lib.buildRequest apiKey req = .ok sent ∧ Transparent lib apiKey req sent := by
  intro h
  obtain ⟨sent, hbuild, htransparent⟩ := h (plainLibrary fun _ => none) (text "secret") twice
  have hlength := htransparent.headers.length_eq
  cases hbuild
  exact absurd hlength (by decide)

end Main

end Jetty.Llmproxy

import KongGateway.Kong.Tracing.Formats

/-!
# Hop — a context that is injected and extracted again

For each format, the extractor reads from the headers of its injector the
ids and the sampling decision that were written. The extractors of w3c and
jaeger refuse ids of zeros; a jaeger context has a parent, of zeros where
there was none.
-/

namespace KongGateway.Kong.Tracing

open Bytes Numerals LuaPattern

/-! ## Every format -/

/-- An id of zeros. -/
def zeros (n : Nat) : Text := List.replicate n 0

/-- The formats that carry a parent id. -/
def Injector.carriesParent : Injector → Bool
  | .b3 | .b3Single | .jaeger => true
  | _ => false

/-- The formats whose injector and extractor leave a missing decision out. -/
def Injector.keepsUndecided : Injector → Bool
  | .b3Single | .ot | .datadog => true
  | _ => false

/-- The decision of a context; the debug flag of b3 overrides it. -/
def Injector.decision (injector : Injector) (ctx : Context) : Option Bool :=
  match injector with
  | .b3 | .b3Single => ctx.b3Decision
  | _ => ctx.shouldSample

/-- The trace id that arrives: all of it, or its low 8 bytes. -/
def Injector.arrivingTraceId (injector : Injector) (ctx : Context) (traceId : Text) : Text :=
  if injector.newTraceIdSize ctx = 16 then traceId else zeros 8 ++ traceId.drop 8

/-- The parent that arrives; in jaeger a missing one is written as 0. -/
def Injector.arrivingParentId (injector : Injector) (ctx : Context) : Option Text :=
  match injector with
  | .jaeger => some (ctx.parentId.getD (zeros 8))
  | _ => ctx.parentId

/-- Whether a trace id of zeros is read back. -/
def Injector.readsZeroTrace (env : Env) : Injector → Prop
  | .w3c | .jaeger => False
  | .datadog => env.toBinary (ofText "0") = some []
  | _ => True

/-- Whether a span id of zeros is read back. -/
def Injector.readsZeroSpan (env : Env) : Injector → Prop
  | .w3c | .jaeger => False
  | .datadog | .gcp => env.toBinary (ofText "0") = some []
  | _ => True

/-- The contexts that arrive: with ids of the internal sizes, that are not
zeros where the format refuses these; a b3 context with the debug flag or
none; and without a decision, no parent in a single b3 header that starts
with `0`, `1` or `d`. -/
structure Arrives (env : Env) (injector : Injector) (ctx : Context) (traceId spanId : Text) :
    Prop where
  hasTraceId : ctx.traceId = some traceId
  traceIdLength : traceId.length = 16
  hasSpanId : ctx.spanId = some spanId
  spanIdLength : spanId.length = 8
  parentIdLength : injector.carriesParent = true → ∀ id ∈ ctx.parentId, id.length = 8
  zeroTrace : injector.arrivingTraceId ctx traceId = zeros 16 → injector.readsZeroTrace env
  zeroSpan : spanId = zeros 8 → injector.readsZeroSpan env
  flags : injector = .b3 → ctx.flags = none ∨ ctx.flags = some (.one (ofText "1"))
  told : injector = .b3Single → ctx.b3Decision = none →
    ∀ id ∈ ctx.parentId, ∀ b ∈ id.head?, b.val / 16 ≠ 0 ∧ b.val / 16 ≠ 1 ∧ b.val / 16 ≠ 13

theorem newTraceIdSize_cases (injector : Injector) (ctx : Context) :
    injector.newTraceIdSize ctx = 16 ∨ injector.newTraceIdSize ctx = 8 := by
  have hmem : injector.newTraceIdSize ctx ∈ injector.traceIdAllowedSizes := by
    unfold Injector.newTraceIdSize
    have hhead : injector.traceIdAllowedSizes.headD 16 ∈ injector.traceIdAllowedSizes := by
      cases injector <;> decide
    cases ctx.traceIdOriginalSize with
    | none => exact hhead
    | some size =>
      simp only
      split
      · assumption
      · exact hhead
  cases injector <;> simp only [Injector.traceIdAllowedSizes, List.mem_cons, List.not_mem_nil,
    or_false] at hmem <;> omega

theorem toIdSize_of_lt {id : Text} {n : Nat} (h : id.length < n) :
    toIdSize id n = zeros (n - id.length) ++ id := by
  rw [toIdSize, if_neg (by omega), if_pos h]
  rfl

theorem toIdSize_trace {injector : Injector} {ctx : Context} {traceId : Text}
    (h : traceId.length = 16) :
    toIdSize (toIdSize traceId (injector.newTraceIdSize ctx)) 16
      = injector.arrivingTraceId ctx traceId := by
  unfold Injector.arrivingTraceId
  rcases newTraceIdSize_cases injector ctx with hsize | hsize
  · rw [hsize, if_pos rfl, toIdSize_of_length h, toIdSize_of_length h]
  · rw [hsize, if_neg (by decide)]
    have hlow : toIdSize traceId 8 = traceId.drop 8 := by simp [toIdSize, h]
    have hlen : (traceId.drop 8).length = 8 := by simp [h]
    rw [hlow, toIdSize_of_lt (by omega), hlen]

theorem number_ne_zero {id : Text} {n : Nat} (hlen : id.length = n) (h : id ≠ zeros n) :
    number id ≠ 0 := by
  intro hzero
  refine h (number_inj (by simp [hlen, zeros]) ?_)
  have hz := number_replicate_zero_append n []
  rw [List.append_nil] at hz
  rw [hzero, zeros, hz]
  rfl

/-! ## Injecting and extracting -/

section

variable {env : Env} {injector : Injector} {ctx found : Context} {traceId spanId : Text}

/-- What an extracted context has of the injected one. -/
structure Brought (injector : Injector) (ctx found : Context) (traceId spanId : Text) : Prop where
  trace : found.traceId = some (injector.arrivingTraceId ctx traceId)
  span : found.spanId = some spanId
  parent : injector.carriesParent = true → found.parentId = injector.arrivingParentId ctx
  sample : (injector.decision ctx).isSome = true ∨ injector.keepsUndecided = true →
    found.shouldSample = injector.decision ctx

/-- A context that is injected, and what is extracted from the headers that
are set. -/
def SurvivesHop (env : Env) (injector : Injector) (ctx : Context) (traceId spanId : Text) : Prop :=
  ∃ headers formatted found, injector.inject env ctx = .ok (.ok (headers, formatted))
    ∧ injector.extractor.extract env headers = .ok (some found)
    ∧ Brought injector ctx found traceId spanId

theorem get_cons_self (name : String) (value : HeaderValue) (headers : Headers) :
    Headers.get ((name, value) :: headers) name = some value := by
  simp [Headers.get]

theorem get_cons_ne {name name' : String} (h : name' ≠ name) (value : HeaderValue)
    (headers : Headers) : Headers.get ((name, value) :: headers) name' = headers.get name' := by
  simp [Headers.get, List.lookup_cons, beq_false_of_ne h]

/-- The headers as they are set. -/
def Headers.set (headers : Headers) : Headers :=
  headers.map fun header => (header.1, normalizeMultiHeader header.2)

theorem get_set (headers : Headers) (name : String) :
    headers.set.get name = (headers.get name).map normalizeMultiHeader := by
  unfold Headers.set Headers.get
  induction headers with
  | nil => rfl
  | cons header headers ih =>
    obtain ⟨name', value⟩ := header
    rw [List.map_cons, List.lookup_cons, List.lookup_cons]
    cases name == name' with
    | true => rfl
    | false => exact ih

theorem get_set_one {headers : Headers} {name : String} {value : Text}
    (h : headers.get name = some (.one value)) (hne : value ≠ []) :
    headers.set.get name = some (.one value) := by
  rw [get_set, h, Option.map_some, normalizeMultiHeader, if_neg hne]

theorem get_set_none {headers : Headers} {name : String} (h : headers.get name = none) :
    headers.set.get name = none := by
  rw [get_set, h, Option.map_none]

theorem inject_eq {headers : Headers} (ht : ctx.traceId = some traceId)
    (hs : ctx.spanId = some spanId)
    (hcreate : injector.createHeaders env (injector.resize ctx) = .ok headers) :
    ∃ formatted, injector.inject env ctx = .ok (.ok (headers.set, formatted)) := by
  have hverify : injector.verifyContext ctx = none := by
    simp [Injector.verifyContext, ht, hs]
  obtain ⟨formatted, hformatted⟩ : ∃ formatted,
      injector.formattedTraceId env (injector.resize ctx).traceId = .ok formatted := by
    simp only [Injector.resize, ht, Option.map_some]
    cases injector <;> exact ⟨_, rfl⟩
  refine ⟨formatted, ?_⟩
  simp only [Injector.inject, hverify, hcreate, hformatted, bind, Except.bind, Headers.set]

theorem extract_eq {extractor : Extractor} {headers : Headers} {name : String} {value : HeaderValue}
    (hname : name ∈ extractor.anyHeaders) (hget : headers.get name = some value)
    (hcontext : extractor.getContext env headers = .ok (some found)) :
    extractor.extract env headers = .ok (some found.toKong) := by
  have hverify : extractor.verifyHeaders headers = true := by
    rw [Extractor.verifyHeaders, List.any_eq_true]
    exact ⟨name, hname, by simp [hget]⟩
  rw [Extractor.extract, if_pos hverify, hcontext]
  rfl

@[simp] theorem resize_shouldSample : (injector.resize ctx).shouldSample = ctx.shouldSample := rfl

@[simp] theorem resize_flags : (injector.resize ctx).flags = ctx.flags := rfl

@[simp] theorem resize_baggage : (injector.resize ctx).baggage = ctx.baggage := rfl

theorem resize_eq (h : Arrives env injector ctx traceId spanId) :
    (injector.resize ctx).traceId = some (toIdSize traceId (injector.newTraceIdSize ctx))
      ∧ (injector.resize ctx).spanId = some spanId
      ∧ (injector.carriesParent = true → (injector.resize ctx).parentId = ctx.parentId) := by
  refine ⟨by simp [Injector.resize, h.hasTraceId], ?_, fun hcarries => ?_⟩
  · simp [Injector.resize, h.hasSpanId, toIdSize_of_length h.spanIdLength]
  · have hlen := h.parentIdLength hcarries
    simp only [Injector.resize]
    cases hid : ctx.parentId with
    | none => rfl
    | some id => rw [Option.map_some, toIdSize_of_length (hlen id hid)]

theorem survives_of {headers : Headers} (h : Arrives env injector ctx traceId spanId)
    (hcreate : injector.createHeaders env (injector.resize ctx) = .ok headers) (name : String)
    {value : HeaderValue} (hname : name ∈ injector.extractor.anyHeaders)
    (hget : headers.set.get name = some value)
    (hcontext : injector.extractor.getContext env headers.set = .ok (some found))
    (htrace : toKongTraceId found.traceId = some (injector.arrivingTraceId ctx traceId))
    (hspan : toKongSpanId found.spanId = some spanId)
    (hparent : injector.carriesParent = true →
      toKongSpanId found.parentId = injector.arrivingParentId ctx)
    (hsample : (injector.decision ctx).isSome = true ∨ injector.keepsUndecided = true →
      found.shouldSample = injector.decision ctx) :
    SurvivesHop env injector ctx traceId spanId := by
  obtain ⟨formatted, hinject⟩ := inject_eq h.hasTraceId h.hasSpanId hcreate
  exact ⟨headers.set, formatted, found.toKong, hinject, extract_eq hname hget hcontext,
    htrace, hspan, hparent, hsample⟩

theorem trace_arrives (h : Arrives env injector ctx traceId spanId) :
    toKongTraceId (some (toIdSize traceId (injector.newTraceIdSize ctx)))
      = some (injector.arrivingTraceId ctx traceId) := by
  rw [toKongTraceId, Option.map_some, toIdSize_trace h.traceIdLength]

theorem span_arrives (h : Arrives env injector ctx traceId spanId) :
    toKongSpanId (some spanId) = some spanId := by
  rw [toKongSpanId, Option.map_some, toIdSize_of_length h.spanIdLength]

theorem parent_arrives (hp : ∀ id ∈ ctx.parentId, id.length = 8) :
    toKongSpanId ctx.parentId = ctx.parentId := by
  unfold toKongSpanId
  cases hid : ctx.parentId with
  | none => rfl
  | some id => rw [Option.map_some, toIdSize_of_length (hp id hid)]

theorem carried_length (injector : Injector) (ctx : Context) (traceId : Text) :
    (toIdSize traceId (injector.newTraceIdSize ctx)).length = 16
      ∨ (toIdSize traceId (injector.newTraceIdSize ctx)).length = 8 := by
  rw [length_toIdSize]
  exact newTraceIdSize_cases injector ctx

theorem carried_ne_nil (injector : Injector) (ctx : Context) (traceId : Text) :
    toIdSize traceId (injector.newTraceIdSize ctx) ≠ [] := by
  intro hnil
  have hlen := carried_length injector ctx traceId
  rw [hnil, List.length_nil] at hlen
  omega

theorem carried_ne_zeros (h : Arrives env injector ctx traceId spanId)
    (hne : injector.arrivingTraceId ctx traceId ≠ zeros 16) :
    toIdSize traceId (injector.newTraceIdSize ctx)
      ≠ zeros (toIdSize traceId (injector.newTraceIdSize ctx)).length := by
  intro hzero
  apply hne
  rw [← toIdSize_trace h.traceIdLength, hzero]
  rcases carried_length injector ctx traceId with hlen | hlen
  · rw [hlen]
    decide
  · rw [hlen]
    decide

theorem toIdSize_16 (h : Arrives env injector ctx traceId spanId)
    (hsizes : injector.traceIdAllowedSizes = [16]) :
    toIdSize traceId (injector.newTraceIdSize ctx) = traceId := by
  have hsize : injector.newTraceIdSize ctx = 16 := by
    unfold Injector.newTraceIdSize
    rw [hsizes]
    cases ctx.traceIdOriginalSize with
    | none => rfl
    | some size =>
      simp only [List.mem_singleton, List.headD_cons]
      split
      · assumption
      · rfl
  rw [hsize, toIdSize_of_length h.traceIdLength]

theorem decided {sample : Option Bool} (h : sample.isSome = true ∨ false = true) :
    some (decide (sample = some true)) = sample := by
  cases sample with
  | none => simp at h
  | some sample => cases sample <;> rfl

theorem survives_w3c (h : Arrives env .w3c ctx traceId spanId) :
    SurvivesHop env .w3c ctx traceId spanId := by
  obtain ⟨htrace, hspan, -⟩ := resize_eq h
  have hcreate : Injector.createHeaders env (Injector.w3c.resize ctx) .w3c
      = .ok [("traceparent", .one (ofText "00-" ++ toHex traceId ++ [45] ++ toHex spanId
        ++ [45] ++ flagText ctx.shouldSample "01" "00"))] := by
    simp only [Injector.createHeaders, w3cHeaders, htrace, hspan, toIdSize_16 h rfl, toHexOf, bind,
      Except.bind, resize_shouldSample]
  have hget := get_set_one (get_cons_self "traceparent" (.one (ofText "00-" ++ toHex traceId ++ [45]
    ++ toHex spanId ++ [45] ++ flagText ctx.shouldSample "01" "00")) []) (by simp)
  have htz : traceId ≠ List.replicate traceId.length 0 := by
    have hne := carried_ne_zeros h fun hzero => h.zeroTrace hzero
    rwa [toIdSize_16 h rfl] at hne
  have hsz : spanId ≠ List.replicate spanId.length 0 := by
    rw [h.spanIdLength]
    exact fun hzero => h.zeroSpan hzero
  refine survives_of h hcreate _ List.mem_cons_self hget
    (congrArg Except.ok (w3cContext_header h.traceIdLength h.spanIdLength htz hsz ctx.shouldSample
      hget)) ?_ (span_arrives h) (fun hcarries => by cases hcarries) (fun hsample => decided hsample)
  rw [← trace_arrives h, toIdSize_16 h rfl]

theorem jaeger_parent (hp : ∀ id ∈ ctx.parentId, id.length = 8) :
    ∃ parent, (match ctx.parentId with
      | some parentId => toHex parentId
      | none => ofText "0") = parent ∧ HexText parent
      ∧ toKongSpanId (some (fromHex parent)) = some (ctx.parentId.getD (zeros 8)) := by
  cases hid : ctx.parentId with
  | none => exact ⟨ofText "0", rfl, ⟨by decide, by decide +kernel⟩, by decide⟩
  | some id =>
    have hlen := hp id hid
    refine ⟨toHex id, rfl, hexText_toHex (List.ne_nil_of_length_eq_add_one hlen), ?_⟩
    rw [fromHex_toHex, toKongSpanId, Option.map_some, toIdSize_of_length hlen, Option.getD_some]

theorem survives_jaeger (h : Arrives env .jaeger ctx traceId spanId) :
    SurvivesHop env .jaeger ctx traceId spanId := by
  obtain ⟨htrace, hspan, hparentId⟩ := resize_eq h
  obtain ⟨parent, hparent, hhex, hback⟩ := jaeger_parent (h.parentIdLength rfl)
  have hcreate : Injector.createHeaders env (Injector.jaeger.resize ctx) .jaeger
      = .ok (("uber-trace-id",
        .one (toHex (toIdSize traceId (Injector.jaeger.newTraceIdSize ctx)) ++ [58] ++ toHex spanId
          ++ [58] ++ parent ++ [58] ++ flagText ctx.shouldSample "01" "00"))
        :: baggageHeaders env (Injector.jaeger.resize ctx) "uberctx-") := by
    rw [← hparent]
    rw [Injector.createHeaders, jaegerHeaders, htrace, hspan, hparentId rfl, resize_shouldSample]
    rfl
  have hget := get_set_one (get_cons_self "uber-trace-id"
    (.one (toHex (toIdSize traceId (Injector.jaeger.newTraceIdSize ctx)) ++ [58] ++ toHex spanId
      ++ [58] ++ parent ++ [58] ++ flagText ctx.shouldSample "01" "00"))
    (baggageHeaders env (Injector.jaeger.resize ctx) "uberctx-")) (by simp)
  have hsz : spanId ≠ List.replicate spanId.length 0 := by
    rw [h.spanIdLength]
    exact fun hzero => h.zeroSpan hzero
  refine survives_of h hcreate _ List.mem_cons_self hget
    (congrArg Except.ok (jaegerContext_header env (carried_length _ _ _) h.spanIdLength
      (carried_ne_zeros h fun hzero => h.zeroTrace hzero) hsz hhex ctx.shouldSample hget))
    (trace_arrives h) (span_arrives h) (fun _ => hback) (fun hsample => decided hsample)

theorem get_set_decision (headers : Headers) (name : String) (sample : Option Bool)
    (h : headers.get name = sample.map fun sample => .one (ofText (if sample then "1" else "0"))) :
    headers.set.get name
      = sample.map fun sample => .one (ofText (if sample then "1" else "0")) := by
  rw [get_set, h]
  rcases sample with _ | _ | _ <;> rfl

theorem survives_ot (h : Arrives env .ot ctx traceId spanId) :
    SurvivesHop env .ot ctx traceId spanId := by
  obtain ⟨htrace, hspan, -⟩ := resize_eq h
  have hcreate : Injector.createHeaders env (Injector.ot.resize ctx) .ot
      = .ok ([("ot-tracer-traceid",
          HeaderValue.one (toHex (toIdSize traceId (Injector.ot.newTraceIdSize ctx)))),
          ("ot-tracer-spanid", HeaderValue.one (toHex spanId))]
        ++ decisionHeader "ot-tracer-sampled" ctx.shouldSample
        ++ baggageHeaders env (Injector.ot.resize ctx) "ot-baggage-") := by
    simp only [Injector.createHeaders, otHeaders, htrace, hspan, toHexOf, bind, Except.bind,
      resize_shouldSample]
  have hgetTrace := get_set_one (get_cons_self "ot-tracer-traceid"
    (HeaderValue.one (toHex (toIdSize traceId (Injector.ot.newTraceIdSize ctx))))
    ([("ot-tracer-spanid", HeaderValue.one (toHex spanId))]
      ++ decisionHeader "ot-tracer-sampled" ctx.shouldSample
      ++ baggageHeaders env (Injector.ot.resize ctx) "ot-baggage-"))
    (toHex_ne_nil (carried_ne_nil _ _ _))
  have hgetSpan : Headers.get (Headers.set ([("ot-tracer-traceid",
          HeaderValue.one (toHex (toIdSize traceId (Injector.ot.newTraceIdSize ctx)))),
          ("ot-tracer-spanid", HeaderValue.one (toHex spanId))]
        ++ decisionHeader "ot-tracer-sampled" ctx.shouldSample
        ++ baggageHeaders env (Injector.ot.resize ctx) "ot-baggage-")) "ot-tracer-spanid"
      = some (HeaderValue.one (toHex spanId)) := by
    refine get_set_one ?_ (toHex_ne_nil (List.ne_nil_of_length_eq_add_one h.spanIdLength))
    rw [List.append_assoc, List.cons_append, get_cons_ne (by decide), List.cons_append,
      get_cons_self]
  have hgetSample := get_set_decision ([("ot-tracer-traceid",
        HeaderValue.one (toHex (toIdSize traceId (Injector.ot.newTraceIdSize ctx)))),
        ("ot-tracer-spanid", HeaderValue.one (toHex spanId))]
      ++ decisionHeader "ot-tracer-sampled" ctx.shouldSample
      ++ baggageHeaders env (Injector.ot.resize ctx) "ot-baggage-") "ot-tracer-sampled"
    ctx.shouldSample (by
      rw [get_append, get_append, get_decisionHeader,
        get_baggageHeaders env _ (by decide : ¬ "ot-baggage-".toList <+: "ot-tracer-sampled".toList),
        get_cons_ne (by decide), get_cons_ne (by decide)]
      simp [Headers.get])
  have hcontext := otContext_headers env (carried_length _ _ _) h.spanIdLength ctx.shouldSample
    hgetTrace hgetSpan hgetSample
  exact survives_of h hcreate "ot-tracer-traceid" (by decide) hgetTrace
    (congrArg (Except.map some) hcontext) (trace_arrives h) (span_arrives h)
    (fun hcarries => by cases hcarries) (fun _ => rfl)

theorem survives_instana (h : Arrives env .instana ctx traceId spanId) :
    SurvivesHop env .instana ctx traceId spanId := by
  obtain ⟨htrace, hspan, -⟩ := resize_eq h
  have hsne : spanId ≠ [] := List.ne_nil_of_length_eq_add_one h.spanIdLength
  have hcreate : Injector.createHeaders env (Injector.instana.resize ctx) .instana
      = .ok ([("x-instana-t",
            HeaderValue.one (toHex (toIdSize traceId (Injector.instana.newTraceIdSize ctx)))),
          ("x-instana-s", HeaderValue.one (toHex spanId))]
        ++ decisionHeader "x-instana-l" ctx.shouldSample) := by
    simp only [Injector.createHeaders, instanaHeaders, htrace, hspan, toHexOf, bind, Except.bind,
      resize_shouldSample]
  have hgetTrace := get_set_one (get_cons_self "x-instana-t"
    (HeaderValue.one (toHex (toIdSize traceId (Injector.instana.newTraceIdSize ctx))))
    ([("x-instana-s", HeaderValue.one (toHex spanId))]
      ++ decisionHeader "x-instana-l" ctx.shouldSample))
    (toHex_ne_nil (carried_ne_nil _ _ _))
  have hgetSpan : Headers.get (Headers.set ([("x-instana-t",
          HeaderValue.one (toHex (toIdSize traceId (Injector.instana.newTraceIdSize ctx)))),
          ("x-instana-s", HeaderValue.one (toHex spanId))]
        ++ decisionHeader "x-instana-l" ctx.shouldSample)) "x-instana-s"
      = some (HeaderValue.one (toHex spanId)) := by
    refine get_set_one ?_ (toHex_ne_nil hsne)
    rw [List.cons_append, get_cons_ne (by decide), List.cons_append, get_cons_self]
  have hgetSample := get_set_decision ([("x-instana-t",
        HeaderValue.one (toHex (toIdSize traceId (Injector.instana.newTraceIdSize ctx)))),
        ("x-instana-s", HeaderValue.one (toHex spanId))]
      ++ decisionHeader "x-instana-l" ctx.shouldSample)
    "x-instana-l" ctx.shouldSample (by
      rw [get_append, get_decisionHeader, get_cons_ne (by decide), get_cons_ne (by decide)]
      simp [Headers.get])
  exact survives_of h hcreate "x-instana-t" (by decide) hgetTrace
    (instanaContext_headers (carried_ne_nil _ _ _) hsne ctx.shouldSample hgetTrace hgetSpan
      hgetSample) (trace_arrives h) (span_arrives h) (fun hcarries => by cases hcarries)
    (fun hsample => decided hsample)

theorem survives_aws (h : Arrives env .aws ctx traceId spanId) :
    SurvivesHop env .aws ctx traceId spanId := by
  obtain ⟨htrace, hspan, -⟩ := resize_eq h
  have hcreate : Injector.createHeaders env (Injector.aws.resize ctx) .aws
      = .ok [("x-amzn-trace-id", .one (ofText "Root=1-" ++ (toHex traceId).take 8 ++ [45]
        ++ (toHex traceId).drop 8 ++ ofText ";Parent=" ++ toHex spanId ++ ofText ";Sampled="
        ++ flagText ctx.shouldSample "1" "0"))] := by
    simp only [Injector.createHeaders, awsHeaders, htrace, hspan, toIdSize_16 h rfl, toHexOf, bind,
      Except.bind, resize_shouldSample]
  have hget := get_set_one (get_cons_self "x-amzn-trace-id" (.one (ofText "Root=1-"
    ++ (toHex traceId).take 8 ++ [45] ++ (toHex traceId).drop 8 ++ ofText ";Parent=" ++ toHex spanId
    ++ ofText ";Sampled=" ++ flagText ctx.shouldSample "1" "0")) []) (by simp)
  refine survives_of h hcreate _ List.mem_cons_self hget
    (congrArg Except.ok (awsContext_header h.traceIdLength h.spanIdLength ctx.shouldSample hget))
    ?_ (span_arrives h) (fun hcarries => by cases hcarries) (fun hsample => decided hsample)
  rw [← trace_arrives h, toIdSize_16 h rfl]

theorem span_arrives_bytes (h : Arrives env injector ctx traceId spanId) :
    toKongSpanId (some (bytes (number spanId))) = some spanId := by
  rw [toKongSpanId, Option.map_some, toIdSize_bytes_number h.spanIdLength.le, h.spanIdLength]
  rfl

theorem survives_gcp (henv : env.Lawful) (h : Arrives env .gcp ctx traceId spanId) :
    SurvivesHop env .gcp ctx traceId spanId := by
  obtain ⟨htrace, hspan, -⟩ := resize_eq h
  have hcreate : Injector.createHeaders env (Injector.gcp.resize ctx) .gcp
      = .ok [("x-cloud-trace-context", .one (toHex traceId ++ [47] ++ env.toDec spanId
        ++ ofText ";o=" ++ flagText ctx.shouldSample "1" "0"))] := by
    simp only [Injector.createHeaders, gcpHeaders, htrace, hspan, toIdSize_16 h rfl, toHexOf, bind,
      Except.bind, resize_shouldSample]
  have hget := get_set_one (get_cons_self "x-cloud-trace-context" (.one (toHex traceId ++ [47]
    ++ env.toDec spanId ++ ofText ";o=" ++ flagText ctx.shouldSample "1" "0")) []) (by simp)
  have hsz : number spanId ≠ 0 ∨ env.toBinary (ofText "0") = some [] := by
    by_cases hzero : spanId = zeros 8
    · exact .inr (h.zeroSpan hzero)
    · exact .inl (number_ne_zero h.spanIdLength hzero)
  refine survives_of h hcreate _ List.mem_cons_self hget
    (congrArg Except.ok (gcpContext_header henv h.traceIdLength h.spanIdLength hsz ctx.shouldSample
      hget)) ?_ (span_arrives_bytes h) (fun hcarries => by cases hcarries)
    (fun hsample => decided hsample)
  rw [← trace_arrives h, toIdSize_16 h rfl]

theorem survives_datadog (henv : env.Lawful) (h : Arrives env .datadog ctx traceId spanId) :
    SurvivesHop env .datadog ctx traceId spanId := by
  obtain ⟨htrace, hspan, -⟩ := resize_eq h
  have hlen : (toIdSize traceId (Injector.datadog.newTraceIdSize ctx)).length = 8 := by
    rw [length_toIdSize]
    unfold Injector.newTraceIdSize
    cases ctx.traceIdOriginalSize with
    | none => rfl
    | some size =>
      simp only [Injector.traceIdAllowedSizes, List.mem_singleton, List.headD_cons]
      split
      · assumption
      · rfl
  have hdec : ∀ id, env.toDec id ≠ [] := by
    intro id
    rw [henv.toDec]
    exact decimal_ne_nil _
  have hcreate : Injector.createHeaders env (Injector.datadog.resize ctx) .datadog
      = .ok ([("x-datadog-trace-id",
          HeaderValue.one (env.toDec (toIdSize traceId (Injector.datadog.newTraceIdSize ctx)))),
          ("x-datadog-parent-id", HeaderValue.one (env.toDec spanId))]
        ++ decisionHeader "x-datadog-sampling-priority" ctx.shouldSample) := by
    simp only [Injector.createHeaders, datadogHeaders, htrace, hspan, idDecHeader,
      resize_shouldSample, List.cons_append, List.nil_append]
  have hgetTrace := get_set_one (get_cons_self "x-datadog-trace-id"
    (HeaderValue.one (env.toDec (toIdSize traceId (Injector.datadog.newTraceIdSize ctx))))
    ([("x-datadog-parent-id", HeaderValue.one (env.toDec spanId))]
      ++ decisionHeader "x-datadog-sampling-priority" ctx.shouldSample)) (hdec _)
  have hgetSpan : Headers.get (Headers.set ([("x-datadog-trace-id",
          HeaderValue.one (env.toDec (toIdSize traceId (Injector.datadog.newTraceIdSize ctx)))),
          ("x-datadog-parent-id", HeaderValue.one (env.toDec spanId))]
        ++ decisionHeader "x-datadog-sampling-priority" ctx.shouldSample)) "x-datadog-parent-id"
      = some (HeaderValue.one (env.toDec spanId)) := by
    refine get_set_one ?_ (hdec _)
    rw [List.cons_append, get_cons_ne (by decide), List.cons_append, get_cons_self]
  have hgetSample := get_set_decision ([("x-datadog-trace-id",
        HeaderValue.one (env.toDec (toIdSize traceId (Injector.datadog.newTraceIdSize ctx)))),
        ("x-datadog-parent-id", HeaderValue.one (env.toDec spanId))]
      ++ decisionHeader "x-datadog-sampling-priority" ctx.shouldSample)
    "x-datadog-sampling-priority" ctx.shouldSample (by
      rw [get_append, get_decisionHeader, get_cons_ne (by decide), get_cons_ne (by decide)]
      simp [Headers.get])
  have htz : number (toIdSize traceId (Injector.datadog.newTraceIdSize ctx)) ≠ 0
      ∨ env.toBinary (ofText "0") = some [] := by
    by_cases hzero : Injector.datadog.arrivingTraceId ctx traceId = zeros 16
    · exact .inr (h.zeroTrace hzero)
    · exact .inl (number_ne_zero rfl (carried_ne_zeros h hzero))
  have hsz : number spanId ≠ 0 ∨ env.toBinary (ofText "0") = some [] := by
    by_cases hzero : spanId = zeros 8
    · exact .inr (h.zeroSpan hzero)
    · exact .inl (number_ne_zero h.spanIdLength hzero)
  refine survives_of h hcreate "x-datadog-trace-id" (by decide) hgetTrace
    (datadogContext_headers henv ctx.shouldSample htz hsz hgetTrace hgetSpan hgetSample) ?_
    (span_arrives_bytes h) (fun hcarries => by cases hcarries) (fun _ => rfl)
  have hpad := toIdSize_of_lt (show (toIdSize traceId
    (Injector.datadog.newTraceIdSize ctx)).length < 16 by omega)
  rw [← trace_arrives h, toKongTraceId, toKongTraceId, Option.map_some, Option.map_some,
    toIdSize_bytes_number (by omega), hpad]
  rfl

theorem get_b3Headers {traceId : Text} (htrace : ctx.traceId = some traceId)
    (hspan : ctx.spanId = some spanId) :
    (b3Headers ctx).get "b3" = none ∧ (b3Headers ctx).get "tracestate" = none
      ∧ (b3Headers ctx).get "x-b3-traceid" = some (.one (toHex traceId))
      ∧ (b3Headers ctx).get "x-b3-spanid" = some (.one (toHex spanId))
      ∧ (b3Headers ctx).get "x-b3-parentspanid" = (ctx.parentId.map fun id => .one (toHex id))
      ∧ (b3Headers ctx).get "x-b3-flags" = ctx.flags
      ∧ (ctx.flags = none → (b3Headers ctx).get "x-b3-sampled"
        = some (.one (flagText ctx.shouldSample "1" "0"))) := by
  simp only [b3Headers, htrace, hspan, Headers.get]
  cases ctx.parentId <;> cases ctx.flags <;> simp [List.lookup_cons]

theorem b3_decision (h : Arrives env .b3 ctx traceId spanId) {headers : Headers}
    (hflags : headers.get "x-b3-flags" = ctx.flags)
    (hsampled : ctx.flags = none → headers.get "x-b3-sampled"
      = some (.one (flagText ctx.shouldSample "1" "0")))
    (hdecided : ctx.b3Decision.isSome = true) :
    (if headers.get "x-b3-flags" = some (.one (ofText "1")) then some true
      else sampledFlag (headers.get "x-b3-sampled")) = ctx.b3Decision := by
  rw [hflags]
  rcases h.flags rfl with hnone | hdebug
  · rw [hsampled hnone, hnone]
    simp only [Context.b3Decision, hnone, reduceCtorEq, if_false] at hdecided ⊢
    rcases hsample : ctx.shouldSample with _ | _ | _
    · rw [hsample] at hdecided
      cases hdecided
    · decide
    · decide
  · rw [Context.b3Decision, hdebug, if_pos rfl, if_pos rfl]

theorem survives_b3 (h : Arrives env .b3 ctx traceId spanId) :
    SurvivesHop env .b3 ctx traceId spanId := by
  obtain ⟨htrace, hspan, hparentId⟩ := resize_eq h
  have hsne : spanId ≠ [] := List.ne_nil_of_length_eq_add_one h.spanIdLength
  have hp := h.parentIdLength rfl
  have hcreate : Injector.createHeaders env (Injector.b3.resize ctx) .b3
      = .ok (b3Headers (Injector.b3.resize ctx)) := rfl
  obtain ⟨hb3, hstate, hgetTrace, hgetSpan, hgetParent, hgetFlags, hgetSampled⟩ :=
    get_b3Headers htrace hspan
  rw [hparentId rfl] at hgetParent
  simp only [resize_flags, resize_shouldSample] at hgetFlags hgetSampled
  have hsetParent : (b3Headers (Injector.b3.resize ctx)).set.get "x-b3-parentspanid"
      = ctx.parentId.map fun id => .one (toHex id) := by
    cases hid : ctx.parentId with
    | none =>
      rw [hid] at hgetParent
      exact get_set_none hgetParent
    | some id =>
      rw [hid] at hgetParent
      exact get_set_one hgetParent (toHex_ne_nil (List.ne_nil_of_length_eq_add_one (hp id hid)))
  have hsetFlags : (b3Headers (Injector.b3.resize ctx)).set.get "x-b3-flags" = ctx.flags := by
    rw [get_set, hgetFlags]
    rcases h.flags rfl with hflags | hflags
    · rw [hflags]
      rfl
    · rw [hflags]
      rfl
  have hsetSampled : ctx.flags = none →
      (b3Headers (Injector.b3.resize ctx)).set.get "x-b3-sampled"
        = some (.one (flagText ctx.shouldSample "1" "0")) := by
    intro hflags
    refine get_set_one (hgetSampled hflags) ?_
    unfold flagText
    split <;> decide
  have hsetTrace := get_set_one hgetTrace (toHex_ne_nil (carried_ne_nil _ _ _))
  have hcontext := b3Context_headers (carried_length _ _ _) h.spanIdLength hp
    (get_set_none hb3) (get_set_none hstate) hsetTrace (get_set_one hgetSpan (toHex_ne_nil hsne))
    hsetParent
  refine survives_of h hcreate "x-b3-traceid" (by decide) hsetTrace
    (congrArg (Except.map some) hcontext) (trace_arrives h) (span_arrives h) (fun _ => ?_)
    (fun hsample => ?_)
  · exact parent_arrives hp
  · exact b3_decision h hsetFlags hsetSampled (by simpa [Injector.decision,
      Injector.keepsUndecided] using hsample)

theorem survives_b3Single (h : Arrives env .b3Single ctx traceId spanId) :
    SurvivesHop env .b3Single ctx traceId spanId := by
  obtain ⟨htrace, hspan, hparentId⟩ := resize_eq h
  have hp := h.parentIdLength rfl
  have htold : ParentTold (b3Sampled ctx) (ctx.parentId.map toHex) := by
    intro hnone digits hdigits c hc
    have hundecided : ctx.b3Decision = none := by
      rw [← (b3Sampled_cases ctx).2, hnone]
      decide
    obtain ⟨id, hid, rfl⟩ := Option.mem_map.mp hdigits
    cases id with
    | nil => cases hc
    | cons b id =>
      obtain ⟨h0, h1, h13⟩ := h.told rfl hundecided (b :: id) hid b rfl
      have hb := b.isLt
      have hdigit : ∀ i : Fin 16, i.val ≠ 0 → i.val ≠ 1 → i.val ≠ 13 →
          hexDigit i ∉ ofText "01d" := by decide +kernel
      cases hc
      exact hdigit ⟨b.val / 16, by omega⟩ h0 h1 h13
  obtain ⟨found, hcontext, hftrace, hfspan, hfparent, hfsample⟩ :=
    b3Context_single (carried_length .b3Single ctx traceId) h.spanIdLength ctx hp htold
  have hcreate : Injector.createHeaders env (Injector.b3Single.resize ctx) .b3Single
      = .ok [("b3", .one (toHex (toIdSize traceId (Injector.b3Single.newTraceIdSize ctx)) ++ [45]
        ++ toHex spanId ++ b3Tail (b3Sampled ctx) (ctx.parentId.map toHex)))] := by
    have hsampled : b3Sampled (Injector.b3Single.resize ctx) = b3Sampled ctx := rfl
    simp only [Injector.createHeaders, b3SingleHeaders, htrace, hspan, hparentId rfl, hsampled,
      b3Tail, List.append_assoc]
    cases ctx.parentId <;> rfl
  have hget := get_set_one (get_cons_self "b3"
    (.one (toHex (toIdSize traceId (Injector.b3Single.newTraceIdSize ctx)) ++ [45]
      ++ toHex spanId ++ b3Tail (b3Sampled ctx) (ctx.parentId.map toHex))) []) (by simp)
  have hset : Headers.set [("b3",
      .one (toHex (toIdSize traceId (Injector.b3Single.newTraceIdSize ctx)) ++ [45]
        ++ toHex spanId ++ b3Tail (b3Sampled ctx) (ctx.parentId.map toHex)))]
      = [("b3", .one (toHex (toIdSize traceId (Injector.b3Single.newTraceIdSize ctx)) ++ [45]
        ++ toHex spanId ++ b3Tail (b3Sampled ctx) (ctx.parentId.map toHex)))] := by
    simp [Headers.set, normalizeMultiHeader]
  have hread : Extractor.getContext env (Headers.set [("b3",
      .one (toHex (toIdSize traceId (Injector.b3Single.newTraceIdSize ctx)) ++ [45]
        ++ toHex spanId ++ b3Tail (b3Sampled ctx) (ctx.parentId.map toHex)))]) .b3
      = .ok (some found) := by
    rw [hset]
    exact congrArg (Except.map some) hcontext
  refine survives_of h hcreate "b3" (by decide) hget hread ?_ ?_ (fun _ => ?_) (fun _ => hfsample)
  · rw [hftrace]
    exact trace_arrives h
  · rw [hfspan]
    exact span_arrives h
  · rw [hfparent]
    exact parent_arrives hp

end

/-- In every format, the headers that are injected give back the trace id
(or its low 8 bytes), the span id, the parent id where there is one in the
format, and the decision. -/
theorem context_survives_hop (env : Env) (henv : env.Lawful) (injector : Injector) (ctx : Context)
    (traceId spanId : Text) (h : Arrives env injector ctx traceId spanId) :
    SurvivesHop env injector ctx traceId spanId := by
  cases injector with
  | b3 => exact survives_b3 h
  | b3Single => exact survives_b3Single h
  | w3c => exact survives_w3c h
  | jaeger => exact survives_jaeger h
  | ot => exact survives_ot h
  | datadog => exact survives_datadog henv h
  | aws => exact survives_aws h
  | gcp => exact survives_gcp henv h
  | instana => exact survives_instana h

/-- Numbers as the library reads and writes them; zero is an error. -/
def sampleEnv : Env where
  escapeUri := id
  unescapeUri := fun _ => []
  toDec := fun id => decimal (number id)
  toBinary := fun digits =>
    if decimalNumber digits = 0 then none else some (bytes (decimalNumber digits))

/-- A context without a decision. -/
def sampleContext (traceId parentId : Text) : Context :=
  { traceId := some traceId, spanId := some (ofText "spanspan"), parentId := some parentId }

theorem undecided_b3_arrives :
    SurvivesHop sampleEnv .b3Single (sampleContext (ofText "tracetracetrace.") (ofText "parent.."))
      (ofText "tracetracetrace.") (ofText "spanspan") := by
  have henv : sampleEnv.Lawful :=
    ⟨fun _ => rfl, fun digits _ _ hne => by simp [sampleEnv, hne]⟩
  exact context_survives_hop sampleEnv henv .b3Single _ _ _
    ⟨rfl, by decide, rfl, by decide, fun _ => by decide +kernel, fun _ => trivial,
      fun _ => trivial, fun hb3 => (nomatch hb3), fun _ _ => by decide +kernel⟩

/-- A trace id of zeros, that the injector of w3c writes and the extractor
refuses. -/
theorem zero_trace_id_lost :
    ∃ headers formatted, Injector.w3c.inject sampleEnv (sampleContext (zeros 16) (zeros 8))
        = .ok (.ok (headers, formatted))
      ∧ Extractor.w3c.extract sampleEnv headers = .ok none :=
  ⟨_, _, rfl, by decide +kernel⟩

end KongGateway.Kong.Tracing

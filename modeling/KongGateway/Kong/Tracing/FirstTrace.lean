import KongGateway.Kong.Tracing.Hop

/-!
# FirstTrace — the first extractor that finds a trace id

Extraction ends with the first extractor that returns a context that is
not empty, or raises an error. Some extractors return such a context
without a trace id: the one of b3 whenever one of its headers is there,
`tracestate` among them, others when they find a decision. They hide what
the extractors after them would find.
-/

namespace KongGateway.Kong.Tracing

open Bytes Numerals LuaPattern

section

variable {env : Env} {headers : Headers}

/-! ## What an extractor finds -/

/-- An extractor alone returns a context with a trace id. -/
def Finds (env : Env) (headers : Headers) (extractor : Extractor) (ctx : Context) : Prop :=
  extractor.extract env headers = .ok (some ctx) ∧ ctx.traceId.isSome = true

/-- Extraction goes on after an extractor. -/
def Skips (env : Env) (headers : Headers) (extractor : Extractor) : Prop :=
  extractor.extract env headers = .ok none ∨ extractor.extract env headers = .ok (some {})

/-- Extraction ends with an extractor, without a trace id. -/
def Stops (env : Env) (headers : Headers) (extractor : Extractor) : Prop :=
  (∃ err, extractor.extract env headers = .error err)
    ∨ ∃ ctx, extractor.extract env headers = .ok (some ctx) ∧ ctx ≠ {} ∧ ctx.traceId = none

/-- A table of so many values that it is taken for an id. -/
def takenForId (sizes : List Nat) : Option HeaderValue → Prop
  | some (.many values) => values.length ∈ sizes
  | _ => False

def isTable : Option HeaderValue → Prop
  | some (.many _) => True
  | _ => False

def isText : Option HeaderValue → Prop
  | some (.one _) => True
  | _ => False

def awsKey (pair : Text) : Text := strip (splitOnce pair 61).1

/-- What headers without a trace id end extraction with. -/
def Hides (env : Env) (headers : Headers) : Extractor → Prop
  -- any of the headers
  | .b3 => ∃ name ∈ Extractor.b3.anyHeaders, (headers.get name).isSome = true
  | .w3c | .jaeger | .gcp => False
  -- a table that is taken for an id, a decision or baggage
  | .ot =>
    takenForId [16, 32] (headers.get "ot-tracer-traceid")
      ∨ takenForId [16] (headers.get "ot-tracer-spanid")
      ∨ (sampledFlag (headers.get "ot-tracer-sampled")).isSome = true
      ∨ ((∃ name ∈ Extractor.ot.anyHeaders, (headers.get name).isSome = true)
        ∧ ∃ header ∈ headers, (baggageKey "ot-baggage-" header.1).isSome = true)
  -- no invalid priority, and an id that comes more than once, a decision, or
  -- a span with a trace id that cannot be converted
  | .datadog =>
    ∃ sample, datadogSampled (headers.get "x-datadog-sampling-priority") = some sample
      ∧ (isTable (headers.get "x-datadog-trace-id") ∨ isTable (headers.get "x-datadog-parent-id")
        ∨ sample.isSome = true
        ∨ ∃ traceId parentId, matchDecimal (headers.get "x-datadog-trace-id") = .ok (some traceId)
          ∧ matchDecimal (headers.get "x-datadog-parent-id") = .ok (some parentId)
          ∧ (env.toBinary parentId).isSome = true)
  -- a parent or a decision, and nothing that is invalid
  | .aws =>
    ∃ header, headers.get "x-amzn-trace-id" = some (.one header)
      ∧ (∀ pair ∈ header.splitOn 59, (awsPair {} pair).isSome = true)
      ∧ ∃ pair ∈ header.splitOn 59, awsKey pair = ofText "Parent" ∨ awsKey pair = ofText "Sampled"
  -- both headers, with a trace id that is invalid
  | .instana => isText (headers.get "x-instana-t") ∧ isText (headers.get "x-instana-s")

/-! ## From a context to the end of extraction -/

theorem verifyHeaders_iff (extractor : Extractor) :
    extractor.verifyHeaders headers = true
      ↔ ∃ name ∈ extractor.anyHeaders, (headers.get name).isSome = true := by
  rw [Extractor.verifyHeaders, List.any_eq_true]

theorem verifyHeaders_of_get {extractor : Extractor} {name : String}
    (hname : name ∈ extractor.anyHeaders) (h : (headers.get name).isSome = true) :
    extractor.verifyHeaders headers = true := (verifyHeaders_iff extractor).mpr ⟨name, hname, h⟩

theorem skips_of_unverified {extractor : Extractor}
    (h : ¬ extractor.verifyHeaders headers = true) : Skips env headers extractor :=
  .inl (if_neg h)

section

variable {extractor : Extractor} {ctx : Context}

theorem stops_of_error {err : String} (h : extractor.verifyHeaders headers = true)
    (herror : extractor.getContext env headers = .error err) : Stops env headers extractor := by
  refine .inl ⟨err, ?_⟩
  rw [Extractor.extract, if_pos h, herror]
  rfl

theorem skips_of_none (h : extractor.verifyHeaders headers = true)
    (hnone : extractor.getContext env headers = .ok none) : Skips env headers extractor := by
  refine .inl ?_
  rw [Extractor.extract, if_pos h, hnone]
  rfl

/-- There is nothing in a context beside a trace id. -/
structure Bare (ctx : Context) : Prop where
  span : ctx.spanId = none
  parent : ctx.parentId = none
  reuse : ctx.reuseSpanId = false
  sample : ctx.shouldSample = none
  baggage : ctx.baggage = none
  flags : ctx.flags = none
  w3cFlags : ctx.w3cFlags = none
  single : ctx.singleHeader = false

theorem toKong_eq_empty_iff (ctx : Context) : ctx.toKong = {} ↔ ctx.traceId = none ∧ Bare ctx := by
  constructor
  · intro h
    simp only [Context.toKong, Context.mk.injEq, toKongTraceId, toKongSpanId,
      Option.map_eq_none_iff] at h
    obtain ⟨ht, hs, hp, hr, hd, hb, hf, hw, hg, -⟩ := h
    exact ⟨ht, hs, hp, hr, hd, hb, hf, hw, hg⟩
  · rintro ⟨ht, hs, hp, hr, hd, hb, hf, hw, hg⟩
    simp [Context.toKong, toKongTraceId, toKongSpanId, ht, hs, hp, hr, hd, hb, hf, hw, hg]

theorem extract_of_some (h : extractor.verifyHeaders headers = true)
    (hsome : extractor.getContext env headers = .ok (some ctx)) :
    extractor.extract env headers = .ok (some ctx.toKong) := by
  rw [Extractor.extract, if_pos h, hsome]
  rfl

theorem traceId_of_not_finds (h : extractor.verifyHeaders headers = true)
    (hsome : extractor.getContext env headers = .ok (some ctx))
    (hnot : ∀ ctx, ¬ Finds env headers extractor ctx) : ctx.traceId = none := by
  by_contra hne
  refine hnot ctx.toKong ⟨extract_of_some h hsome, ?_⟩
  simpa [Context.toKong, toKongTraceId, Option.isSome_iff_ne_none] using hne

theorem skips_of_bare (h : extractor.verifyHeaders headers = true)
    (hsome : extractor.getContext env headers = .ok (some ctx))
    (hnot : ∀ ctx, ¬ Finds env headers extractor ctx) (hbare : Bare ctx) :
    Skips env headers extractor := by
  refine .inr ?_
  rw [extract_of_some h hsome,
    (toKong_eq_empty_iff ctx).mpr ⟨traceId_of_not_finds h hsome hnot, hbare⟩]

theorem stops_of_not_bare (h : extractor.verifyHeaders headers = true)
    (hsome : extractor.getContext env headers = .ok (some ctx))
    (hnot : ∀ ctx, ¬ Finds env headers extractor ctx) (hbare : ¬ Bare ctx) :
    Stops env headers extractor := by
  have htrace := traceId_of_not_finds h hsome hnot
  refine .inr ⟨ctx.toKong, extract_of_some h hsome, ?_, ?_⟩
  · exact fun hempty => hbare ((toKong_eq_empty_iff ctx).mp hempty).2
  · simp [Context.toKong, toKongTraceId, htrace]

end

/-! ## Extractor by extractor -/

theorem b3Context_reuseSpanId {ctx : Context} (h : b3Context headers = .ok ctx) :
    ctx.reuseSpanId = true := by
  unfold b3Context at h
  cases hmulti : readMultiHeader headers with
  | error err => simp [hmulti, bind, Except.bind] at h
  | ok multi =>
    simp only [hmulti, bind, Except.bind, Except.ok.injEq] at h
    rw [← h]

theorem b3_stops (h : Hides env headers .b3) (hnot : ∀ ctx, ¬ Finds env headers .b3 ctx) :
    Stops env headers .b3 := by
  have hverify := (verifyHeaders_iff .b3).mpr h
  cases hcontext : b3Context headers with
  | error err => exact stops_of_error hverify (congrArg (Except.map some) hcontext)
  | ok ctx =>
    refine stops_of_not_bare hverify (congrArg (Except.map some) hcontext) hnot fun hbare => ?_
    have hreuse := hbare.reuse
    rw [b3Context_reuseSpanId hcontext] at hreuse
    cases hreuse

theorem b3_skips (h : ¬ Hides env headers .b3) : Skips env headers .b3 :=
  skips_of_unverified fun hverify => h ((verifyHeaders_iff .b3).mp hverify)

theorem w3cContext_traceId {ctx : Context} (h : w3cContext headers = some ctx) :
    ctx.traceId.isSome = true := by
  unfold w3cContext at h
  split at h
  · split at h
    · split at h
      · cases h
      · split at h
        · cases h
        · split at h
          · cases h
          · split at h
            · cases h
            · cases h
              rfl
    · cases h
  · cases h

theorem jaegerContext_traceId {ctx : Context} (h : jaegerContext env headers = some ctx) :
    ctx.traceId.isSome = true := by
  unfold jaegerContext at h
  split at h
  · split at h
    · split at h
      · cases h
      · split at h
        · cases h
        · split at h
          · cases h
          · cases h
            rfl
    · cases h
  · cases h

theorem gcpContext_traceId {ctx : Context} (h : gcpContext env headers = some ctx) :
    ctx.traceId.isSome = true := by
  unfold gcpContext at h
  split at h
  · split at h
    · cases h
      rfl
    · cases h
  · cases h

theorem skips_of_traceId {extractor : Extractor} {found : Option Context}
    (hcontext : extractor.getContext env headers = .ok found)
    (htrace : ∀ ctx, found = some ctx → ctx.traceId.isSome = true)
    (hnot : ∀ ctx, ¬ Finds env headers extractor ctx) : Skips env headers extractor := by
  by_cases hverify : extractor.verifyHeaders headers = true
  · cases found with
    | none => exact skips_of_none hverify hcontext
    | some ctx =>
      have hnone := traceId_of_not_finds hverify hcontext hnot
      have hsome := htrace ctx rfl
      rw [hnone] at hsome
      cases hsome
  · exact skips_of_unverified hverify

theorem idHeader_cases (sizes : List Nat) (value : Option HeaderValue) :
    (takenForId sizes value ∧ ∃ err, idHeader sizes value = .error err)
      ∨ (¬ takenForId sizes value ∧ ∃ id, idHeader sizes value = .ok id) := by
  rcases value with _ | value | values
  · exact .inr ⟨id, _, rfl⟩
  · right
    refine ⟨id, ?_⟩
    rw [idHeader]
    split
    · exact ⟨_, rfl⟩
    · exact ⟨_, rfl⟩
  · by_cases hsize : values.length ∈ sizes
    · exact .inl ⟨hsize, _, if_neg (not_not_intro hsize)⟩
    · exact .inr ⟨hsize, _, if_pos hsize⟩

theorem isSome_of_takenForId {sizes : List Nat} {value : Option HeaderValue}
    (h : takenForId sizes value) : value.isSome = true := by
  rcases value with _ | value | values
  · cases h
  · cases h
  · rfl

theorem isSome_of_sampledFlag {value : Option HeaderValue}
    (h : (sampledFlag value).isSome = true) : value.isSome = true := by
  cases value with
  | none => exact absurd h (by decide)
  | some value => rfl

theorem parseBaggageHeaders_isSome_iff (env : Env) (start : String) :
    (parseBaggageHeaders env headers start).isSome = true
      ↔ ∃ header ∈ headers, (baggageKey start header.1).isSome = true := by
  unfold parseBaggageHeaders
  split
  · rename_i hnil
    rw [List.filterMap_eq_nil_iff] at hnil
    simp only [Option.isSome_none, Bool.false_eq_true, false_iff, not_exists, not_and]
    intro header hheader hsome
    have hnone := hnil header hheader
    rw [Option.map_eq_none_iff] at hnone
    rw [hnone] at hsome
    cases hsome
  · rename_i hne
    simp only [Option.isSome_some, true_iff]
    obtain ⟨item, hitem⟩ := List.exists_mem_of_ne_nil _ hne
    obtain ⟨header, hheader, hmap⟩ := List.mem_filterMap.mp hitem
    refine ⟨header, hheader, ?_⟩
    rw [Option.map_eq_some_iff] at hmap
    obtain ⟨key, hkey, -⟩ := hmap
    rw [hkey]
    rfl

theorem otContext_cases (env : Env) (headers : Headers) :
    ((takenForId [16, 32] (headers.get "ot-tracer-traceid")
        ∨ takenForId [16] (headers.get "ot-tracer-spanid")) ∧
      ∃ err, otContext env headers = .error err)
    ∨ (¬ takenForId [16, 32] (headers.get "ot-tracer-traceid")
        ∧ ¬ takenForId [16] (headers.get "ot-tracer-spanid")
        ∧ ∃ ctx, otContext env headers = .ok ctx
          ∧ (ctx.traceId = none → (Bare ctx
            ↔ (sampledFlag (headers.get "ot-tracer-sampled")) = none
              ∧ parseBaggageHeaders env headers "ot-baggage-" = none))) := by
  rcases idHeader_cases [16, 32] (headers.get "ot-tracer-traceid") with
    ⟨htaken, err, htrace⟩ | ⟨htaken, traceId, htrace⟩
  · exact .inl ⟨.inl htaken, err, by simp [otContext, htrace, bind, Except.bind]⟩
  rcases idHeader_cases [16] (headers.get "ot-tracer-spanid") with
    ⟨htaken', err, hspan⟩ | ⟨htaken', spanId, hspan⟩
  · exact .inl ⟨.inr htaken', err, by simp [otContext, htrace, hspan, bind, Except.bind]⟩
  refine .inr ⟨htaken, htaken', ?_⟩
  simp only [otContext, htrace, hspan, bind, Except.bind]
  refine ⟨_, rfl, fun hnone => ?_⟩
  have hinvalid : (traceId.1.isSome && !(traceId.2 || spanId.2)) = false := by
    by_contra hvalid
    rw [Bool.not_eq_false] at hvalid
    simp only [hvalid, if_true, Option.map_eq_none_iff] at hnone
    rw [hnone] at hvalid
    cases hvalid
  constructor
  · intro hbare
    exact ⟨hbare.sample, hbare.baggage⟩
  · rintro ⟨hsample, hbaggage⟩
    refine ⟨if_neg ?_, rfl, rfl, hsample, hbaggage, rfl, rfl, rfl⟩
    rw [hinvalid]
    exact Bool.false_ne_true

theorem ot_stops (h : Hides env headers .ot) (hnot : ∀ ctx, ¬ Finds env headers .ot ctx) :
    Stops env headers .ot := by
  have hverify : Extractor.ot.verifyHeaders headers = true := by
    rcases h with htrace | hspan | hsample | ⟨hany, -⟩
    · exact verifyHeaders_of_get (by decide) (isSome_of_takenForId htrace)
    · exact verifyHeaders_of_get (by decide) (isSome_of_takenForId hspan)
    · exact verifyHeaders_of_get (by decide) (isSome_of_sampledFlag hsample)
    · exact (verifyHeaders_iff .ot).mpr hany
  rcases otContext_cases env headers with
    ⟨-, err, herror⟩ | ⟨htrace, hspan, ctx, hcontext, hbare⟩
  · exact stops_of_error hverify (congrArg (Except.map some) herror)
  · have hsome := congrArg (Except.map some) hcontext
    refine stops_of_not_bare hverify hsome hnot fun hctx => ?_
    obtain ⟨hsample, hbaggage⟩ := (hbare (traceId_of_not_finds hverify hsome hnot)).mp hctx
    rcases h with h | h | h | ⟨-, h⟩
    · exact htrace h
    · exact hspan h
    · rw [hsample] at h
      cases h
    · rw [← parseBaggageHeaders_isSome_iff env, hbaggage] at h
      cases h

theorem ot_skips (h : ¬ Hides env headers .ot) (hnot : ∀ ctx, ¬ Finds env headers .ot ctx) :
    Skips env headers .ot := by
  simp only [Hides, not_or] at h
  obtain ⟨htrace, hspan, hsample, hbaggage⟩ := h
  by_cases hverify : Extractor.ot.verifyHeaders headers = true
  · rcases otContext_cases env headers with
      ⟨htaken, -⟩ | ⟨-, -, ctx, hcontext, hbare⟩
    · rcases htaken with htaken | htaken
      · exact absurd htaken htrace
      · exact absurd htaken hspan
    · have hsome := congrArg (Except.map some) hcontext
      refine skips_of_bare hverify hsome hnot
        ((hbare (traceId_of_not_finds hverify hsome hnot)).mpr ⟨?_, ?_⟩)
      · simpa using hsample
      · have hany := (verifyHeaders_iff .ot).mp hverify
        have hnone := fun hex => hbaggage ⟨hany, hex⟩
        rw [← parseBaggageHeaders_isSome_iff env] at hnone
        simpa using hnone
  · exact skips_of_unverified hverify

theorem matchDecimal_cases (value : Option HeaderValue) :
    (isTable value ∧ ∃ err, matchDecimal value = .error err)
      ∨ (¬ isTable value ∧ ∃ digits, matchDecimal value = .ok digits) := by
  rcases value with _ | value | values
  · exact .inr ⟨id, _, rfl⟩
  · exact .inr ⟨id, _, rfl⟩
  · exact .inl ⟨trivial, _, rfl⟩

theorem isSome_of_isTable {value : Option HeaderValue} (h : isTable value) :
    value.isSome = true := by
  rcases value with _ | value | values
  · cases h
  · cases h
  · rfl

theorem datadogContext_cases (env : Env) (headers : Headers) :
    (datadogSampled (headers.get "x-datadog-sampling-priority") = none
      ∧ datadogContext env headers = .ok none)
    ∨ ∃ sample, datadogSampled (headers.get "x-datadog-sampling-priority") = some sample
      ∧ (((isTable (headers.get "x-datadog-trace-id") ∨ isTable (headers.get "x-datadog-parent-id"))
          ∧ ∃ err, datadogContext env headers = .error err)
        ∨ (¬ isTable (headers.get "x-datadog-trace-id")
          ∧ ¬ isTable (headers.get "x-datadog-parent-id")
          ∧ ∃ traceId parentId, matchDecimal (headers.get "x-datadog-trace-id") = .ok traceId
            ∧ matchDecimal (headers.get "x-datadog-parent-id") = .ok parentId
            ∧ datadogContext env headers = .ok (some
              { traceId := traceId.bind env.toBinary
                spanId := if traceId.isSome then parentId.bind env.toBinary else none
                shouldSample := sample }))) := by
  unfold datadogContext
  cases datadogSampled (headers.get "x-datadog-sampling-priority") with
  | none => exact .inl ⟨rfl, rfl⟩
  | some sample =>
    refine .inr ⟨sample, rfl, ?_⟩
    rcases matchDecimal_cases (headers.get "x-datadog-trace-id") with
      ⟨htable, err, htrace⟩ | ⟨htable, traceId, htrace⟩
    · exact .inl ⟨.inl htable, err, by simp [htrace, bind, Except.bind]⟩
    rcases matchDecimal_cases (headers.get "x-datadog-parent-id") with
      ⟨htable', err, hparent⟩ | ⟨htable', parentId, hparent⟩
    · exact .inl ⟨.inr htable', err, by simp [htrace, hparent, bind, Except.bind]⟩
    exact .inr ⟨htable, htable', traceId, parentId, htrace, hparent,
      by simp [htrace, hparent, bind, Except.bind]⟩

theorem isSome_of_matchDecimal {value : Option HeaderValue} {digits : Text}
    (h : matchDecimal value = .ok (some digits)) : value.isSome = true := by
  cases value with
  | none => cases h
  | some value => rfl

theorem datadog_stops (h : Hides env headers .datadog)
    (hnot : ∀ ctx, ¬ Finds env headers .datadog ctx) : Stops env headers .datadog := by
  obtain ⟨sample, hsample, h⟩ := h
  have hverify : Extractor.datadog.verifyHeaders headers = true := by
    rcases h with htrace | hparent | hdecided | ⟨traceId, parentId, htrace, -⟩
    · exact verifyHeaders_of_get (by decide) (isSome_of_isTable htrace)
    · exact verifyHeaders_of_get (by decide) (isSome_of_isTable hparent)
    · refine verifyHeaders_of_get (show "x-datadog-sampling-priority" ∈ _ by decide) ?_
      cases hget : headers.get "x-datadog-sampling-priority" with
      | none =>
        rw [hget] at hsample
        cases hsample
        cases hdecided
      | some value => rfl
    · exact verifyHeaders_of_get (by decide) (isSome_of_matchDecimal htrace)
  rcases datadogContext_cases env headers with ⟨hnone, -⟩ | ⟨sample', hsample', hcases⟩
  · rw [hnone] at hsample
    cases hsample
  rw [hsample, Option.some.injEq] at hsample'
  subst hsample'
  rcases hcases with ⟨-, err, herror⟩ | ⟨htrace, hparent, traceId, parentId, htr, hpa, hcontext⟩
  · exact stops_of_error hverify herror
  · refine stops_of_not_bare hverify hcontext hnot fun hbare => ?_
    rcases h with h | h | h | ⟨traceId', parentId', htr', hpa', hsome⟩
    · exact htrace h
    · exact hparent h
    · have hnone : sample = none := hbare.sample
      rw [hnone] at h
      cases h
    · rw [htr, Except.ok.injEq] at htr'
      rw [hpa, Except.ok.injEq] at hpa'
      have hnone := hbare.span
      rw [htr', hpa'] at hnone
      simp only [Option.isSome_some, if_true, Option.bind_some] at hnone
      rw [hnone] at hsome
      cases hsome

theorem datadog_skips (h : ¬ Hides env headers .datadog)
    (hnot : ∀ ctx, ¬ Finds env headers .datadog ctx) : Skips env headers .datadog := by
  by_cases hverify : Extractor.datadog.verifyHeaders headers = true
  · rcases datadogContext_cases env headers with ⟨-, hnone⟩ | ⟨sample, hsample, hcases⟩
    · exact skips_of_none hverify hnone
    simp only [Hides, not_exists, not_and, not_or] at h
    obtain ⟨htrace, hparent, hundecided, hids⟩ := h sample hsample
    rcases hcases with ⟨htable, -⟩ | ⟨-, -, traceId, parentId, htr, hpa, hcontext⟩
    · rcases htable with htable | htable
      · exact absurd htable htrace
      · exact absurd htable hparent
    refine skips_of_bare hverify hcontext hnot
      ⟨?_, rfl, rfl, by simpa using hundecided, rfl, rfl, rfl, rfl⟩
    cases traceId with
    | none => rfl
    | some traceId =>
      cases parentId with
      | none => rfl
      | some parentId => simpa using hids traceId parentId htr hpa
  · exact skips_of_unverified hverify

theorem isSome_of_isText {value : Option HeaderValue} (h : isText value) :
    value.isSome = true := by
  rcases value with _ | value | values
  · cases h
  · rfl
  · cases h

theorem instanaContext_cases (headers : Headers) :
    (isText (headers.get "x-instana-t") ∧ isText (headers.get "x-instana-s")
      ∧ ((∃ err, instanaContext headers = .error err)
        ∨ ∃ ctx, instanaContext headers = .ok (some ctx) ∧ ctx.shouldSample.isSome = true))
    ∨ (¬ (isText (headers.get "x-instana-t") ∧ isText (headers.get "x-instana-s"))
      ∧ instanaContext headers = .ok none) := by
  unfold instanaContext
  rcases headers.get "x-instana-t" with _ | traceId | traceIds
  · exact .inr ⟨fun h => h.1, rfl⟩
  · rcases headers.get "x-instana-s" with _ | spanId | spanIds
    · exact .inr ⟨fun h => h.2, rfl⟩
    · refine .inl ⟨trivial, trivial, ?_⟩
      rcases headers.get "x-instana-l" with _ | level | levels
      · exact .inr ⟨_, rfl, rfl⟩
      · exact .inr ⟨_, rfl, rfl⟩
      · exact .inl ⟨_, rfl⟩
    · exact .inr ⟨fun h => h.2, rfl⟩
  · exact .inr ⟨fun h => h.1, rfl⟩

theorem instana_stops (h : Hides env headers .instana)
    (hnot : ∀ ctx, ¬ Finds env headers .instana ctx) : Stops env headers .instana := by
  have hverify : Extractor.instana.verifyHeaders headers = true :=
    verifyHeaders_of_get (by decide) (isSome_of_isText h.1)
  rcases instanaContext_cases headers with
    ⟨-, -, ⟨err, herror⟩ | ⟨ctx, hcontext, hsample⟩⟩ | ⟨htext, -⟩
  · exact stops_of_error hverify herror
  · refine stops_of_not_bare hverify hcontext hnot fun hbare => ?_
    rw [hbare.sample] at hsample
    cases hsample
  · exact absurd h htext

theorem instana_skips (h : ¬ Hides env headers .instana) : Skips env headers .instana := by
  by_cases hverify : Extractor.instana.verifyHeaders headers = true
  · rcases instanaContext_cases headers with ⟨htrace, hspan, -⟩ | ⟨-, hnone⟩
    · exact absurd ⟨htrace, hspan⟩ h
    · exact skips_of_none hverify hnone
  · exact skips_of_unverified hverify

theorem awsPair_cases {ctx : Context} {pair : Text} {found : Context}
    (h : awsPair ctx pair = some found) :
    (awsKey pair = ofText "Root" ∧ ∃ id, found = { ctx with traceId := some id })
      ∨ (awsKey pair = ofText "Parent" ∧ ∃ id, found = { ctx with spanId := some id })
      ∨ (awsKey pair = ofText "Sampled" ∧ ∃ sample, found = { ctx with shouldSample := some sample })
      ∨ (awsKey pair ≠ ofText "Parent" ∧ awsKey pair ≠ ofText "Sampled" ∧ found = ctx) := by
  unfold awsPair at h
  simp only at h
  split at h
  · rename_i hkey
    refine .inl ⟨hkey, ?_⟩
    split at h
    · split at h
      · cases h
      · cases h
        exact ⟨_, rfl⟩
    · cases h
  · split at h
    · rename_i hkey
      refine .inr (.inl ⟨hkey, ?_⟩)
      split at h
      · cases h
      · cases h
        exact ⟨_, rfl⟩
    · rename_i hparent
      split at h
      · rename_i hkey
        refine .inr (.inr (.inl ⟨hkey, ?_⟩))
        split at h
        · cases h
        · cases h
          exact ⟨_, rfl⟩
      · rename_i hsampled
        cases h
        exact .inr (.inr (.inr ⟨hparent, hsampled, rfl⟩))

theorem awsPair_isSome (ctx : Context) (pair : Text) :
    (awsPair ctx pair).isSome = (awsPair {} pair).isSome := by
  unfold awsPair
  simp only
  split
  · split
    · split <;> rfl
    · rfl
  · split
    · split <;> rfl
    · split
      · split <;> rfl
      · rfl

theorem foldlM_awsPair_isSome_iff (ctx : Context) (pairs : List Text) :
    (pairs.foldlM awsPair ctx).isSome = true
      ↔ ∀ pair ∈ pairs, (awsPair {} pair).isSome = true := by
  induction pairs generalizing ctx with
  | nil => simp
  | cons pair pairs ih =>
    rw [List.foldlM_cons, List.forall_mem_cons, ← awsPair_isSome ctx pair]
    cases hpair : awsPair ctx pair with
    | none => simp
    | some next =>
      simp only [bind, Option.bind_some, Option.isSome_some, true_and]
      exact ih next

theorem foldlM_awsPair {ctx found : Context} {pairs : List Text}
    (h : pairs.foldlM awsPair ctx = some found) (htrace : found.traceId = none) :
    ctx.traceId = none ∧ (Bare found ↔ Bare ctx
      ∧ ∀ pair ∈ pairs, awsKey pair ≠ ofText "Parent" ∧ awsKey pair ≠ ofText "Sampled") := by
  induction pairs generalizing ctx with
  | nil =>
    cases h
    exact ⟨htrace, by simp⟩
  | cons pair pairs ih =>
    rw [List.foldlM_cons] at h
    cases hpair : awsPair ctx pair with
    | none =>
      rw [hpair] at h
      cases h
    | some next =>
      rw [hpair] at h
      obtain ⟨hnext, hbare⟩ := ih h
      rw [hbare, List.forall_mem_cons]
      rcases awsPair_cases hpair with ⟨-, id, rfl⟩ | ⟨hkey, id, rfl⟩ | ⟨hkey, sample, rfl⟩
        | ⟨hparent, hsampled, rfl⟩
      · cases hnext
      · refine ⟨hnext, ?_⟩
        constructor
        · intro hboth
          cases hboth.1.span
        · intro hboth
          exact absurd hkey hboth.2.1.1
      · refine ⟨hnext, ?_⟩
        constructor
        · intro hboth
          cases hboth.1.sample
        · intro hboth
          exact absurd hkey hboth.2.1.2
      · refine ⟨hnext, ?_⟩
        constructor
        · intro hboth
          exact ⟨hboth.1, ⟨hparent, hsampled⟩, hboth.2⟩
        · intro hboth
          exact ⟨hboth.1, hboth.2.2⟩

theorem bare_empty : Bare {} := ⟨rfl, rfl, rfl, rfl, rfl, rfl, rfl, rfl⟩

theorem aws_stops (h : Hides env headers .aws) (hnot : ∀ ctx, ¬ Finds env headers .aws ctx) :
    Stops env headers .aws := by
  obtain ⟨header, hget, hvalid, pair, hpair, hkey⟩ := h
  have hverify : Extractor.aws.verifyHeaders headers = true :=
    verifyHeaders_of_get List.mem_cons_self (by simp [hget])
  obtain ⟨ctx, hfold⟩ := Option.isSome_iff_exists.mp
    ((foldlM_awsPair_isSome_iff {} (header.splitOn 59)).mpr hvalid)
  have hcontext : Extractor.aws.getContext env headers = .ok (some ctx) := by
    simp only [Extractor.getContext, awsContext, hget, hfold]
  refine stops_of_not_bare hverify hcontext hnot fun hbare => ?_
  have htrace := traceId_of_not_finds hverify hcontext hnot
  have hkeys := ((foldlM_awsPair hfold htrace).2.mp hbare).2 pair hpair
  rcases hkey with hkey | hkey
  · exact hkeys.1 hkey
  · exact hkeys.2 hkey

theorem aws_skips (h : ¬ Hides env headers .aws) (hnot : ∀ ctx, ¬ Finds env headers .aws ctx) :
    Skips env headers .aws := by
  by_cases hverify : Extractor.aws.verifyHeaders headers = true
  · cases hcontext : awsContext headers with
    | none => exact skips_of_none hverify (congrArg Except.ok hcontext)
    | some ctx =>
      have hsome : Extractor.aws.getContext env headers = .ok (some ctx) :=
        congrArg Except.ok hcontext
      have htrace := traceId_of_not_finds hverify hsome hnot
      unfold awsContext at hcontext
      split at hcontext
      · rename_i header hget
        refine skips_of_bare hverify hsome hnot ?_
        refine (foldlM_awsPair hcontext htrace).2.mpr ⟨bare_empty, fun pair hpair => ?_⟩
        have hvalid := (foldlM_awsPair_isSome_iff {} (header.splitOn 59)).mp (by
          rw [hcontext]
          rfl)
        constructor
        · exact fun hkey => h ⟨header, hget, hvalid, pair, hpair, .inl hkey⟩
        · exact fun hkey => h ⟨header, hget, hvalid, pair, hpair, .inr hkey⟩
      · cases hcontext
  · exact skips_of_unverified hverify

theorem stops_of_hides {extractor : Extractor} (h : Hides env headers extractor)
    (hnot : ∀ ctx, ¬ Finds env headers extractor ctx) : Stops env headers extractor := by
  cases extractor with
  | b3 => exact b3_stops h hnot
  | w3c => exact absurd h id
  | jaeger => exact absurd h id
  | ot => exact ot_stops h hnot
  | datadog => exact datadog_stops h hnot
  | aws => exact aws_stops h hnot
  | gcp => exact absurd h id
  | instana => exact instana_stops h hnot

theorem skips_of_not_hides {extractor : Extractor} (h : ¬ Hides env headers extractor)
    (hnot : ∀ ctx, ¬ Finds env headers extractor ctx) : Skips env headers extractor := by
  cases extractor with
  | b3 => exact b3_skips h
  | w3c => exact skips_of_traceId rfl (fun _ hctx => w3cContext_traceId hctx) hnot
  | jaeger => exact skips_of_traceId rfl (fun _ hctx => jaegerContext_traceId hctx) hnot
  | ot => exact ot_skips h hnot
  | datadog => exact datadog_skips h hnot
  | aws => exact aws_skips h hnot
  | gcp => exact skips_of_traceId rfl (fun _ hctx => gcpContext_traceId hctx) hnot
  | instana => exact instana_skips h

/-! ## The loop -/

theorem extractFrom_of_skips {before : List Extractor} (rest : List Extractor)
    (last : Option Context) (h : ∀ extractor ∈ before, Skips env headers extractor) :
    ∃ last', extractFrom env headers last (before ++ rest)
      = extractFrom env headers last' rest := by
  induction before generalizing last with
  | nil => exact ⟨last, rfl⟩
  | cons extractor before ih =>
    have hrest := fun other hother => h other (List.mem_cons_of_mem extractor hother)
    rcases h extractor List.mem_cons_self with hnone | hempty
    · obtain ⟨last', hlast⟩ := ih none hrest
      refine ⟨last', ?_⟩
      rw [← hlast, List.cons_append, extractFrom, hnone]
      rfl
    · obtain ⟨last', hlast⟩ := ih (some {}) hrest
      refine ⟨last', ?_⟩
      rw [← hlast, List.cons_append, extractFrom, hempty]
      rfl

theorem extractFrom_of_finds {extractor : Extractor} {after : List Extractor} {ctx : Context}
    {last : Option Context} (h : Finds env headers extractor ctx) :
    extractFrom env headers last (extractor :: after) = .ok (some ctx, some extractor) := by
  have hne : ctx.isEmpty = false := by
    refine decide_eq_false ?_
    rintro rfl
    cases h.2
  rw [extractFrom, h.1]
  simp [bind, Except.bind, hne]

theorem extractFrom_of_stops {extractor : Extractor} {after : List Extractor}
    {last : Option Context} (h : Stops env headers extractor) {ctx : Context}
    {found : Option Extractor} (htrace : ctx.traceId.isSome = true) :
    extractFrom env headers last (extractor :: after) ≠ .ok (some ctx, found) := by
  rw [extractFrom]
  rcases h with ⟨err, herror⟩ | ⟨other, hother, hne, hnone⟩
  · rw [herror]
    exact fun heq => nomatch heq
  · rw [hother]
    have hempty : other.isEmpty = false := decide_eq_false hne
    simp only [bind, Except.bind, hempty, Bool.false_eq_true, if_false]
    intro heq
    cases heq
    rw [hnone] at htrace
    cases htrace

end

/-- The context of the first extractor that finds a trace id is returned. -/
def FirstTraceReturned (env : Env) (headers : Headers) (extractors : List Extractor) : Prop :=
  ∀ before extractor after ctx, extractors = before ++ extractor :: after →
    (∀ other ∈ before, ∀ ctx, ¬ Finds env headers other ctx) → Finds env headers extractor ctx →
    extractTracingContext env headers (some extractors) = .ok (some ctx, some extractor)

/-- The first extractor that finds a trace id is heard exactly when the
headers have nothing for the extractors before it to end with. -/
theorem first_trace_returned_iff (env : Env) (headers : Headers) (extractors : List Extractor) :
    FirstTraceReturned env headers extractors
      ↔ ∀ before extractor after ctx, extractors = before ++ extractor :: after →
        (∀ other ∈ before, ∀ ctx, ¬ Finds env headers other ctx) →
        Finds env headers extractor ctx →
        ∀ other ∈ before, ¬ Hides env headers other := by
  constructor
  · intro h before extractor after ctx heq hnot hfinds other hother hhides
    classical
    -- the first extractor before that ends extraction
    obtain ⟨first, hfirst⟩ := Option.isSome_iff_exists.mp (List.find?_isSome.mpr
      ⟨other, hother, decide_eq_true hhides⟩ :
        (before.find? fun other => decide (Hides env headers other)).isSome = true)
    obtain ⟨hstop, skipped, rest, rfl, hskipped⟩ := List.find?_eq_some_iff_append.mp hfirst
    have hresult := h _ extractor after ctx heq hnot hfinds
    obtain ⟨last, hlast⟩ := extractFrom_of_skips (first :: (rest ++ extractor :: after)) (some {})
      fun other hother => skips_of_not_hides (by simpa using hskipped other hother)
        (hnot other (List.mem_append_left _ hother))
    rw [heq, extractTracingContext, List.append_assoc, List.cons_append, hlast] at hresult
    exact extractFrom_of_stops (stops_of_hides (of_decide_eq_true hstop)
      (hnot first (by simp))) hfinds.2 hresult
  · intro h before extractor after ctx heq hnot hfinds
    obtain ⟨last, hlast⟩ := extractFrom_of_skips (extractor :: after) (some {})
      fun other hother => skips_of_not_hides (h before extractor after ctx heq hnot hfinds other
        hother) (hnot other hother)
    rw [heq, extractTracingContext, hlast]
    exact extractFrom_of_finds hfinds

/-- A request of w3c, with a `tracestate` of another vendor. -/
def w3cRequest : Headers :=
  [("traceparent", .one (ofText "00-0af7651916cd43dd8448eb211c80319c-b7ad6b7169203331-01")),
    ("tracestate", .one (ofText "rojo=00f067aa0ba902b7"))]

/-- With b3 before w3c, as in the order of the former header type
`preserve`, the trace id of the request is not found. -/
theorem tracestate_hides_traceparent :
    ¬ FirstTraceReturned sampleEnv w3cRequest [.b3, .w3c] := by
  intro h
  have hb3 : Extractor.b3.extract sampleEnv w3cRequest = .ok (some { reuseSpanId := true }) := by
    decide +kernel
  obtain ⟨ctx, hw3c⟩ : ∃ ctx, Finds sampleEnv w3cRequest .w3c ctx := by
    have hfound : ((Extractor.w3c.extract sampleEnv w3cRequest).toOption.bind id).any
        (fun ctx => ctx.traceId.isSome) = true := by decide +kernel
    cases hextract : Extractor.w3c.extract sampleEnv w3cRequest with
    | error err =>
      rw [hextract] at hfound
      cases hfound
    | ok found =>
      cases found with
      | none =>
        rw [hextract] at hfound
        cases hfound
      | some ctx =>
        rw [hextract] at hfound
        exact ⟨ctx, hextract, hfound⟩
  have hnot : ∀ other ∈ [Extractor.b3], ∀ ctx, ¬ Finds sampleEnv w3cRequest other ctx := by
    intro other hother ctx hfinds
    rw [List.mem_singleton.mp hother] at hfinds
    have heq := hb3.symm.trans hfinds.1
    cases heq
    cases hfinds.2
  have hresult := h [.b3] .w3c [] ctx rfl hnot hw3c
  have hfound : extractTracingContext sampleEnv w3cRequest (some [.b3, .w3c])
      = .ok (some { reuseSpanId := true }, some .b3) := by decide +kernel
  rw [hfound] at hresult
  cases hresult

end KongGateway.Kong.Tracing

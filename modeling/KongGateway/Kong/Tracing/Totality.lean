import KongGateway.Kong.Tracing.FirstTrace

/-!
# Totality — which headers and contexts raise an error

Some extractors call string methods on what may be a table of repeated
headers, and the injector of instana converts ids that it does not ask for.
Nothing else raises an error, and the ids that are found have their sizes.
-/

namespace KongGateway.Kong.Tracing

open Bytes Numerals LuaPattern

/-! ## Calls that return -/

section

variable {α β : Type}

theorem exists_bind_iff {x : Lua α} {f : α → Lua β} {P : Prop}
    (hf : ∀ a, x = .ok a → ((∃ b, f a = .ok b) ↔ P)) :
    (∃ b, (x >>= f) = .ok b) ↔ (∃ a, x = .ok a) ∧ P := by
  cases x with
  | error raised =>
    constructor
    · rintro ⟨b, hb⟩
      cases hb
    · rintro ⟨⟨a, ha⟩, -⟩
      cases ha
  | ok a =>
    have hrun : (Except.ok a >>= f) = f a := rfl
    rw [hrun, hf a rfl, and_iff_right ⟨a, rfl⟩]

theorem exists_map_iff {x : Lua α} {f : α → β} :
    (∃ b, x.map f = .ok b) ↔ ∃ a, x = .ok a := by
  cases x with
  | error raised => simp [Except.map]
  | ok a => simp [Except.map]

theorem exists_ok_iff (a : α) : (∃ b, (Except.ok a : Lua α) = .ok b) ↔ True :=
  iff_true_intro ⟨a, rfl⟩

end

theorem idHeader_ok_iff (sizes : List Nat) (value : Option HeaderValue) :
    (∃ found, idHeader sizes value = .ok found) ↔ ¬ takenForId sizes value := by
  rcases idHeader_cases sizes value with ⟨htaken, err, herr⟩ | ⟨hnot, hok⟩
  · rw [herr]
    simpa using htaken
  · exact iff_of_true hok hnot

theorem matchDecimal_ok_iff (value : Option HeaderValue) :
    (∃ digits, matchDecimal value = .ok digits) ↔ ¬ isTable value := by
  rcases matchDecimal_cases value with ⟨htable, err, herr⟩ | ⟨hnot, hok⟩
  · rw [herr]
    simpa using htable
  · exact iff_of_true hok hnot

theorem toHexOf_ok_iff (id : Option Text) : (∃ s, toHexOf id = .ok s) ↔ id.isSome = true := by
  cases id with
  | none => simp [toHexOf]
  | some id => simp [toHexOf]

/-! ## Extraction -/

/-- Repeated headers that a string method is called on. -/
def Repeated (headers : Headers) : Extractor → Prop
  | .b3 =>
    takenForId [16, 32] (headers.get "x-b3-traceid") ∨ takenForId [16] (headers.get "x-b3-spanid")
      ∨ takenForId [16] (headers.get "x-b3-parentspanid")
  | .ot =>
    takenForId [16, 32] (headers.get "ot-tracer-traceid")
      ∨ takenForId [16] (headers.get "ot-tracer-spanid")
  | .datadog =>
    (datadogSampled (headers.get "x-datadog-sampling-priority")).isSome = true
      ∧ (isTable (headers.get "x-datadog-trace-id") ∨ isTable (headers.get "x-datadog-parent-id"))
  | .instana =>
    isText (headers.get "x-instana-t") ∧ isText (headers.get "x-instana-s")
      ∧ isTable (headers.get "x-instana-l")
  | .w3c | .jaeger | .aws | .gcp => False

section

variable (env : Env) (headers : Headers)

theorem readMultiHeader_ok_iff :
    (∃ ctx, readMultiHeader headers = .ok ctx) ↔ ¬ Repeated headers .b3 := by
  rw [Repeated, not_or, not_or, ← idHeader_ok_iff, ← idHeader_ok_iff, ← idHeader_ok_iff]
  refine exists_bind_iff fun traceId _ => exists_bind_iff fun spanId _ => ?_
  refine (exists_bind_iff fun parentId _ => exists_ok_iff _).trans (and_iff_left trivial)

theorem otContext_ok_iff :
    (∃ ctx, otContext env headers = .ok ctx) ↔ ¬ Repeated headers .ot := by
  rw [Repeated, not_or, ← idHeader_ok_iff, ← idHeader_ok_iff]
  refine exists_bind_iff fun traceId _ => ?_
  exact (exists_bind_iff fun spanId _ => exists_ok_iff _).trans (and_iff_left trivial)

theorem datadogContext_ok_iff :
    (∃ ctx, datadogContext env headers = .ok ctx) ↔ ¬ Repeated headers .datadog := by
  unfold datadogContext Repeated
  cases datadogSampled (headers.get "x-datadog-sampling-priority") with
  | none => simp
  | some sample =>
    rw [Option.isSome_some, and_iff_right rfl, not_or, ← matchDecimal_ok_iff, ← matchDecimal_ok_iff]
    refine exists_bind_iff fun traceId _ => ?_
    exact (exists_bind_iff fun parentId _ => exists_ok_iff _).trans (and_iff_left trivial)

theorem instanaContext_ok_iff :
    (∃ ctx, instanaContext headers = .ok ctx) ↔ ¬ Repeated headers .instana := by
  unfold instanaContext Repeated
  rcases headers.get "x-instana-t" with _ | traceId | traceIds
  · exact iff_of_true ⟨_, rfl⟩ fun h => h.1
  · rcases headers.get "x-instana-s" with _ | spanId | spanIds
    · exact iff_of_true ⟨_, rfl⟩ fun h => h.2.1
    · rcases headers.get "x-instana-l" with _ | level | levels
      · exact iff_of_true ⟨_, rfl⟩ fun h => h.2.2
      · exact iff_of_true ⟨_, rfl⟩ fun h => h.2.2
      · refine iff_of_false ?_ (not_not_intro ⟨trivial, trivial, trivial⟩)
        rintro ⟨ctx, hctx⟩
        cases hctx
    · exact iff_of_true ⟨_, rfl⟩ fun h => h.2.1
  · exact iff_of_true ⟨_, rfl⟩ fun h => h.1

theorem getContext_ok_iff (extractor : Extractor) :
    (∃ ctx, extractor.getContext env headers = .ok ctx) ↔ ¬ Repeated headers extractor := by
  cases extractor with
  | b3 =>
    rw [← readMultiHeader_ok_iff]
    refine exists_map_iff.trans ?_
    exact (exists_bind_iff fun multi _ => exists_ok_iff _).trans (and_iff_left trivial)
  | ot =>
    rw [← otContext_ok_iff env]
    exact exists_map_iff
  | datadog => exact datadogContext_ok_iff env headers
  | instana => exact instanaContext_ok_iff headers
  | _ => exact iff_of_true ⟨_, rfl⟩ not_false

/-- Headers that are repeated are among those that the extractor asks for. -/
theorem verifyHeaders_of_repeated {extractor : Extractor} (h : Repeated headers extractor) :
    extractor.verifyHeaders headers = true := by
  cases extractor with
  | b3 =>
    rcases h with h | h | h
    · exact verifyHeaders_of_get (by decide) (isSome_of_takenForId h)
    · exact verifyHeaders_of_get (by decide) (isSome_of_takenForId h)
    · exact verifyHeaders_of_get (by decide) (isSome_of_takenForId h)
  | ot =>
    rcases h with h | h
    · exact verifyHeaders_of_get (by decide) (isSome_of_takenForId h)
    · exact verifyHeaders_of_get (by decide) (isSome_of_takenForId h)
  | datadog =>
    rcases h.2 with h | h
    · exact verifyHeaders_of_get (by decide) (isSome_of_isTable h)
    · exact verifyHeaders_of_get (by decide) (isSome_of_isTable h)
  | instana => exact verifyHeaders_of_get (by decide) (isSome_of_isText h.1)
  | _ => cases h

theorem extract_ok_iff (extractor : Extractor) :
    (∃ found, extractor.extract env headers = .ok found) ↔ ¬ Repeated headers extractor := by
  by_cases hverify : extractor.verifyHeaders headers = true
  · rw [Extractor.extract, if_pos hverify]
    exact exists_map_iff.trans (getContext_ok_iff env headers extractor)
  · rw [Extractor.extract, if_neg hverify]
    exact iff_of_true ⟨_, rfl⟩ fun h => hverify (verifyHeaders_of_repeated headers h)

/-- Ids of the sizes of the internal format. -/
def Context.Shaped (ctx : Context) : Prop :=
  (∀ id, ctx.traceId = some id → id.length = 16) ∧ ∀ id, ctx.spanId = some id → id.length = 8

theorem shaped_toKong (ctx : Context) : ctx.toKong.Shaped := by
  constructor
  · intro id hid
    obtain ⟨traceId, -, rfl⟩ := Option.map_eq_some_iff.mp hid
    exact length_toIdSize traceId 16
  · intro id hid
    obtain ⟨spanId, -, rfl⟩ := Option.map_eq_some_iff.mp hid
    exact length_toIdSize spanId 8

theorem shaped_of_extract {extractor : Extractor} {ctx : Context}
    (h : extractor.extract env headers = .ok (some ctx)) : ctx.Shaped := by
  rw [Extractor.extract] at h
  split at h
  · cases hget : extractor.getContext env headers with
    | error raised =>
      rw [hget] at h
      cases h
    | ok found =>
      rw [hget] at h
      obtain ⟨found, -, rfl⟩ := Option.map_eq_some_iff.mp (Except.ok.inj h)
      exact shaped_toKong found
  · cases h

/-- Nothing, or a context with ids of their sizes, is extracted. -/
def Extracts (extractor : Extractor) : Prop :=
  ∃ found, extractor.extract env headers = .ok found ∧ ∀ ctx, found = some ctx → ctx.Shaped

theorem extracts_iff (extractor : Extractor) :
    Extracts env headers extractor ↔ ¬ Repeated headers extractor := by
  rw [← extract_ok_iff env]
  constructor
  · rintro ⟨found, hfound, -⟩
    exact ⟨found, hfound⟩
  · rintro ⟨found, hfound⟩
    refine ⟨found, hfound, ?_⟩
    rintro ctx rfl
    exact shaped_of_extract env headers hfound

end

/-! ## Injection -/

/-- The injectors that convert both ids to hexadecimal digits. -/
def Injector.convertsIds : Injector → Bool
  | .w3c | .jaeger | .ot | .aws | .gcp | .instana => true
  | .b3 | .b3Single | .datadog => false

section

variable (env : Env) (ctx : Context)

/-- Both ids are there. -/
def Context.HasIds : Prop := ctx.traceId.isSome = true ∧ ctx.spanId.isSome = true

theorem hexIds_ok_iff {f : Text → Text → Headers} :
    (∃ headers, (do
      let traceId ← toHexOf ctx.traceId
      let spanId ← toHexOf ctx.spanId
      .ok (f traceId spanId) : Lua Headers) = .ok headers) ↔ ctx.HasIds := by
  rw [Context.HasIds, ← toHexOf_ok_iff, ← toHexOf_ok_iff]
  refine exists_bind_iff fun traceId _ => ?_
  exact (exists_bind_iff fun spanId _ => exists_ok_iff _).trans (and_iff_left trivial)

theorem gcpHeaders_ok_iff : (∃ headers, gcpHeaders env ctx = .ok headers) ↔ ctx.HasIds := by
  rw [Context.HasIds, ← toHexOf_ok_iff]
  refine exists_bind_iff fun traceId _ => ?_
  cases ctx.spanId with
  | none => simp
  | some spanId => simp

theorem iff_asked {asked : Bool} (h : asked = true) {P : Prop} : P ↔ (asked = true → P) :=
  ⟨fun hp _ => hp, fun hp => hp h⟩

theorem createHeaders_ok_iff (injector : Injector) :
    (∃ headers, injector.createHeaders env ctx = .ok headers)
      ↔ (injector.convertsIds = true → ctx.HasIds) := by
  cases injector with
  | b3 => exact iff_of_true ⟨_, rfl⟩ nofun
  | b3Single => exact iff_of_true ⟨_, rfl⟩ nofun
  | datadog => exact iff_of_true ⟨_, rfl⟩ nofun
  | w3c => exact (hexIds_ok_iff ctx).trans (iff_asked rfl)
  | jaeger => exact (hexIds_ok_iff ctx).trans (iff_asked rfl)
  | ot => exact (hexIds_ok_iff ctx).trans (iff_asked rfl)
  | aws => exact (hexIds_ok_iff ctx).trans (iff_asked rfl)
  | gcp => exact (gcpHeaders_ok_iff env ctx).trans (iff_asked rfl)
  | instana => exact (hexIds_ok_iff ctx).trans (iff_asked rfl)

theorem formattedTraceId_ok (injector : Injector) {traceId : Option Text}
    (h : injector.convertsIds = true → traceId.isSome = true) :
    ∃ formatted, injector.formattedTraceId env traceId = .ok formatted := by
  cases traceId with
  | some traceId => cases injector <;> exact ⟨_, rfl⟩
  | none =>
    cases injector with
    | b3 => exact ⟨_, rfl⟩
    | b3Single => exact ⟨_, rfl⟩
    | datadog => exact ⟨_, rfl⟩
    | _ => cases h rfl

theorem hasIds_resize (injector : Injector) : (injector.resize ctx).HasIds ↔ ctx.HasIds := by
  simp only [Context.HasIds, Injector.resize, Option.isSome_map]

/-- A context that is accepted is injected, or refused with an error. -/
def Injects (injector : Injector) : Prop :=
  injector.verifyContext ctx = none → ∃ result, injector.inject env ctx = .ok result

theorem injects_of_verified {injector : Injector} (h : injector.verifyContext ctx = none) :
    (∃ result, injector.inject env ctx = .ok result)
      ↔ (injector.convertsIds = true → ctx.HasIds) := by
  have hcreate := createHeaders_ok_iff env (injector.resize ctx) injector
  rw [hasIds_resize] at hcreate
  rw [Injector.inject, h, ← hcreate]
  constructor
  · intro hresult
    cases hheaders : injector.createHeaders env (injector.resize ctx) with
    | error raised =>
      rw [hheaders] at hresult
      obtain ⟨result, hresult⟩ := hresult
      cases hresult
    | ok headers => exact ⟨headers, rfl⟩
  · intro hheaders
    obtain ⟨formatted, hformatted⟩ := formattedTraceId_ok env injector
      fun hconverts => ((hasIds_resize ctx injector).mpr (hcreate.mp hheaders hconverts)).1
    obtain ⟨headers, hheaders⟩ := hheaders
    refine ⟨.ok (headers.map fun header => (header.1, normalizeMultiHeader header.2), formatted), ?_⟩
    dsimp only
    rw [hheaders, hformatted]
    rfl

/-- What `verify_context` asks for. -/
theorem verifyContext_eq_none_iff (injector : Injector) :
    injector.verifyContext ctx = none ↔ (injector.requiresIds = true → ctx.HasIds) := by
  unfold Injector.verifyContext Context.HasIds
  cases injector.requiresIds with
  | false => simp
  | true => cases ctx.traceId <;> cases ctx.spanId <;> simp

theorem injects_iff (injector : Injector) :
    Injects env ctx injector ↔ (injector = .instana → ctx.HasIds) := by
  unfold Injects
  by_cases hverify : injector.verifyContext ctx = none
  · rw [forall_prop_of_true hverify, injects_of_verified env ctx hverify]
    rw [verifyContext_eq_none_iff] at hverify
    cases injector <;> simp_all [Injector.convertsIds, Injector.requiresIds]
  · refine iff_of_true (fun h => absurd h hverify) ?_
    rintro rfl
    exact absurd rfl hverify

/-- Extraction returns, and ids have their sizes, unless headers are repeated where a string
method is called; injection returns unless instana misses an id. -/
theorem tracing_total_iff :
    (∀ headers extractor, Extracts env headers extractor ↔ ¬ Repeated headers extractor)
      ∧ ∀ ctx injector, Injects env ctx injector ↔ (injector = .instana → ctx.HasIds) :=
  ⟨extracts_iff env, injects_iff env⟩

/-- The level of instana twice, and no ids for instana. -/
theorem instana_not_total :
    ¬ Extracts sampleEnv [("x-instana-t", .one (ofText "0af7651916cd43dd")),
        ("x-instana-s", .one (ofText "b7ad6b7169203331")),
        ("x-instana-l", .many [ofText "1", ofText "1"])] .instana
      ∧ ¬ Injects sampleEnv {} .instana := by
  constructor
  · rintro ⟨found, hfound, -⟩
    cases hfound
  · intro h
    obtain ⟨result, hresult⟩ := h rfl
    cases hresult

end

end KongGateway.Kong.Tracing

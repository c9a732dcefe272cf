import KongGateway.Lib.Joined
import KongGateway.Kong.Tracing.Propagation

/-!
# Formats — what the extractors read from the headers of the injectors

One lemma for each format: from headers as the injector writes them, the
context with the ids and the decision that were written.
-/

namespace KongGateway.Kong.Tracing

open Bytes Numerals LuaPattern

/-! ## Ids -/

theorem fromHex_toHex (s : Text) : fromHex (toHex s) = s := by
  have heven : ¬ (toHex s).length % 2 ≠ 0 := by
    rw [length_toHex]
    omega
  rw [fromHex, if_neg heven, replacePairs_toHex]

theorem tonumberHex_toHex {s : Text} (h : s ≠ List.replicate s.length 0) :
    tonumberHex (toHex s) ≠ 0 := by
  have hne : hexNumber (toHex s) ≠ 0 := fun hzero => h ((hexNumber_toHex_eq_zero_iff s).mp hzero)
  unfold tonumberHex
  omega

theorem toIdSize_of_length {id : Text} {n : Nat} (h : id.length = n) : toIdSize id n = id := by
  rw [toIdSize, if_neg (by omega), if_neg (by omega)]

theorem length_toIdSize (id : Text) (n : Nat) : (toIdSize id n).length = n := by
  unfold toIdSize
  split
  · rw [List.length_drop]
    omega
  · split
    · rw [List.length_append, List.length_replicate]
      omega
    · omega

theorem toHex_ne_nil {s : Text} (h : s ≠ []) : toHex s ≠ [] := by
  intro hnil
  have hlen := congrArg List.length hnil
  rw [length_toHex, List.length_nil] at hlen
  exact h (List.length_eq_zero_iff.mp (by omega))

theorem idHeader_toHex {sizes : List Nat} {s : Text} (h : 2 * s.length ∈ sizes) :
    idHeader sizes (some (.one (toHex s))) = .ok (some (toHex s), false) := by
  have hhex : ((toHex s).any fun c => !isHex c) = false := by
    rw [List.any_eq_false]
    intro c hc
    simp [isHex_of_mem_toHex hc]
  rw [idHeader, length_toHex, if_neg]
  simp [h, hhex]

/-! ## The patterns -/

section

variable {a b c d : Text}

/-- Texts of hexadecimal digits. -/
def HexText (s : Text) : Prop := s ≠ [] ∧ ∀ c ∈ s, isHex c = true

theorem hexText_toHex {s : Text} (h : s ≠ []) : HexText (toHex s) :=
  ⟨toHex_ne_nil h, fun _ hc => isHex_of_mem_toHex hc⟩

theorem match_last_hex (hd : HexText d) :
    matchAll [(Item.plus isHex).capture] d = some [d] := by
  have h := matchThen_plus (k := fun s : Text => if s.isEmpty then some [] else none)
    (l := []) (b := []) hd.1 hd.2 (by simp) rfl
  rwa [List.append_nil] at h

theorem match_next_hex {sep : Byte} (hsep : isHex sep = false) (ha : HexText a) {items : List (Item Byte)}
    {captures : List Text} (hrest : matchAll items b = some captures) :
    matchAll ((Item.plus isHex).capture :: Item.lit sep :: items) (a ++ sep :: b)
      = some (a :: captures) :=
  matchThen_plus ha.1 ha.2 (by simpa using hsep) (matchThen_lit hrest)

theorem match_four {sep : Byte} (hsep : isHex sep = false) (ha : HexText a) (hb : HexText b) (hc : HexText c)
    (hd : HexText d) :
    matchAll [(Item.plus isHex).capture, Item.lit sep, (Item.plus isHex).capture, Item.lit sep,
      (Item.plus isHex).capture, Item.lit sep, (Item.plus isHex).capture]
      (a ++ sep :: (b ++ sep :: (c ++ sep :: d))) = some [a, b, c, d] :=
  match_next_hex hsep ha (match_next_hex hsep hb (match_next_hex hsep hc (match_last_hex hd)))

end

theorem flagText_of {P : Text → Prop} {yes no : String} (hyes : P (ofText yes))
    (hno : P (ofText no)) (sample : Option Bool) : P (flagText sample yes no) := by
  unfold flagText
  split
  · exact hyes
  · exact hno

theorem hexText_flag (sample : Option Bool) : HexText (flagText sample "01" "00") :=
  flagText_of ⟨by decide, by decide +kernel⟩ ⟨by decide, by decide +kernel⟩ sample

theorem tonumberHex_flag (sample : Option Bool) :
    tonumberHex (flagText sample "01" "00") = if sample = some true then 1 else 0 := by
  unfold flagText
  split <;> decide

theorem length_flag (sample : Option Bool) : (flagText sample "01" "00").length = 2 := by
  apply flagText_of (P := fun text => text.length = 2)
  · decide
  · decide

/-! ## w3c and jaeger -/

section

variable {traceId spanId : Text}

theorem w3cContext_header (ht : traceId.length = 16) (hs : spanId.length = 8)
    (htz : traceId ≠ List.replicate traceId.length 0)
    (hsz : spanId ≠ List.replicate spanId.length 0) (sample : Option Bool) {headers : Headers}
    (hget : headers.get "traceparent" = some (.one (ofText "00-" ++ toHex traceId ++ [45]
      ++ toHex spanId ++ [45] ++ flagText sample "01" "00"))) :
    w3cContext headers
      = some { traceId := some traceId, spanId := some spanId
               shouldSample := some (sample = some true)
               w3cFlags := some (if sample = some true then 1 else 0) } := by
  have hmatch : matchAll w3cPattern (ofText "00-" ++ toHex traceId ++ [45] ++ toHex spanId ++ [45]
      ++ flagText sample "01" "00")
      = some [ofText "00", toHex traceId, toHex spanId, flagText sample "01" "00"] := by
    have hfour := match_four (show isHex 45 = false by decide) (a := ofText "00")
      ⟨by decide, by decide +kernel⟩ (hexText_toHex (List.ne_nil_of_length_eq_add_one ht))
      (hexText_toHex (List.ne_nil_of_length_eq_add_one hs)) (hexText_flag sample)
    have htext : ofText "00-" = ofText "00" ++ [45] := by decide
    rw [htext, w3cPattern]
    simpa using hfour
  have htn := tonumberHex_toHex htz
  have hsn := tonumberHex_toHex hsz
  simp only [w3cContext, hget, hmatch]
  rw [if_neg (by simp), if_neg (by simp [ht, htn]), if_neg (by simp [hs, hsn]),
    if_neg (by simp [length_flag]), fromHex_toHex, fromHex_toHex, tonumberHex_flag]
  by_cases hsample : sample = some true
  · simp [hsample]
  · simp [hsample]

theorem jaegerContext_header (env : Env) (ht : traceId.length = 16 ∨ traceId.length = 8)
    (hs : spanId.length = 8) (htz : traceId ≠ List.replicate traceId.length 0)
    (hsz : spanId ≠ List.replicate spanId.length 0) {parent : Text} (hhex : HexText parent)
    (sample : Option Bool) {headers : Headers}
    (hget : headers.get "uber-trace-id" = some (.one (toHex traceId ++ [58] ++ toHex spanId ++ [58]
      ++ parent ++ [58] ++ flagText sample "01" "00"))) :
    jaegerContext env headers
      = some { traceId := some traceId, spanId := some spanId, parentId := some (fromHex parent)
               reuseSpanId := true, shouldSample := some (sample = some true)
               baggage := parseBaggageHeaders env headers "uberctx-" } := by
  have htne : traceId ≠ [] := by
    rintro rfl
    rcases ht with ht | ht <;> cases ht
  have hmatch : matchAll jaegerPattern (toHex traceId ++ [58] ++ toHex spanId ++ [58] ++ parent
      ++ [58] ++ flagText sample "01" "00")
      = some [toHex traceId, toHex spanId, parent, flagText sample "01" "00"] := by
    have hfour := match_four (show isHex 58 = false by decide) (hexText_toHex htne)
      (hexText_toHex (List.ne_nil_of_length_eq_add_one hs)) hhex (hexText_flag sample)
    rw [jaegerPattern]
    simpa using hfour
  have htn := tonumberHex_toHex htz
  have hsn := tonumberHex_toHex hsz
  have htl : ¬ 2 * traceId.length > 32 := by omega
  simp only [jaegerContext, hget, hmatch]
  rw [if_neg (by simp [htl, htn]), if_neg (by simp [hs, hsn]),
    if_neg (by simp [length_flag]), fromHex_toHex, fromHex_toHex, tonumberHex_flag]
  by_cases hsample : sample = some true
  · simp [hsample]
  · simp [hsample]

end

/-! ## ot, datadog and instana -/

section

variable {traceId spanId : Text}

theorem sampledFlag_decision (sample : Bool) :
    sampledFlag (some (.one (ofText (if sample then "1" else "0")))) = some sample := by
  cases sample <;> decide

theorem otContext_headers (env : Env) (ht : traceId.length = 16 ∨ traceId.length = 8)
    (hs : spanId.length = 8) (sample : Option Bool) {headers : Headers}
    (htrace : headers.get "ot-tracer-traceid" = some (.one (toHex traceId)))
    (hspan : headers.get "ot-tracer-spanid" = some (.one (toHex spanId)))
    (hsample : headers.get "ot-tracer-sampled"
      = sample.map fun sample => .one (ofText (if sample then "1" else "0"))) :
    otContext env headers
      = .ok { traceId := some traceId, spanId := some spanId, shouldSample := sample
              baggage := parseBaggageHeaders env headers "ot-baggage-" } := by
  have hflag : sampledFlag (headers.get "ot-tracer-sampled") = sample := by
    rw [hsample]
    cases sample with
    | none => rfl
    | some sample => exact sampledFlag_decision sample
  have htsize : 2 * traceId.length ∈ [16, 32] := by
    simp only [List.mem_cons, List.not_mem_nil, or_false]
    omega
  have hssize : 2 * spanId.length ∈ [16] := by
    simp only [List.mem_cons, List.not_mem_nil, or_false]
    omega
  unfold otContext
  rw [htrace, hspan, idHeader_toHex htsize, idHeader_toHex hssize, hflag]
  simp [bind, Except.bind, fromHex_toHex]

theorem hexStart_toHex (h : traceId ≠ []) : hexStart (toHex traceId) = some (toHex traceId) := by
  have hmatch := matchThen_plus (k := fun _ : Text => some []) (l := []) (b := [])
    (toHex_ne_nil h) (fun _ hc => isHex_of_mem_toHex hc) (by simp) rfl
  rw [List.append_nil] at hmatch
  rw [hexStart, matchStart, hmatch]
  rfl

theorem instanaContext_headers (ht : traceId ≠ []) (hs : spanId ≠ []) (sample : Option Bool)
    {headers : Headers} (htrace : headers.get "x-instana-t" = some (.one (toHex traceId)))
    (hspan : headers.get "x-instana-s" = some (.one (toHex spanId)))
    (hsample : headers.get "x-instana-l"
      = sample.map fun sample => .one (ofText (if sample then "1" else "0"))) :
    instanaContext headers
      = .ok (some { traceId := some traceId, spanId := some spanId
                    shouldSample := some (sample = some true) }) := by
  unfold instanaContext
  rw [htrace, hspan, hsample]
  simp only [hexStart_toHex ht, hexStart_toHex hs, Option.map_some, fromHex_toHex]
  cases sample with
  | none => rfl
  | some sample => cases sample <;> rfl

/-- What `resty.openssl.bn` is documented to do: an id is written as a
decimal number, and a number that is not zero is read as its bytes without
zeros in front. -/
structure Env.Lawful (env : Env) : Prop where
  toDec : ∀ id, env.toDec id = decimal (number id)
  toBinary : ∀ digits, digits ≠ [] → (∀ c ∈ digits, isDigit c = true) →
    decimalNumber digits ≠ 0 → env.toBinary digits = some (bytes (decimalNumber digits))

theorem matchDecimal_decimal (n : Nat) :
    matchDecimal (some (.one (decimal n))) = .ok (some (decimal n)) := by
  have hdigits : ∀ c ∈ decimal n, isDigit c = true := fun c hc => isDigit_of_mem_decimal hc
  have hspace : ∀ c ∈ (decimal n).head?, isSpace c = false := by
    intro c hc
    have hdigit := hdigits c (List.mem_of_mem_head? hc)
    simp only [isDigit, isSpace, decide_eq_true_eq, decide_eq_false_iff_not] at hdigit ⊢
    omega
  have hend := (matchThen_star (k := fun s : Text => if s.isEmpty then some [] else none)
    (p := isSpace) (l := []) (a := []) (b := []) (by simp) (by simp) rfl).1
  have hnumber := matchThen_plus (decimal_ne_nil n) hdigits (b := []) (by simp) hend
  rw [List.append_nil] at hnumber
  have hmatch := (matchThen_star (a := []) (by simp) hspace hnumber).1
  rw [List.nil_append] at hmatch
  rw [matchDecimal, matchAll, hmatch]
  rfl

theorem toIdSize_bytes_number {id : Text} {n : Nat} (h : id.length ≤ n) :
    toIdSize (bytes (number id)) n = List.replicate (n - id.length) 0 ++ id := by
  have hlen := length_bytes_le (number_lt id)
  have hpad : toIdSize (bytes (number id)) n
      = List.replicate (n - (bytes (number id)).length) 0 ++ bytes (number id) := by
    unfold toIdSize
    rw [if_neg (by omega)]
    split
    · rfl
    · rw [show n - (bytes (number id)).length = 0 by omega]
      rfl
  have hback := replicate_append_bytes_number id
  rw [hpad, show n - (bytes (number id)).length
    = (n - id.length) + (id.length - (bytes (number id)).length) by omega, List.replicate_add,
    List.append_assoc, hback]

theorem toBinary_decimal {env : Env} (henv : env.Lawful) {id : Text}
    (h : number id ≠ 0 ∨ env.toBinary (ofText "0") = some []) :
    env.toBinary (decimal (number id)) = some (bytes (number id)) := by
  by_cases hzero : number id = 0
  · have hempty : env.toBinary (ofText "0") = some [] :=
      h.resolve_left (not_not_intro hzero)
    have hdec : decimal (number id) = ofText "0" := by
      rw [hzero]
      decide
    rw [hdec, hempty, hzero]
    decide
  · have hbin := henv.toBinary (decimal (number id)) (decimal_ne_nil _)
      (fun c hc => isDigit_of_mem_decimal hc) (by rwa [decimalNumber_decimal])
    rwa [decimalNumber_decimal] at hbin

theorem datadogContext_headers {env : Env} (henv : env.Lawful) (sample : Option Bool)
    {headers : Headers}
    (htz : number traceId ≠ 0 ∨ env.toBinary (ofText "0") = some [])
    (hsz : number spanId ≠ 0 ∨ env.toBinary (ofText "0") = some [])
    (htrace : headers.get "x-datadog-trace-id" = some (.one (env.toDec traceId)))
    (hspan : headers.get "x-datadog-parent-id" = some (.one (env.toDec spanId)))
    (hsample : headers.get "x-datadog-sampling-priority"
      = sample.map fun sample => .one (ofText (if sample then "1" else "0"))) :
    datadogContext env headers
      = .ok (some { traceId := some (bytes (number traceId)), spanId := some (bytes (number spanId))
                    shouldSample := sample }) := by
  have hflag : datadogSampled (headers.get "x-datadog-sampling-priority") = some sample := by
    rw [hsample]
    cases sample with
    | none => rfl
    | some sample => cases sample <;> decide
  unfold datadogContext
  rw [htrace, hspan, hflag, henv.toDec, henv.toDec]
  simp [bind, Except.bind, matchDecimal_decimal, toBinary_decimal henv htz,
    toBinary_decimal henv hsz]

theorem get_baggageHeaders (env : Env) (ctx : Context) {start name : String}
    (h : ¬ start.toList <+: name.toList) :
    (Headers.get (baggageHeaders env ctx start) name) = none := by
  unfold Headers.get baggageHeaders
  rw [List.lookup_eq_none_iff]
  intro header hheader
  obtain ⟨item, -, rfl⟩ := List.mem_map.mp hheader
  rw [bne_iff_ne]
  rintro rfl
  exact h (by simp)

theorem get_append (headers headers' : Headers) (name : String) :
    Headers.get (headers ++ headers') name = (headers.get name).or (headers'.get name) := by
  unfold Headers.get
  rw [List.lookup_append]

theorem get_decisionHeader (name : String) (sample : Option Bool) :
    Headers.get (decisionHeader name sample) name
      = sample.map fun sample => .one (ofText (if sample then "1" else "0")) := by
  cases sample <;> simp [decisionHeader, Headers.get]

end

/-! ## aws and gcp -/

section

variable {traceId spanId : Text}

theorem strip_of_no_space {s : Text} (h : ∀ c ∈ s, isSpace c = false) : strip s = s := by
  have hleft : s.dropWhile isSpace = s := by
    cases s with
    | nil => rfl
    | cons c s => rw [List.dropWhile_cons_of_neg (by simp [h c List.mem_cons_self])]
  have hright : s.rdropWhile isSpace = s := by
    rw [List.rdropWhile_eq_self_iff]
    intro hne
    simp [h _ (List.getLast_mem hne)]
  rw [strip, hleft, hright]

theorem not_isSpace_of_isHex {c : Byte} (h : isHex c = true) : isSpace c = false := by
  simp only [isHex, isSpace, decide_eq_true_eq, decide_eq_false_iff_not] at h ⊢
  omega

theorem splitOnce_eq {key value : Text} {delim : Byte} (h : ∀ c ∈ key, c ≠ delim) :
    splitOnce (key ++ delim :: value) delim = (key, value) := by
  unfold splitOnce
  rw [takeWhile_append_eq (by simpa using h) (by simp),
    List.dropWhile_append_of_pos (by simpa using h)]
  simp

theorem awsPair_eq (key : String) {value : Text} (hkey : ∀ c ∈ ofText key, c ≠ 61)
    (hstrip : strip (ofText key) = ofText key) (hvalue : ∀ c ∈ value, isSpace c = false) :
    strip (splitOnce (ofText key ++ 61 :: value) 61).1 = ofText key
      ∧ strip (splitOnce (ofText key ++ 61 :: value) 61).2 = value := by
  rw [splitOnce_eq hkey]
  exact ⟨hstrip, strip_of_no_space hvalue⟩

theorem awsPair_root (ht : traceId.length = 16) (ctx : Context) :
    awsPair ctx (ofText "Root" ++ 61 :: (ofText "1" ++ 45 :: ((toHex traceId).take 8
      ++ 45 :: (toHex traceId).drop 8)))
      = some { ctx with traceId := some traceId } := by
  have htake : HexText ((toHex traceId).take 8) := by
    refine ⟨?_, fun c hc => isHex_of_mem_toHex (List.mem_of_mem_take hc)⟩
    exact List.ne_nil_of_length_eq_add_one (n := 7) (by simp [ht])
  have hdrop : HexText ((toHex traceId).drop 8) := by
    refine ⟨?_, fun c hc => isHex_of_mem_toHex (List.mem_of_mem_drop hc)⟩
    exact List.ne_nil_of_length_eq_add_one (n := 23) (by simp [ht])
  have hone : HexText (ofText "1") := ⟨by decide, by decide +kernel⟩
  have hmatch : matchAll awsTraceIdPattern (ofText "1" ++ 45 :: ((toHex traceId).take 8
      ++ 45 :: (toHex traceId).drop 8))
      = some [ofText "1", (toHex traceId).take 8, (toHex traceId).drop 8] :=
    match_next_hex (by decide) hone (match_next_hex (by decide) htake (match_last_hex hdrop))
  have hspace : ∀ c ∈ ofText "1" ++ 45 :: ((toHex traceId).take 8
      ++ 45 :: (toHex traceId).drop 8), isSpace c = false := by
    intro c hc
    simp only [List.mem_append, List.mem_cons] at hc
    rcases hc with hc | rfl | hc | rfl | hc
    · exact not_isSpace_of_isHex (hone.2 c hc)
    · decide
    · exact not_isSpace_of_isHex (htake.2 c hc)
    · decide
    · exact not_isSpace_of_isHex (hdrop.2 c hc)
  have hlen : (ofText "1" ++ 45 :: ((toHex traceId).take 8
      ++ 45 :: (toHex traceId).drop 8)).length = 35 := by
    have hofText : (ofText "1").length = 1 := by decide
    simp [ht, hofText]
  obtain ⟨hkey, hvalue⟩ := awsPair_eq "Root" (by decide +kernel) (by decide +kernel) hspace
  unfold awsPair
  simp only [hkey, hvalue, if_true, hmatch]
  rw [if_neg (by simp [hlen, ht]), List.take_append_drop, fromHex_toHex]

theorem awsPair_parent (hs : spanId.length = 8) (ctx : Context) :
    awsPair ctx (ofText "Parent" ++ 61 :: toHex spanId) = some { ctx with spanId := some spanId } := by
  obtain ⟨hkey, hvalue⟩ := awsPair_eq "Parent" (by decide +kernel) (by decide +kernel)
    fun c hc => not_isSpace_of_isHex (isHex_of_mem_toHex (s := spanId) hc)
  unfold awsPair
  simp only [hkey, hvalue, if_true]
  rw [if_neg (by decide), if_neg (by simp [hs]), fromHex_toHex]

theorem awsPair_sampled (sample : Option Bool) (ctx : Context) :
    awsPair ctx (ofText "Sampled" ++ 61 :: flagText sample "1" "0")
      = some { ctx with shouldSample := some (sample = some true) } := by
  have hspace : ∀ c ∈ flagText sample "1" "0", isSpace c = false := by
    apply flagText_of (P := fun text => ∀ c ∈ text, isSpace c = false)
    · decide +kernel
    · decide +kernel
  obtain ⟨hkey, hvalue⟩ := awsPair_eq "Sampled" (by decide +kernel) (by decide +kernel) hspace
  unfold awsPair
  simp only [hkey, hvalue, if_true]
  rw [if_neg (by decide), if_neg (by decide)]
  by_cases hsample : sample = some true
  · rw [flagText, if_pos hsample, if_neg (by decide)]
    simp [hsample]
  · rw [flagText, if_neg hsample, if_neg (by decide)]
    have hne : ofText "0" ≠ ofText "1" := by decide
    simp [hsample, hne]

theorem awsContext_header (ht : traceId.length = 16) (hs : spanId.length = 8)
    (sample : Option Bool) {headers : Headers}
    (hget : headers.get "x-amzn-trace-id" = some (.one (ofText "Root=1-" ++ (toHex traceId).take 8
      ++ [45] ++ (toHex traceId).drop 8 ++ ofText ";Parent=" ++ toHex spanId ++ ofText ";Sampled="
      ++ flagText sample "1" "0"))) :
    awsContext headers
      = some { traceId := some traceId, spanId := some spanId
               shouldSample := some (sample = some true) } := by
  have hnot : ∀ c, isHex c = true → c ≠ 59 := by
    rintro c hc rfl
    revert hc
    decide
  have htext : ofText "Root=1-" ++ (toHex traceId).take 8 ++ [45] ++ (toHex traceId).drop 8
      ++ ofText ";Parent=" ++ toHex spanId ++ ofText ";Sampled=" ++ flagText sample "1" "0"
      = [59].intercalate [ofText "Root" ++ 61 :: (ofText "1" ++ 45 :: ((toHex traceId).take 8
          ++ 45 :: (toHex traceId).drop 8)), ofText "Parent" ++ 61 :: toHex spanId,
        ofText "Sampled" ++ 61 :: flagText sample "1" "0"] := by
    have hroot : ofText "Root=1-" = ofText "Root" ++ 61 :: (ofText "1" ++ [45]) := by decide
    have hparent : ofText ";Parent=" = 59 :: (ofText "Parent" ++ [61]) := by decide
    have hsampled : ofText ";Sampled=" = 59 :: (ofText "Sampled" ++ [61]) := by decide
    rw [hroot, hparent, hsampled]
    simp [List.intercalate, List.intersperse]
  have hpieces : ∀ piece ∈ [ofText "Root" ++ 61 :: (ofText "1" ++ 45 :: ((toHex traceId).take 8
      ++ 45 :: (toHex traceId).drop 8)), ofText "Parent" ++ 61 :: toHex spanId,
      ofText "Sampled" ++ 61 :: flagText sample "1" "0"], (59 : Byte) ∉ piece := by
    have hconst : (59 : Byte) ∉ ofText "Root" ∧ (59 : Byte) ∉ ofText "1"
        ∧ (59 : Byte) ∉ ofText "Parent" ∧ (59 : Byte) ∉ ofText "Sampled" := by decide +kernel
    have hflag : (59 : Byte) ∉ flagText sample "1" "0" := by
      apply flagText_of (P := fun text => (59 : Byte) ∉ text)
      · decide
      · decide
    have hhex : ∀ id : Text, (59 : Byte) ∉ toHex id := fun id hmem =>
      hnot 59 (isHex_of_mem_toHex hmem) rfl
    have htake : (59 : Byte) ∉ (toHex traceId).take 8 := fun h =>
      hhex traceId (List.mem_of_mem_take h)
    have hdrop : (59 : Byte) ∉ (toHex traceId).drop 8 := fun h =>
      hhex traceId (List.mem_of_mem_drop h)
    simp only [List.mem_cons, List.not_mem_nil, or_false, forall_eq_or_imp, forall_eq,
      List.mem_append, hconst, hflag, hhex, htake, hdrop]
    decide
  unfold awsContext
  rw [hget, htext]
  simp only
  rw [List.splitOn_intercalate 59 hpieces (by simp)]
  simp only [List.foldlM_cons, List.foldlM_nil, awsPair_root ht, awsPair_parent hs,
    awsPair_sampled, bind, Option.bind, pure]

theorem gcpContext_header {env : Env} (henv : env.Lawful) (ht : traceId.length = 16)
    (hs : spanId.length = 8) (hsz : number spanId ≠ 0 ∨ env.toBinary (ofText "0") = some [])
    (sample : Option Bool) {headers : Headers}
    (hget : headers.get "x-cloud-trace-context" = some (.one (toHex traceId ++ [47]
      ++ env.toDec spanId ++ ofText ";o=" ++ flagText sample "1" "0"))) :
    gcpContext env headers
      = some { traceId := some traceId, spanId := some (bytes (number spanId))
               shouldSample := some (sample = some true) } := by
  obtain ⟨flag, hflag, hdigit⟩ : ∃ flag, flagText sample "1" "0" = [flag] ∧ isDigit flag = true := by
    unfold flagText
    split
    · exact ⟨49, by decide, by decide⟩
    · exact ⟨48, by decide, by decide⟩
  have hlast : gcpFlags (ofText ";o=" ++ [flag]) = some [[flag]] := by
    have htimes := matchThen_times (k := gcpEnd) (p := isDigit) (l := []) (a := [flag])
      (b := []) (m := []) (by simpa using hdigit) (by simp [matchThen, gcpEnd])
    rw [List.append_nil] at htimes
    exact matchThen_lits htimes
  have hsemi : ofText ";o=" = [59, 111, 61] := by decide
  have hlen : (decimal (number spanId)).length ≤ 20 := by
    refine length_decimal_le (by omega) ?_
    have hlt := number_lt spanId
    rw [hs] at hlt
    omega
  have hmatch : gcpMatch (toHex traceId ++ [47] ++ decimal (number spanId) ++ ofText ";o="
      ++ flagText sample "1" "0") = some [toHex traceId, decimal (number spanId), [flag]] := by
    have hnumber := matchThen_limited (k := fun s => (gcpFlags s).or (gcpEnd s)) 
      (l := []) (b := ofText ";o=" ++ [flag]) (m := [[flag]])
      (List.length_pos_iff.mpr (decimal_ne_nil (number spanId))) hlen
      (fun c hc => isDigit_of_mem_decimal hc) (by simp [hsemi, isDigit]) (by simp [matchThen, hlast])
    have hsize : (toHex traceId).length = 32 := by simp [ht]
    have htrace := matchThen_times (p := isLowerHex) (a := toHex traceId)
      (fun c hc => isLowerHex_of_mem_toHex hc) (matchThen_lit (c := 47) hnumber)
    rw [hsize] at htrace
    unfold gcpMatch
    rw [hflag]
    simpa using htrace
  unfold gcpContext
  rw [hget, henv.toDec]
  simp only [hmatch, fromHex_toHex, toBinary_decimal henv hsz]
  have hone : [flag] = ofText "1" ↔ sample = some true := by
    rw [← hflag, flagText]
    split
    · simpa using ‹_›
    · simp only [*, iff_false]
      decide
  simp [hone]

end

/-! ## b3 -/

section

variable {traceId spanId : Text}

/-- The decision that the headers of b3 carry: with the flag `1`, true. -/
def Context.b3Decision (ctx : Context) : Option Bool :=
  if ctx.flags = some (.one (ofText "1")) then some true else ctx.shouldSample

theorem b3Context_headers (ht : traceId.length = 16 ∨ traceId.length = 8) (hs : spanId.length = 8)
    {parentId : Option Text} (hp : ∀ id ∈ parentId, id.length = 8) {headers : Headers}
    (hsingle : headers.get "b3" = none) (hstate : headers.get "tracestate" = none)
    (htrace : headers.get "x-b3-traceid" = some (.one (toHex traceId)))
    (hspan : headers.get "x-b3-spanid" = some (.one (toHex spanId)))
    (hparent : headers.get "x-b3-parentspanid" = parentId.map fun id => .one (toHex id)) :
    b3Context headers
      = .ok { traceId := some traceId, spanId := some spanId, parentId := parentId
              reuseSpanId := true
              shouldSample :=
                if headers.get "x-b3-flags" = some (.one (ofText "1")) then some true
                else sampledFlag (headers.get "x-b3-sampled")
              flags := headers.get "x-b3-flags" } := by
  have htsize : 2 * traceId.length ∈ [16, 32] := by
    simp only [List.mem_cons, List.not_mem_nil, or_false]
    omega
  have hssize : 2 * spanId.length ∈ [16] := by
    simp only [List.mem_cons, List.not_mem_nil, or_false]
    omega
  have hnone : readSingleHeader headers = none := by
    simp [readSingleHeader, b3SingleHeader, hsingle, hstate]
  have hpid : idHeader [16] (headers.get "x-b3-parentspanid")
      = .ok (parentId.map toHex, false) := by
    rw [hparent]
    cases parentId with
    | none => rfl
    | some id => exact idHeader_toHex (by simp [hp id rfl])
  unfold b3Context readMultiHeader
  rw [hnone, htrace, hspan, hpid, idHeader_toHex htsize, idHeader_toHex hssize]
  cases parentId <;> simp [bind, Except.bind, B3Context.ids, fromHex_toHex]

/-- The end of the single header: the sampled section and the parent. -/
def b3Tail (sampled parent : Option Text) : Text :=
  (match sampled with
    | some sampled => 45 :: sampled
    | none => [])
  ++ (match parent with
    | some parent => 45 :: parent
    | none => [])

/-- The first digit of a parent without a sampled section is not taken for
one. -/
def ParentTold (sampled parent : Option Text) : Prop :=
  sampled = none → ∀ digits ∈ parent, ∀ c ∈ digits.head?, c ∉ ofText "01d"

theorem match_b3Tail {sampled parent : Option Text}
    (hsampled : ∀ text ∈ sampled, ∃ c ∈ ofText "01d", text = [c])
    (hparent : ∀ digits ∈ parent, HexText digits) (htold : ParentTold sampled parent) :
    matchAll [Item.opt (· = 45), (Item.opt (· ∈ ofText "01d")).capture, Item.opt (· = 45),
      (Item.star isHex).capture] (b3Tail sampled parent)
      = some [sampled.getD [], parent.getD []] := by
  have hend : ∀ digits : Text, (∀ c ∈ digits, isHex c = true) →
      matchAll [(Item.star isHex).capture] digits = some [digits] := by
    intro digits hdigits
    have h := (matchThen_star (k := fun s : Text => if s.isEmpty then some [] else none)
      (l := []) (b := []) hdigits (by simp) rfl).2
    rwa [List.append_nil] at h
  have hdash : ∀ c, isHex c = true → c ≠ 45 := by
    rintro c hc rfl
    revert hc
    decide
  have hnotDash : ∀ {digits : Text}, HexText digits → ∀ c ∈ digits.head?, decide (c = 45) = false := by
    intro digits hdigits c hc
    exact decide_eq_false (hdash c (hdigits.2 c (List.mem_of_mem_head? hc)))
  cases sampled with
  | some text =>
    obtain ⟨c, hc, rfl⟩ := hsampled text rfl
    cases parent with
    | some digits =>
      have hdigits := hparent digits rfl
      have h := (matchThen_opt (p := (· = 45)) (c := 45) (by decide) (hend digits hdigits.2)).1
      have h2 := (matchThen_opt (p := (· ∈ ofText "01d")) (c := c) (by simpa using hc) h).2
      exact (matchThen_opt (p := (· = 45)) (c := 45) (by decide) h2).1
    | none =>
      have h := (matchThen_opt_absent (p := (· = 45)) (b := []) (by simp)
        (hend [] (by simp))).1
      have h2 := (matchThen_opt (p := (· ∈ ofText "01d")) (c := c) (by simpa using hc) h).2
      exact (matchThen_opt (p := (· = 45)) (c := 45) (by decide) h2).1
  | none =>
    cases parent with
    | some digits =>
      have hdigits := hparent digits rfl
      have h := (matchThen_opt_absent (p := (· = 45)) (hnotDash hdigits)
        (hend digits hdigits.2)).1
      have h2 := (matchThen_opt_absent (p := (· ∈ ofText "01d"))
        (by simpa using htold rfl digits rfl) h).2
      exact (matchThen_opt (p := (· = 45)) (c := 45) (by decide) h2).1
    | none =>
      have h := (matchThen_opt_absent (p := (· = 45)) (b := []) (by simp)
        (hend [] (by simp))).1
      have h2 := (matchThen_opt_absent (p := (· ∈ ofText "01d")) (b := []) (by simp) h).2
      exact (matchThen_opt_absent (p := (· = 45)) (b := []) (by simp) h2).1

theorem match_b3Single (ht : traceId ≠ []) (hs : spanId.length = 8) {tail : Text}
    {captures : List Text}
    (htail : matchAll [Item.opt (· = 45), (Item.opt (· ∈ ofText "01d")).capture,
      Item.opt (· = 45), (Item.star isHex).capture] tail = some captures) :
    matchAll b3SinglePattern (toHex traceId ++ [45] ++ toHex spanId ++ tail)
      = some (toHex traceId :: toHex spanId :: captures) := by
  have hsize : (toHex spanId).length = 16 := by simp [hs]
  have hspan := matchThen_times (p := isHex) (a := toHex spanId)
    (fun c hc => isHex_of_mem_toHex hc) htail
  rw [hsize] at hspan
  have h := match_next_hex (show isHex 45 = false by decide) (hexText_toHex ht) hspan
  unfold b3SinglePattern
  simpa using h

theorem b3Sampled_cases (ctx : Context) :
    (∀ text ∈ b3Sampled ctx, ∃ c ∈ ofText "01d", text = [c])
      ∧ (b3SampledOf ((b3Sampled ctx).getD [])).1 = ctx.b3Decision := by
  unfold b3Sampled Context.b3Decision
  by_cases hflag : ctx.flags = some (.one (ofText "1"))
  · rw [if_pos hflag, if_pos hflag]
    refine ⟨?_, by decide⟩
    rintro text ⟨rfl⟩
    exact ⟨100, by decide, by decide⟩
  · rw [if_neg hflag, if_neg hflag]
    rcases ctx.shouldSample with _ | _ | _
    · exact ⟨fun _ htext => (nomatch htext), by decide⟩
    · refine ⟨?_, by decide⟩
      rintro text ⟨rfl⟩
      exact ⟨48, by decide, by decide⟩
    · refine ⟨?_, by decide⟩
      rintro text ⟨rfl⟩
      exact ⟨49, by decide, by decide⟩

theorem b3Context_of_single {header : Text} {single : B3Context}
    (h : readSingleHeader [("b3", .one header)] = some single) :
    b3Context [("b3", .one header)]
      = .ok { traceId := single.ids.1.map fromHex
              spanId := if single.ids.1.isSome then single.ids.2.1.map fromHex else none
              parentId := if single.ids.1.isSome then single.ids.2.2.map fromHex else none
              reuseSpanId := true, shouldSample := single.shouldSample, flags := single.flags
              singleHeader := true } := by
  have hmulti : readMultiHeader [("b3", .one header)] = .ok {} := by
    simp [readMultiHeader, Headers.get, List.lookup_cons, idHeader, sampledFlag, bind, Except.bind]
  unfold b3Context
  rw [h, hmulti]
  obtain ⟨traceId, spanId, parentId, sample, invalid, flags⟩ := single
  cases invalid with
  | true => simp [bind, Except.bind, B3Context.ids]
  | false => cases traceId <;> simp [bind, Except.bind, B3Context.ids]

theorem readSingleHeader_eq (ht : traceId.length = 16 ∨ traceId.length = 8)
    (hs : spanId.length = 8) {tail sampled parent : Text}
    (htail : matchAll [Item.opt (· = 45), (Item.opt (· ∈ ofText "01d")).capture,
      Item.opt (· = 45), (Item.star isHex).capture] tail = some [sampled, parent]) :
    readSingleHeader [("b3", .one (toHex traceId ++ [45] ++ toHex spanId ++ tail))]
      = some (if parent = [] ∨ parent.length = 16 then
          { traceId := some (toHex traceId), spanId := some (toHex spanId)
            parentId := if parent = [] then none else some parent
            shouldSample := (b3SampledOf sampled).1, flags := (b3SampledOf sampled).2 }
        else
          { traceId := some (toHex traceId), spanId := some (toHex spanId)
            parentId := some parent, invalidId := true }) := by
  have htne : traceId ≠ [] := by
    rintro rfl
    rcases ht with ht | ht <;> cases ht
  have hlong : ∀ s : Text, s.length = 1 →
      toHex traceId ++ [45] ++ toHex spanId ++ tail ≠ s := by
    intro s hlen heq
    have hsize := congrArg List.length heq
    simp only [List.length_append, length_toHex, hlen] at hsize
    omega
  have hsizes : (toHex traceId).length = 16 ∨ (toHex traceId).length = 32 := by
    rw [length_toHex]
    omega
  have hget : Headers.get [("b3", .one (toHex traceId ++ [45] ++ toHex spanId ++ tail))] "b3"
      = some (.one (toHex traceId ++ [45] ++ toHex spanId ++ tail)) := by simp [Headers.get]
  simp only [readSingleHeader, b3SingleHeader, hget, Option.map_some]
  rw [if_neg, match_b3Single htne hs htail]
  · simp only [hsizes, true_and]
  · simp only [not_or]
    exact ⟨hlong _ (by decide), hlong _ (by decide), hlong _ (by decide)⟩

theorem b3Context_single (ht : traceId.length = 16 ∨ traceId.length = 8) (hs : spanId.length = 8)
    (ctx : Context) (hp : ∀ id ∈ ctx.parentId, id.length = 8)
    (htold : ParentTold (b3Sampled ctx) (ctx.parentId.map toHex)) :
    ∃ found, b3Context [("b3", .one (toHex traceId ++ [45] ++ toHex spanId
        ++ b3Tail (b3Sampled ctx) (ctx.parentId.map toHex)))] = .ok found
      ∧ found.traceId = some traceId ∧ found.spanId = some spanId
      ∧ found.parentId = ctx.parentId ∧ found.shouldSample = ctx.b3Decision := by
  obtain ⟨hsampled, hdecision⟩ := b3Sampled_cases ctx
  have hhex : ∀ digits ∈ ctx.parentId.map toHex, HexText digits := by
    intro digits hdigits
    obtain ⟨id, hid, rfl⟩ := Option.mem_map.mp hdigits
    exact hexText_toHex (List.ne_nil_of_length_eq_add_one (hp id hid))
  have hread := readSingleHeader_eq ht hs (match_b3Tail hsampled hhex htold)
  have hparent : ((ctx.parentId.map toHex).getD [] = []
      ∨ ((ctx.parentId.map toHex).getD []).length = 16)
      ∧ (if (ctx.parentId.map toHex).getD [] = [] then none
        else some ((ctx.parentId.map toHex).getD [])) = ctx.parentId.map toHex := by
    cases hid : ctx.parentId with
    | none => simp
    | some id =>
      have hlen := hp id hid
      have hne : toHex id ≠ [] := toHex_ne_nil (List.ne_nil_of_length_eq_add_one hlen)
      simp [hlen, hne]
  rw [if_pos hparent.1, hparent.2] at hread
  refine ⟨_, b3Context_of_single hread, ?_⟩
  simp only [B3Context.ids, Bool.false_eq_true, if_false, Option.map_some, fromHex_toHex,
    Option.isSome_some, if_true, hdecision, Option.map_map, true_and, and_true]
  cases ctx.parentId <;> simp [fromHex_toHex]

end

end KongGateway.Kong.Tracing

import KongGateway.GatewayCore.Proxy
import KongGateway.Lib.MultiMap

/-!
# Proxy — the headers of a forwarded request and response

The model of the header functions of `main.rs`. A header map is the list
of pairs its iterator yields, the values of one name in order; only the
order of the values of one name has a meaning. `HeaderValue::from_str` is
the parameter `fromStr`.

Both directions rebuild the map with `insert`, which replaces what is
there: of the values of a repeated name the last one is left.
-/

namespace KongGateway.GatewayCore

open RustStd MultiMap

/-! ## Header names -/

/-- The characters of a header name. -/
def isHeaderNameChar (c : Char) : Bool :=
  c.isAlphanum || "!#$%&'*+-.^_`|~".toList.contains c

/-- `HeaderName::from_bytes`: the name in lower case. -/
def headerNameFromBytes (name : String) : Option String :=
  if name ≠ "" ∧ name.utf8ByteSize ≤ 65535 ∧ name.toList.all isHeaderNameChar then
    some (toAsciiLowercase name)
  else none

def isHopByHopHeader (headerName : String) : Bool :=
  ["connection", "keep-alive", "proxy-authenticate", "proxy-authorization", "te", "trailer",
    "transfer-encoding", "upgrade"].contains (toAsciiLowercase headerName)

/-- The test of `forwardable_headers`. -/
def isForwardable (headerName : String) : Bool :=
  !(isHopByHopHeader headerName || toAsciiLowercase headerName == "host")

def forwardableHeaders (headers : HeaderMap) : HeaderMap :=
  headers.filter fun entry => isForwardable entry.1

/-! ## The transform -/

section Transform

variable (fromStr : String → Option String)

/-- The header an entry of `add_headers` or `set_headers` stands for, if
it has a valid name and value. -/
def headerOf (entry : String × String) : Option (String × String) :=
  match headerNameFromBytes entry.1, fromStr entry.2 with
  | some name, some value => some (name, value)
  | _, _ => none

/-- `headers.remove(name)`; a text that is no header name removes
nothing. -/
def removeHeader (headers : HeaderMap) (name : String) : HeaderMap :=
  match headerNameFromBytes name with
  | some name => MultiMap.remove headers name
  | none => headers

def addHeader (headers : HeaderMap) (entry : String × String) : HeaderMap :=
  match headerOf fromStr entry with
  | some (name, value) =>
    if !MultiMap.contains headers name then MultiMap.append headers name value else headers
  | none => headers

def setHeader (headers : HeaderMap) (entry : String × String) : HeaderMap :=
  match headerOf fromStr entry with
  | some (name, value) => MultiMap.insert headers name value
  | none => headers

def applyHeaderTransform (headers : HeaderMap) (addHeaders setHeaders : List (String × String))
    (removeHeaders : List String) : HeaderMap :=
  let headers := removeHeaders.foldl removeHeader headers
  let headers := addHeaders.foldl (addHeader fromStr) headers
  setHeaders.foldl (setHeader fromStr) headers

/-- The pairs of `into_iter` that come with a name are the first of each
name. -/
def transformRequestHeaders (headers : HeaderMap) (transform : RequestTransform) :
    List (String × String) :=
  let transformed := insertAll (forwardableHeaders headers) []
  firsts (applyHeaderTransform fromStr transformed transform.addHeaders transform.setHeaders
    transform.removeHeaders)

def transformResponseHeaders (headers : HeaderMap) (transform : ResponseTransform) : HeaderMap :=
  let transformed := insertAll headers []
  applyHeaderTransform fromStr transformed transform.addHeaders transform.setHeaders
    transform.removeHeaders

end Transform

/-! ## What the transform does to one name -/

variable {fromStr : String → Option String}

theorem getAll_removeHeaders (headers : HeaderMap) (names : List String) (name : String) :
    getAll (names.foldl removeHeader headers) name
      = if ∃ text ∈ names, headerNameFromBytes text = some name then [] else getAll headers name := by
  induction names generalizing headers with
  | nil => simp
  | cons text rest ih =>
    have hhead : getAll (removeHeader headers text) name
        = if headerNameFromBytes text = some name then [] else getAll headers name := by
      cases htext : headerNameFromBytes text with
      | none => simp [removeHeader, htext]
      | some removed => simp [removeHeader, htext, getAll_remove, eq_comm]
    rw [List.foldl_cons, ih, hhead]
    by_cases hhead' : headerNameFromBytes text = some name
    · simp [hhead']
    · simp [hhead']

/-- The first entry of `add_headers` for a name counts, if the name is
not there yet. -/
theorem getAll_addHeaders (headers : HeaderMap) (entries : List (String × String))
    (name : String) :
    getAll (entries.foldl (addHeader fromStr) headers) name
      = if getAll headers name = [] then
          (getAll (entries.filterMap (headerOf fromStr)) name).head?.toList
        else getAll headers name := by
  induction entries generalizing headers with
  | nil =>
    by_cases hvalues : getAll headers name = []
    · simp [hvalues]
    · simp [hvalues]
  | cons entry rest ih =>
    rw [List.foldl_cons, ih]
    cases hheader : headerOf fromStr entry with
    | none => simp [addHeader, hheader]
    | some header =>
      obtain ⟨added, value⟩ := header
      rw [List.filterMap_cons_some hheader, getAll_cons]
      by_cases hname : added = name
      · subst hname
        by_cases hvalues : getAll headers added = []
        · have habsent : MultiMap.contains headers added = false := by
            rw [← Bool.not_eq_true, contains_eq_true_iff, not_not]
            exact hvalues
          simp [addHeader, hheader, habsent, getAll_append, hvalues]
        · have hpresent : MultiMap.contains headers added = true :=
            contains_eq_true_iff.mpr hvalues
          simp [addHeader, hheader, hpresent, hvalues]
      · -- an entry for another name
        have hsame : getAll (addHeader fromStr headers entry) name = getAll headers name := by
          simp only [addHeader, hheader]
          split
          · rw [getAll_append, if_neg (Ne.symm hname)]
          · rfl
        rw [hsame, if_neg hname]

/-- The last entry of `set_headers` for a name counts. -/
theorem getAll_setHeaders (headers : HeaderMap) (entries : List (String × String))
    (name : String) :
    getAll (entries.foldl (setHeader fromStr) headers) name
      = (getAll (entries.filterMap (headerOf fromStr)) name).getLast?.elim (getAll headers name)
        fun value => [value] := by
  have hfold : entries.foldl (setHeader fromStr) headers
      = insertAll (entries.filterMap (headerOf fromStr)) headers := by
    rw [insertAll, List.foldl_filterMap]
    congr 1
    funext headers entry
    cases hheader : headerOf fromStr entry <;> simp [setHeader, hheader]
  rw [hfold, getAll_insertAll]

/-- **The transform, name by name.** -/
theorem getAll_applyHeaderTransform (headers : HeaderMap)
    (addHeaders setHeaders : List (String × String)) (removeHeaders : List String)
    (name : String) :
    getAll (applyHeaderTransform fromStr headers addHeaders setHeaders removeHeaders) name
      = (getAll (setHeaders.filterMap (headerOf fromStr)) name).getLast?.elim
        (if getAll (removeHeaders.foldl removeHeader headers) name = [] then
          (getAll (addHeaders.filterMap (headerOf fromStr)) name).head?.toList
        else getAll (removeHeaders.foldl removeHeader headers) name)
        fun value => [value] := by
  rw [applyHeaderTransform, getAll_setHeaders, getAll_addHeaders]

/-! ## Repeated names -/

/-- The part of a transform that is about headers is empty. -/
def RequestTransform.LeavesHeaders (transform : RequestTransform) : Prop :=
  transform.addHeaders = [] ∧ transform.setHeaders = [] ∧ transform.removeHeaders = []

def ResponseTransform.LeavesHeaders (transform : ResponseTransform) : Prop :=
  transform.addHeaders = [] ∧ transform.setHeaders = [] ∧ transform.removeHeaders = []

theorem getAll_transformRequestHeaders {transform : RequestTransform}
    (h : transform.LeavesHeaders) (headers : HeaderMap) {name : String}
    (hname : isForwardable name = true) :
    getAll (transformRequestHeaders fromStr headers transform) name
      = (getAll headers name).getLast?.toList := by
  obtain ⟨hadd, hset, hremove⟩ := h
  rw [transformRequestHeaders, hadd, hset, hremove, getAll_firsts, applyHeaderTransform]
  simp only [List.foldl_nil]
  rw [getAll_insertAll_nil, forwardableHeaders, getAll_filter_key, if_pos hname]
  cases (getAll headers name).getLast? <;> rfl

theorem getAll_transformResponseHeaders {transform : ResponseTransform}
    (h : transform.LeavesHeaders) (headers : HeaderMap) (name : String) :
    getAll (transformResponseHeaders fromStr headers transform) name
      = (getAll headers name).getLast?.toList := by
  obtain ⟨hadd, hset, hremove⟩ := h
  rw [transformResponseHeaders, hadd, hset, hremove, applyHeaderTransform]
  simp only [List.foldl_nil]
  rw [getAll_insertAll_nil]

private theorem getLast?_toList_eq_iff {α : Type*} {l : List α} :
    l.getLast?.toList = l ↔ l.length ≤ 1 := by
  constructor
  · intro h
    rw [← h]
    cases l.getLast? <;> simp
  · intro h
    match l, h with
    | [], _ => rfl
    | [a], _ => rfl

/-- **Header values are kept if and only if no name is repeated**: in the
request no name that is forwarded, in the response no name at all. -/
theorem header_values_kept_iff (fromStr : String → Option String)
    {request : RequestTransform} {response : ResponseTransform}
    (hrequest : request.LeavesHeaders) (hresponse : response.LeavesHeaders)
    (headers upstreamHeaders : HeaderMap) :
    ((∀ name, isForwardable name = true →
        getAll (transformRequestHeaders fromStr headers request) name = getAll headers name)
      ∧ ∀ name, getAll (transformResponseHeaders fromStr upstreamHeaders response) name
        = getAll upstreamHeaders name)
    ↔ (∀ name, isForwardable name = true → (getAll headers name).length ≤ 1)
      ∧ ∀ name, (getAll upstreamHeaders name).length ≤ 1 := by
  refine and_congr (forall_congr' fun name => imp_congr_right fun hname => ?_)
    (forall_congr' fun name => ?_)
  · rw [getAll_transformRequestHeaders hrequest headers hname, getLast?_toList_eq_iff]
  · rw [getAll_transformResponseHeaders hresponse upstreamHeaders name, getLast?_toList_eq_iff]

/-! ### Two cookies -/

/-- A single value of each name arrives. -/
theorem single_values_arrive :
    getAll (transformRequestHeaders headerToStr [("accept", "text/html"), ("cookie", "a=1")] {})
      "cookie" = ["a=1"] := by
  have hone : ∀ name, (getAll [("accept", "text/html"), ("cookie", "a=1")] name).length ≤ 1 := by
    intro name
    simp only [getAll_cons, getAll_nil]
    split_ifs with haccept hcookie
    · rw [← haccept] at hcookie
      exact absurd hcookie (by decide)
    · simp
    · simp
    · simp
  have hrequest : RequestTransform.LeavesHeaders {} := ⟨rfl, rfl, rfl⟩
  have hresponse : ResponseTransform.LeavesHeaders {} := ⟨rfl, rfl, rfl⟩
  exact ((header_values_kept_iff headerToStr hrequest hresponse
    [("accept", "text/html"), ("cookie", "a=1")] []).mpr
    ⟨fun name _ => hone name, by simp⟩).1 "cookie" (by decide)

/-- Of two cookies of the upstream's response only the second reaches the
client, and of two `cookie` headers of a request only the second the
upstream. -/
theorem first_cookie_lost :
    getAll (transformRequestHeaders headerToStr [("cookie", "a=1"), ("cookie", "b=2")] {}) "cookie"
      ≠ getAll [("cookie", "a=1"), ("cookie", "b=2")] "cookie"
    ∧ getAll (transformResponseHeaders headerToStr
        [("set-cookie", "a=1"), ("set-cookie", "b=2")] {}) "set-cookie" = ["b=2"] := by
  decide

/-!
## Proxy — the transform and the order of its maps

`add_headers` and `set_headers` are hash maps from texts to texts; their
iteration order differs from run to run. Keys that differ in case only
are two entries of the map and one header: the first one added stays,
the last one set stays.
-/

/-- No two valid entries of `set_headers` give one header different
values, and no two of `add_headers` do for a header that is added: one
that `set_headers` leaves alone and that is not there after the
removals. -/
def OrderFree (fromStr : String → Option String) (headers : HeaderMap)
    (addHeaders setHeaders : List (String × String)) (removeHeaders : List String) : Prop :=
  (∀ name, Agrees (setHeaders.filterMap (headerOf fromStr)) name)
  ∧ ∀ name, getAll (setHeaders.filterMap (headerOf fromStr)) name = [] →
    getAll (removeHeaders.foldl removeHeader headers) name = [] →
    Agrees (addHeaders.filterMap (headerOf fromStr)) name

variable {headers : HeaderMap}
  {addHeaders setHeaders : List (String × String)} {removeHeaders : List String}

theorem getAll_set_last (headers : HeaderMap) (addHeaders : List (String × String))
    (removeHeaders : List String) {entry : String × String} {name value : String}
    (hentry : entry ∈ setHeaders) (hheader : headerOf fromStr entry = some (name, value)) :
    ∃ setHeaders', setHeaders'.Perm setHeaders
      ∧ getAll (applyHeaderTransform fromStr headers addHeaders setHeaders' removeHeaders) name
        = [value] := by
  refine ⟨setHeaders.erase entry ++ [entry],
    (List.perm_append_singleton _ _).trans (List.perm_cons_erase hentry).symm, ?_⟩
  have hlast : (getAll ((setHeaders.erase entry ++ [entry]).filterMap (headerOf fromStr))
      name).getLast? = some value := by
    rw [List.filterMap_append, List.filterMap_cons_some hheader, List.filterMap_nil]
    have happend := getAll_append ((setHeaders.erase entry).filterMap (headerOf fromStr))
      name value name
    rw [MultiMap.append, if_pos rfl] at happend
    rw [happend]
    simp
  rw [getAll_applyHeaderTransform, hlast, Option.elim_some]

theorem getAll_add_first {entry : String × String} {name value : String}
    (hentry : entry ∈ addHeaders) (hheader : headerOf fromStr entry = some (name, value))
    (hset : getAll (setHeaders.filterMap (headerOf fromStr)) name = [])
    (habsent : getAll (removeHeaders.foldl removeHeader headers) name = []) :
    ∃ addHeaders', addHeaders'.Perm addHeaders
      ∧ getAll (applyHeaderTransform fromStr headers addHeaders' setHeaders removeHeaders) name
        = [value] := by
  refine ⟨entry :: addHeaders.erase entry, (List.perm_cons_erase hentry).symm, ?_⟩
  rw [getAll_applyHeaderTransform, hset, habsent, List.filterMap_cons_some hheader, getAll_cons]
  simp

/-- **The transform is independent of the orders of its maps, exactly**
when no header is given two values that count. -/
theorem transform_order_free_iff (fromStr : String → Option String) (headers : HeaderMap)
    (addHeaders setHeaders : List (String × String)) (removeHeaders : List String) :
    (∀ addHeaders' setHeaders', addHeaders'.Perm addHeaders → setHeaders'.Perm setHeaders →
      Same (applyHeaderTransform fromStr headers addHeaders' setHeaders' removeHeaders)
        (applyHeaderTransform fromStr headers addHeaders setHeaders removeHeaders))
    ↔ OrderFree fromStr headers addHeaders setHeaders removeHeaders := by
  constructor
  · intro h
    refine ⟨fun name value hvalue value' hvalue' => ?_,
      fun name hset habsent value hvalue value' hvalue' => ?_⟩
    · -- two orders, each with one of the two entries set last
      obtain ⟨entry, hentry, hheader⟩ := List.mem_filterMap.mp (mem_getAll.mp hvalue)
      obtain ⟨entry', hentry', hheader'⟩ := List.mem_filterMap.mp (mem_getAll.mp hvalue')
      obtain ⟨order, hperm, hlast⟩ :=
        getAll_set_last headers addHeaders removeHeaders hentry hheader
      obtain ⟨order', hperm', hlast'⟩ :=
        getAll_set_last headers addHeaders removeHeaders hentry' hheader'
      have hsame := (h addHeaders order (.refl _) hperm name).trans
        (h addHeaders order' (.refl _) hperm' name).symm
      rw [hlast, hlast'] at hsame
      exact List.singleton_injective hsame
    · -- two orders, each with one of the two entries added first
      obtain ⟨entry, hentry, hheader⟩ := List.mem_filterMap.mp (mem_getAll.mp hvalue)
      obtain ⟨entry', hentry', hheader'⟩ := List.mem_filterMap.mp (mem_getAll.mp hvalue')
      obtain ⟨order, hperm, hfirst⟩ := getAll_add_first hentry hheader hset habsent
      obtain ⟨order', hperm', hfirst'⟩ := getAll_add_first hentry' hheader' hset habsent
      have hsame := (h order setHeaders hperm (.refl _) name).trans
        (h order' setHeaders hperm' (.refl _) name).symm
      rw [hfirst, hfirst'] at hsame
      exact List.singleton_injective hsame
  · rintro ⟨hsets, hadds⟩ addHeaders' setHeaders' hadd hset name
    have hsame : getAll (setHeaders'.filterMap (headerOf fromStr)) name
        = getAll (setHeaders.filterMap (headerOf fromStr)) name :=
      getAll_eq_of_perm (hset.filterMap _) (hsets name)
    rw [getAll_applyHeaderTransform, getAll_applyHeaderTransform, hsame]
    cases hlast : (getAll (setHeaders.filterMap (headerOf fromStr)) name).getLast? with
    | some value => rfl
    | none =>
      -- the header is not set, so the added entries count if it is absent
      have hnone := List.getLast?_eq_none_iff.mp hlast
      by_cases habsent : getAll (removeHeaders.foldl removeHeader headers) name = []
      · rw [getAll_eq_of_perm (hadd.filterMap _) (hadds name hnone habsent)]
      · simp [habsent]

/-! ### One header, spelled twice -/

def spelledTwice : List (String × String) := [("X-Env", "blue"), ("x-env", "green")]

/-- The keys of the map differ, and the header sent depends on which of
them comes first, both when it is added and when it is set. -/
theorem spelling_order_decides :
    (spelledTwice.map Prod.fst).Nodup ∧ spelledTwice.reverse.Perm spelledTwice
      ∧ getAll (applyHeaderTransform headerToStr [] spelledTwice [] []) "x-env" = ["blue"]
      ∧ getAll (applyHeaderTransform headerToStr [] spelledTwice.reverse [] []) "x-env" = ["green"]
      ∧ getAll (applyHeaderTransform headerToStr [] [] spelledTwice []) "x-env" = ["green"]
      ∧ getAll (applyHeaderTransform headerToStr [] [] spelledTwice.reverse []) "x-env"
        = ["blue"] :=
  ⟨by decide, List.reverse_perm _, by decide, by decide, by decide, by decide⟩

end KongGateway.GatewayCore

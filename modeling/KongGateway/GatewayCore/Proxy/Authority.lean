import KongGateway.GatewayCore.Proxy

/-!
# Proxy — the authority of the upstream URL

The upstream URL is the text `http://`, the address of the selected
target and the rewritten path and query, one behind the other. Nothing
checks where the address ends and the path begins: the two are told
apart only by the first `/`, `?` or `#`. A rewrite that strips a prefix
lets the client choose the text that follows the address.
-/

namespace KongGateway.GatewayCore

open RustStd

def isDelimiter (c : Char) : Bool := c == '/' || c == '?' || c == '#'

/-- The text between `http://` and the first delimiter, or the end. -/
def authority (url : String) : String :=
  String.ofList ((url.toList.drop "http://".length).takeWhile fun c => !isDelimiter c)

/-- An address without a delimiter in it. -/
def plainAddress (address : String) : Bool := address.toList.all fun c => !isDelimiter c

/-- Text that ends the authority in front of it: it is empty or begins
with a delimiter. -/
def EndsAuthority (text : List Char) : Prop := text.head?.all isDelimiter = true

instance (text : List Char) : Decidable (EndsAuthority text) :=
  inferInstanceAs (Decidable (text.head?.all isDelimiter = true))

/-- Where the path sent upstream is the client's own, it is not the
asterisk; where a prefix is replaced, the replacement begins with a
delimiter, or is empty and what the client sent behind the prefix does. -/
def KeepsAuthority (route : Route) (uri : RequestUri) : Prop :=
  match route.transform.request.pathPrefixRewrite with
  | none => uri.originalPathAndQuery ≠ "*"
  | some replacement =>
    if replacement.toList = [] then
      EndsAuthority
        (uri.originalPathAndQuery.toList.drop route.pathPrefix.toList.length)
    else EndsAuthority replacement.toList

instance (route : Route) (uri : RequestUri) : Decidable (KeepsAuthority route uri) :=
  match h : route.transform.request.pathPrefixRewrite with
  | none => decidable_of_iff (uri.originalPathAndQuery ≠ "*") (by simp [KeepsAuthority, h])
  | some replacement =>
    decidable_of_iff
      (if replacement.toList = [] then
        EndsAuthority
          (uri.originalPathAndQuery.toList.drop route.pathPrefix.toList.length)
      else EndsAuthority replacement.toList)
      (by simp [KeepsAuthority, h])

/-! ## Where the authority ends -/

private theorem takeWhile_append_eq_iff {α : Type*} {p : α → Bool} {l rest : List α} :
    (l ++ rest).takeWhile p = l
      ↔ (∀ a ∈ l, p a = true) ∧ rest.head?.all (fun a => !p a) = true := by
  induction l with
  | nil =>
    cases rest with
    | nil => simp
    | cons a rest => simp [List.takeWhile_cons]
  | cons a l ih =>
    by_cases ha : p a = true
    · simp [ha, ih]
    · simp [ha]

theorem authority_upstreamUrl_iff {target : UpstreamTarget} {pathAndQuery : String} :
    authority (upstreamUrl target pathAndQuery) = target.address
      ↔ plainAddress target.address = true ∧ EndsAuthority pathAndQuery.toList := by
  have hurl : (upstreamUrl target pathAndQuery).toList.drop "http://".length
      = target.address.toList ++ pathAndQuery.toList := by
    have hlen : "http://".length = 7 := by decide
    simp [upstreamUrl, String.toList_append, hlen]
  have htext : ∀ l : List Char, String.ofList l = target.address ↔ l = target.address.toList := by
    intro l
    constructor
    · intro h
      rw [← h, String.toList_ofList]
    · intro h
      rw [h, String.ofList_toList]
  rw [authority, hurl, htext, takeWhile_append_eq_iff]
  simp [EndsAuthority, plainAddress]

/-- The client's own path and query ends the authority, but for the
asterisk. -/
theorem endsAuthority_original_iff (uri : RequestUri) :
    EndsAuthority uri.originalPathAndQuery.toList ↔ uri.originalPathAndQuery ≠ "*" := by
  obtain ⟨pathAndQuery⟩ := uri
  cases pathAndQuery with
  | none => simp [RequestUri.originalPathAndQuery, RequestUri.path, EndsAuthority]
  | some pq =>
    obtain ⟨rawPath, query, hplain, hform⟩ := pq
    simp only [RequestUri.originalPathAndQuery, PathAndQuery.asStr, PathAndQuery.path]
    rcases hform with rfl | hslash | ⟨rfl, rfl⟩
    · -- an absolute URI without a path
      cases query with
      | none => simp [EndsAuthority, isDelimiter]
      | some query =>
        simp [EndsAuthority, isDelimiter, ← String.toList_inj]
    · obtain ⟨rest, rfl⟩ : ∃ rest, rawPath = '/' :: rest := by
        cases rawPath with
        | nil => cases hslash
        | cons c rest =>
          cases hslash
          exact ⟨rest, rfl⟩
      cases query with
      | none => simp [EndsAuthority, isDelimiter, ← String.toList_inj]
      | some query => simp [EndsAuthority, isDelimiter, ← String.toList_inj]
    · simp [EndsAuthority, isDelimiter]

theorem endsAuthority_rewrite_iff {route : Route} {uri : RequestUri}
    (hstarts : startsWith uri.path route.pathPrefix = true) :
    EndsAuthority (rewritePathAndQuery route uri.path uri.originalPathAndQuery).toList
      ↔ KeepsAuthority route uri := by
  unfold rewritePathAndQuery KeepsAuthority
  cases route.transform.request.pathPrefixRewrite with
  | none => exact endsAuthority_original_iff uri
  | some replacement =>
    simp only [hstarts, Bool.not_true, Bool.false_eq_true, if_false, String.toList_append,
      String.toList_ofList]
    -- an empty replacement leaves the first character to the client
    cases hr : replacement.toList with
    | nil => simp
    | cons c rest => simp [EndsAuthority]

/-- **The request goes to the selected target** if and only if the
address has no delimiter in it and the rewritten path begins with one. -/
theorem upstream_authority_iff (cfg : GatewayConfig) (uri : RequestUri)
    (protocol : Protocol) {route : Route} (target : UpstreamTarget)
    (hroute : matchRoute cfg.routes uri.path protocol = some route) :
    authority (upstreamUrl target
        (rewritePathAndQuery route uri.path uri.originalPathAndQuery)) = target.address
      ↔ plainAddress target.address = true ∧ KeepsAuthority route uri := by
  rw [authority_upstreamUrl_iff, endsAuthority_rewrite_iff (matchRoute_spec hroute).2]

/-! ### A stripped prefix -/

def strippingRoute : Route where
  name := "api"
  pathPrefix := "/api"
  upstream := "svc"
  transform := { request := { pathPrefixRewrite := some "" } }

def strippedTarget : UpstreamTarget where
  id := "a"
  address := "10.0.0.1:8080"

def strippedUpstream : UpstreamConfig where
  name := "svc"
  strategy := .roundRobin
  targets := [strippedTarget]

def strippingConfig : GatewayConfig where
  routes := [strippingRoute]
  upstreams := [strippedUpstream]

/-- A request in origin form, without a query. -/
def slashUri (rest : List Char) (hplain : rest.all (fun c => c != '?' && c != '#') = true) :
    RequestUri where
  pathAndQuery := some {
    rawPath := '/' :: rest
    query := none
    rawPath_plain := by simpa using hplain
    rawPath_form := .inr (.inl rfl) }

/-- The path `/api/users` is sent to the target as `/users`. -/
theorem stripped_users_reaches_target :
    let uri := slashUri "api/users".toList (by decide)
    matchRoute strippingConfig.routes uri.path .http1 = some strippingRoute
      ∧ authority (upstreamUrl strippedTarget
          (rewritePathAndQuery strippingRoute uri.path uri.originalPathAndQuery))
        = strippedTarget.address :=
  ⟨by decide, (upstream_authority_iff strippingConfig (slashUri "api/users".toList (by decide))
    .http1 strippedTarget (by decide)).mpr ⟨by decide, by decide⟩⟩

/-- The path `/api@evil.example/` matches the same route, and the URL
built for it names the host `evil.example`: the address of the selected
target has become the user part of the authority. -/
theorem stripped_at_sign_leaves_target :
    let uri := slashUri "api@evil.example/".toList (by decide)
    strippingConfig.validate = .ok ()
      ∧ matchRoute strippingConfig.routes uri.path .http1 = some strippingRoute
      ∧ (pickTarget (fun _ => 0) strippedUpstream (.new {} {}) 0 "client" 0).1
        = some strippedTarget
      ∧ authority (upstreamUrl strippedTarget
          (rewritePathAndQuery strippingRoute uri.path uri.originalPathAndQuery))
        = "10.0.0.1:8080@evil.example"
      ∧ strippedTarget.address = "10.0.0.1:8080" :=
  ⟨rfl, by decide, by decide, by decide, rfl⟩

end KongGateway.GatewayCore

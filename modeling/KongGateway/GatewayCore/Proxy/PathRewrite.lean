import KongGateway.GatewayCore.Proxy

/-!
# Proxy — the path rewrite and the rest of the target

`rewrite_path_and_query` tests the prefix on `uri.path()` and cuts it
off `path_and_query`. The two begin alike unless the URI is absolute,
has no path and has a query: its path reads as a slash, and the text
that is cut begins with the question mark.
-/

namespace KongGateway.GatewayCore

open RustStd

/-- `rewrite_path_and_query` with the slice in bytes, as the source
takes it; `none` is a panic of the slice. -/
def rewriteSliced (route : Route) (path pathAndQuery : String) : Option String :=
  match route.transform.request.pathPrefixRewrite with
  | none => some pathAndQuery
  | some replacement =>
    if !startsWith path route.pathPrefix then some pathAndQuery
    else
      (sliceFrom pathAndQuery route.pathPrefix.utf8ByteSize).map fun suffix =>
        replacement ++ suffix

namespace RequestUri

/-- `Uri::query`. -/
def query (uri : RequestUri) : Option String :=
  (uri.pathAndQuery.bind PathAndQuery.query).map String.ofList

/-- The query with its question mark, or nothing. -/
def queryPart (uri : RequestUri) : String :=
  match uri.query with
  | some query => "?" ++ query
  | none => ""

/-- An absolute URI such as `http://gw.example?x=1`. -/
def QueryWithoutPath (uri : RequestUri) : Prop :=
  ∃ pq, uri.pathAndQuery = some pq ∧ pq.rawPath = [] ∧ pq.query ≠ none

/-- The path and query is the path and the query, but for a URI without
a path. -/
theorem originalPathAndQuery_eq {uri : RequestUri} (h : ¬ uri.QueryWithoutPath) :
    uri.originalPathAndQuery = uri.path ++ uri.queryPart := by
  obtain ⟨pathAndQuery⟩ := uri
  cases pathAndQuery with
  | none => rfl
  | some pq =>
    obtain ⟨rawPath, query, hplain, hform⟩ := pq
    cases query with
    | none => simp [originalPathAndQuery, PathAndQuery.asStr, path, queryPart, RequestUri.query]
    | some query =>
      have hpath : rawPath ≠ [] := by
        intro hempty
        exact h ⟨_, rfl, hempty, Option.some_ne_none _⟩
      rw [← String.toList_inj]
      simp [originalPathAndQuery, PathAndQuery.asStr, path, PathAndQuery.path, queryPart,
        RequestUri.query, hpath]

/-- Without a path, the path reads as a slash that the text does not
have. -/
theorem originalPathAndQuery_of_queryWithoutPath {uri : RequestUri} (h : uri.QueryWithoutPath) :
    uri.path = "/" ∧ uri.originalPathAndQuery = uri.queryPart
      ∧ ∃ query, uri.queryPart = "?" ++ query := by
  obtain ⟨pathAndQuery⟩ := uri
  obtain ⟨⟨rawPath, query, hplain, hform⟩, rfl, hempty, hquery⟩ := h
  obtain ⟨query, rfl⟩ := Option.ne_none_iff_exists'.mp hquery
  cases hempty
  refine ⟨rfl, ?_, String.ofList query, rfl⟩
  rw [← String.toList_inj]
  simp [originalPathAndQuery, PathAndQuery.asStr, queryPart, RequestUri.query]

end RequestUri

/-! ## The slice -/

/-- A prefix of a slash is cut off a text that begins with a question
mark: the slash takes the question mark with it. -/
theorem sliceFrom_query {pre rest : String} (h : "/" = pre ++ rest) (query : String) :
    (pre = "" ∧ rest = "/" ∧ sliceFrom ("?" ++ query) pre.utf8ByteSize = some ("?" ++ query))
    ∨ (pre = "/" ∧ rest = "" ∧ sliceFrom ("?" ++ query) pre.utf8ByteSize = some query) := by
  have hlist : pre.toList ++ rest.toList = ['/'] := by
    rw [← String.toList_append, ← h]
    rfl
  rcases List.append_eq_singleton_iff.mp hlist with ⟨hpre, hrest⟩ | ⟨hpre, hrest⟩
  · left
    have hpre : pre = "" := String.toList_inj.mp hpre
    have hrest : rest = "/" := String.toList_inj.mp hrest
    subst hpre
    refine ⟨rfl, hrest, ?_⟩
    rw [String.utf8ByteSize_empty]
    simp [sliceFrom, dropBytes]
  · right
    have hpre : pre = "/" := String.toList_inj.mp hpre
    have hrest : rest = "" := String.toList_inj.mp hrest
    subst hpre
    -- a slash and a question mark have one byte each
    have hbyte : "/".utf8ByteSize = "?".utf8ByteSize := by decide
    rw [hbyte]
    exact ⟨rfl, hrest, sliceFrom_append "?" query⟩

theorem rewriteSliced_of_slice {route : Route} {replacement path pathAndQuery suffix : String}
    (hrewrite : route.transform.request.pathPrefixRewrite = some replacement)
    (hstarts : startsWith path route.pathPrefix = true)
    (hslice : sliceFrom pathAndQuery route.pathPrefix.utf8ByteSize = some suffix) :
    rewriteSliced route path pathAndQuery = some (replacement ++ suffix) := by
  simp [rewriteSliced, hrewrite, hstarts, hslice]

/-- Behind a prefix of the path the slice is in bounds, in the text of
every URI, and it leaves what the cut in characters leaves. -/
theorem sliceFrom_original {uri : RequestUri} {pre : String}
    (hstarts : startsWith uri.path pre = true) :
    sliceFrom uri.originalPathAndQuery pre.utf8ByteSize
      = some (String.ofList (uri.originalPathAndQuery.toList.drop pre.toList.length)) := by
  obtain ⟨rest, hpath⟩ := startsWith_iff.mp hstarts
  by_cases h : uri.QueryWithoutPath
  · obtain ⟨hslash, horiginal, query, hquery⟩ :=
      RequestUri.originalPathAndQuery_of_queryWithoutPath h
    rw [horiginal, hquery]
    rcases sliceFrom_query (hslash.symm.trans hpath) query with ⟨rfl, -, hslice⟩ | ⟨rfl, -, hslice⟩
    · rw [hslice]
      simp
    · rw [hslice]
      simp
  · rw [RequestUri.originalPathAndQuery_eq h, hpath, String.append_assoc, sliceFrom_append]
    simp

theorem rewriteSliced_eq (route : Route) (uri : RequestUri) :
    rewriteSliced route uri.path uri.originalPathAndQuery
      = some (rewritePathAndQuery route uri.path uri.originalPathAndQuery) := by
  unfold rewriteSliced rewritePathAndQuery
  cases route.transform.request.pathPrefixRewrite with
  | none => rfl
  | some replacement =>
    by_cases hstarts : startsWith uri.path route.pathPrefix = true
    · simp only [hstarts, Bool.not_true, Bool.false_eq_true, if_false]
      rw [sliceFrom_original hstarts, Option.map_some]
    · simp [hstarts]

/-! ## The rest of the target -/

/-- **The rewrite replaces the prefix and keeps the rest, exactly** when
the URI has a path or no query. The slice is in bounds either way. -/
theorem rewrite_keeps_rest_iff {route : Route} {replacement : String}
    (hrewrite : route.transform.request.pathPrefixRewrite = some replacement)
    {uri : RequestUri} {rest : String} (hpath : uri.path = route.pathPrefix ++ rest) :
    (rewriteSliced route uri.path uri.originalPathAndQuery).isSome = true
    ∧ (rewriteSliced route uri.path uri.originalPathAndQuery
        = some (replacement ++ rest ++ uri.queryPart)
      ↔ ¬ uri.QueryWithoutPath) := by
  have hstarts : startsWith uri.path route.pathPrefix = true := by
    rw [hpath]
    exact startsWith_append _ _
  refine ⟨by rw [rewriteSliced_eq]; rfl, ?_, ?_⟩
  · intro hkept h
    obtain ⟨hslash, horiginal, query, hquery⟩ :=
      RequestUri.originalPathAndQuery_of_queryWithoutPath h
    -- one character is missing, the slash or the question mark
    have hslashLength : "/".length = 1 := by decide
    have hmarkLength : "?".length = 1 := by decide
    have hlength : ∀ suffix : String,
        sliceFrom uri.originalPathAndQuery route.pathPrefix.utf8ByteSize = some suffix →
        suffix.length + 1 = (rest ++ uri.queryPart).length := by
      intro suffix hslice
      rw [horiginal, hquery] at hslice
      rw [hquery]
      rcases sliceFrom_query (hslash.symm.trans hpath) query with
        ⟨-, rfl, hslice'⟩ | ⟨-, rfl, hslice'⟩
      · obtain rfl := Option.some.inj (hslice'.symm.trans hslice)
        rw [String.length_append "/", hslashLength, Nat.add_comm]
      · obtain rfl := Option.some.inj (hslice'.symm.trans hslice)
        rw [String.empty_append, String.length_append, hmarkLength, Nat.add_comm]
    have hslice := sliceFrom_original hstarts
    rw [rewriteSliced_of_slice hrewrite hstarts hslice, String.append_assoc, Option.some.injEq,
      String.append_right_inj] at hkept
    have := hlength _ hslice
    rw [hkept] at this
    omega
  · intro h
    have hslice : sliceFrom uri.originalPathAndQuery route.pathPrefix.utf8ByteSize
        = some (rest ++ uri.queryPart) := by
      rw [RequestUri.originalPathAndQuery_eq h, hpath, String.append_assoc, sliceFrom_append]
    rw [rewriteSliced_of_slice hrewrite hstarts hslice, String.append_assoc]

/-! ### A URI without a path -/

def rewritingRoute : Route where
  name := "root"
  pathPrefix := "/"
  upstream := "svc"
  transform := { request := { pathPrefixRewrite := some "/api" } }

/-- The URI `http://gw.example/users?x=1`. -/
def usersUri : RequestUri where
  pathAndQuery := some {
    rawPath := ['/', 'u', 's', 'e', 'r', 's']
    query := some "x=1".toList
    rawPath_plain := by simp
    rawPath_form := .inr (.inl rfl) }

/-- The URI `http://gw.example?x=1`. -/
def bareUri : RequestUri where
  pathAndQuery := some {
    rawPath := []
    query := some "x=1".toList
    rawPath_plain := by simp
    rawPath_form := .inl rfl }

theorem users_query_kept :
    rewriteSliced rewritingRoute usersUri.path usersUri.originalPathAndQuery
      = some "/apiusers?x=1" := by
  have hpath : ¬ usersUri.QueryWithoutPath := by
    rintro ⟨pq, hpq, hempty, -⟩
    cases hpq
    cases hempty
  exact (rewrite_keeps_rest_iff rfl (show usersUri.path = rewritingRoute.pathPrefix ++ "users" by
    decide)).2.mpr hpath

/-- The query becomes part of the path: `/apix=1` is sent where
`/api?x=1` was asked for. -/
theorem bare_query_joins_path :
    bareUri.path = rewritingRoute.pathPrefix ++ "" ∧ bareUri.query = some "x=1"
      ∧ rewriteSliced rewritingRoute bareUri.path bareUri.originalPathAndQuery = some "/apix=1"
      ∧ rewriteSliced rewritingRoute bareUri.path bareUri.originalPathAndQuery
        ≠ some ("/api" ++ "" ++ bareUri.queryPart) := by
  decide

end KongGateway.GatewayCore

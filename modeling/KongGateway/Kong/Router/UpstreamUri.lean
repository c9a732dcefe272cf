import KongGateway.Kong.Router.Traditional.FindRoute
import KongGateway.Kong.Tools.Uri

/-!
# UpstreamUri — the path that is sent to the service

The request path is normalized, the matched part is cut off, and the
rest is joined with the path of the service. A cut may leave a dot
segment at its start, which `sanitize_uri_postfix` takes away. The
postfix of a regex route is what its group `.*` captured, which ends at
a line feed: there the cut has an end as well, and a dot segment at the
end stays.
-/

namespace KongGateway.Kong.Router

open LuaStd Segments Tools Traditional

/-! ## The source -/

/-- `strip_uri_args`. -/
def stripUriArgs (reqUri : String) : String :=
  String.ofList (normalize
    (match reqUri.toList with
      | [] => []
      | first :: rest => first :: rest.takeWhile (· ≠ '?'))
    true)

/-- `get_upstream_uri_v0`. -/
def getUpstreamUriV0 (stripPath : Bool) (requestPostfix reqUri upstreamBase : List Char) :
    List Char :=
  if upstreamBase.getLast? = some '/' then
    if stripPath then
      if requestPostfix = [] then
        if upstreamBase = ['/'] then ['/']
        else if reqUri.getLast? = some '/' then upstreamBase
        else upstreamBase.dropLast
      else if requestPostfix.head? = some '/' then upstreamBase.dropLast ++ requestPostfix
      else upstreamBase ++ requestPostfix
    else upstreamBase ++ reqUri.tail
  else if stripPath then
    if requestPostfix = [] then
      if 1 < reqUri.length ∧ reqUri.getLast? = some '/' then upstreamBase ++ ['/']
      else upstreamBase
    else if requestPostfix.head? = some '/' then upstreamBase ++ requestPostfix
    else upstreamBase ++ '/' :: requestPostfix
  else if reqUri = ['/'] then upstreamBase
  else upstreamBase ++ reqUri

inductive PathHandling where
  | v0
  | v1
  deriving DecidableEq, Repr

/-- What a matched route and its service say about the path. -/
structure UpstreamConf where
  stripUri : Bool
  pathHandling : PathHandling
  path : Option String

def UpstreamConf.base (conf : UpstreamConf) : List Char := (conf.path.getD "/").toList

/-- The path construction of `find_match`. -/
def joinUpstreamUri (conf : UpstreamConf) (reqUri : List Char) (uriPostfix : Option (List Char)) :
    List Char :=
  let requestPostfix := uriPostfix.getD reqUri.tail
  match conf.pathHandling with
  | .v1 =>
    if conf.stripUri then
      if conf.base.getLast? = some '/' ∧ requestPostfix.head? = some '/' then
        conf.base.dropLast ++ requestPostfix
      else conf.base ++ requestPostfix
    else conf.base ++ reqUri.tail
  | .v0 => getUpstreamUriV0 conf.stripUri requestPostfix reqUri conf.base

/-- The upstream path of a matched route. -/
def upstreamUri (conf : UpstreamConf) (ctx : Ctx) (matches' : Matches) : List Char :=
  joinUpstreamUri conf (ctx.req.uri.getD "").toList
    ((matches'.uri.bind UriMatch.uriPostfix).map String.toList)

/-- `set_upstream_uri` of the expression routers, which know the matched
part of the path. -/
def setUpstreamUri (stripPath : Bool) (matchedPath : Option String) (path : Option String)
    (reqUri : String) : List Char :=
  let requestPrefix := (if stripPath then matchedPath else none).getD "/"
  let requestPostfix := sanitizeUriPostfix (dropChars requestPrefix.length reqUri)
  getUpstreamUriV0 stripPath requestPostfix.toList reqUri.toList (path.getD "/").toList

/-! ## What a match leaves over -/

section LeftOver

variable (lib : MatchLib)

/-- What the first matching path of the list leaves of the request path,
before it is sanitized. -/
def leftOverList (reqUri : String) : List UriT → Option String
  | [] => none
  | .plain value :: rest =>
    if startsWith reqUri value then some (dropChars value.length reqUri)
    else leftOverList reqUri rest
  | .regex _ stripRegex :: rest =>
    match lib.reMatch reqUri stripRegex with
    | .error _ => none
    | .ok (some m) => m.uriPostfix
    | .ok none => leftOverList reqUri rest

def uriLeftOver (r : RouteT) (ctx : Ctx) : Option String :=
  let reqUri := ctx.req.uri.getD ""
  if reqUri = "" then none
  else
    match r.uris.reverse.find? fun uri => uri.value = ctx.hits.uri.getD reqUri with
    | none => leftOverList lib reqUri r.uris
    | some (.plain value) => some (dropChars value.length reqUri)
    | some (.regex value stripRegex) =>
      match lib.reMatch reqUri stripRegex with
      | .error _ => none
      | .ok (some m) => m.uriPostfix
      | .ok none => some (dropChars value.length reqUri)

/-- What the path rule of a route leaves of the request path. -/
def leftOver (r : RouteT) (ctx : Ctx) : Option String :=
  if .uri ∈ r.matchRules then uriLeftOver lib r ctx else none

variable {lib}

theorem matchUriList_leftOver {reqUri : String} {uris : List UriT} {m : UriMatch}
    (h : matchUriList lib reqUri uris = some m) :
    m.uriPostfix = (leftOverList lib reqUri uris).map sanitizeUriPostfix := by
  induction uris with
  | nil => cases h
  | cons uri rest ih =>
    rw [matchUriList] at h
    cases uri with
    | plain value =>
      rw [matchOneUri] at h
      rw [leftOverList]
      by_cases hstarts : startsWith reqUri value = true
      · simp only [hstarts, if_true, Option.some.injEq] at h ⊢
        rw [← h]
        rfl
      · simp only [hstarts] at h ⊢
        exact ih h
    | regex value stripRegex =>
      rw [matchOneUri] at h
      rw [leftOverList]
      cases hmatch : lib.reMatch reqUri stripRegex with
      | error err => simp [hmatch, Except.map] at h
      | ok found =>
        cases found with
        | none =>
          simp only [hmatch, Except.map, Option.map_none] at h
          exact ih h
        | some captured =>
          simp only [hmatch, Except.map, Option.map_some, Option.some.injEq] at h
          rw [← h]
          rfl

theorem matchUri_leftOver {r : RouteT} {ctx : Ctx} {m : UriMatch}
    (h : matchUri lib r ctx = some m) :
    m.uriPostfix = (uriLeftOver lib r ctx).map sanitizeUriPostfix := by
  rw [matchUri] at h
  rw [uriLeftOver]
  split_ifs at h ⊢ with hempty
  cases hfound : r.uris.reverse.find? fun uri => uri.value = ctx.hits.uri.getD (ctx.req.uri.getD "")
    with
  | none =>
    rw [hfound] at h
    exact matchUriList_leftOver h
  | some uri =>
    rw [hfound] at h
    cases uri with
    | plain value =>
      rw [← Option.some.inj h]
      rfl
    | regex value stripRegex =>
      dsimp only at h ⊢
      cases hmatch : lib.reMatch (ctx.req.uri.getD "") stripRegex with
      | error err => simp [hmatch] at h
      | ok found =>
        rw [hmatch] at h
        cases found with
        | none =>
          rw [← Option.some.inj h]
          rfl
        | some captured =>
          rw [← Option.some.inj h]
          rfl

theorem matchRoute_leftOver {r : RouteT} {ctx : Ctx} {m : Matches}
    (h : matchRoute lib r ctx = some m) :
    m.uri.bind UriMatch.uriPostfix = (leftOver lib r ctx).map sanitizeUriPostfix := by
  simp only [matchRoute, bind, Option.bind_eq_some_iff] at h
  obtain ⟨host, -, headers, -, uri, huri, method, -, sni, -, src, -, dst, -, hm⟩ := h
  obtain rfl := Option.some.inj hm
  rw [ruleMatch] at huri
  rw [leftOver]
  split_ifs at huri ⊢ with hrule
  · rw [Option.map_eq_some_iff] at huri
    obtain ⟨found, hfound, rfl⟩ := huri
    exact matchUri_leftOver hfound
  · rw [← Option.some.inj huri]
    rfl

end LeftOver

/-! ## Sanitizing -/

theorem sanitizeUriPostfix_segment {p : String} (h : '/' ∉ p.toList) :
    (sanitizeUriPostfix p).toList = if Dot p.toList then [] else p.toList := by
  have hdot : (p = "." ∨ p = "..") ↔ Dot p.toList := by
    rw [Dot, ← String.toList_inj, ← String.toList_inj]
    rfl
  have hshort : ∀ n text, '/' ∈ text.toList → takeChars n p ≠ text := by
    intro n text hmem heq
    rw [← heq, takeChars, String.toList_ofList] at hmem
    exact h (List.mem_of_mem_take hmem)
  rw [sanitizeUriPostfix]
  by_cases hempty : p = ""
  · subst hempty
    rfl
  · rw [if_neg hempty]
    by_cases hd : p = "." ∨ p = ".."
    · rw [if_pos hd, if_pos (hdot.mp hd)]
      rfl
    · rw [if_neg hd, if_neg (hshort 2 "./" (by decide)), if_neg (hshort 3 "../" (by decide)),
        if_neg (hd ∘ hdot.mpr)]

/-- A postfix with several segments loses the first one if that is a dot
segment. -/
theorem sanitizeUriPostfix_segments {p : String} {first others : List Char}
    (hp : p.toList = first ++ '/' :: others) (hfirst : '/' ∉ first) :
    (sanitizeUriPostfix p).toList = if Dot first then others else p.toList := by
  have hne : ∀ text : String, '/' ∉ text.toList → p ≠ text := by
    intro text hno heq
    rw [← heq, hp] at hno
    exact hno (by simp)
  have htwo : takeChars 2 p = "./" ↔ first = ['.'] := by
    rw [takeChars, ← String.toList_inj, String.toList_ofList, hp]
    rcases first with - | ⟨a, - | ⟨b, tail⟩⟩
    · simp
    · simp
    · simp only [List.mem_cons, not_or] at hfirst
      simp [Ne.symm hfirst.2.1]
  have hthree : takeChars 3 p = "../" ↔ first = ['.', '.'] := by
    rw [takeChars, ← String.toList_inj, String.toList_ofList, hp]
    rcases first with - | ⟨a, - | ⟨b, - | ⟨c, tail⟩⟩⟩
    · simp
    · simp
    · simp
    · simp only [List.mem_cons, not_or] at hfirst
      simp [Ne.symm hfirst.2.2.1]
  rw [sanitizeUriPostfix, if_neg (hne "" (by decide)),
    if_neg (not_or.mpr ⟨hne "." (by decide), hne ".." (by decide)⟩)]
  by_cases hone : first = ['.']
  · rw [if_pos (htwo.mpr hone), if_pos (.inl hone), dropChars, String.toList_ofList, hp, hone]
    rfl
  · rw [if_neg (hone ∘ htwo.mp)]
    by_cases hdots : first = ['.', '.']
    · rw [if_pos (hthree.mpr hdots), if_pos (.inr hdots), dropChars, String.toList_ofList, hp, hdots]
      rfl
    · rw [if_neg (hdots ∘ hthree.mp), if_neg (show ¬ Dot first from not_or.mpr ⟨hone, hdots⟩)]

/-- The postfix goes on after a slash to a dot segment at its end. -/
def EndsInDots (p : List Char) : Prop := ∃ front dots, p = front ++ '/' :: dots ∧ Dot dots

theorem endsInDots_iff {first others : List Char} :
    EndsInDots (first ++ '/' :: others) ↔ EndsBad '/' Dot others := by
  rw [← endsBad_append_sep (l := first)]
  constructor
  · rintro ⟨front, dots, heq, hdots⟩
    exact .inr ⟨front, dots, heq, hdots.not_mem, hdots⟩
  · rintro (⟨hno, -⟩ | ⟨front, dots, heq, -, hdots⟩)
    · exact absurd (by simp) hno
    · exact ⟨front, dots, heq, hdots⟩

/-- A piece of a clean path is clean after it is sanitized, but for a
dot segment at its end. -/
theorem sanitizeUriPostfix_clean {pre post : List Char} {p : String}
    (h : Clean (pre ++ p.toList ++ post)) :
    Clean (sanitizeUriPostfix p).toList ↔ ¬ EndsInDots p.toList := by
  rcases exists_first '/' p.toList with hno | ⟨first, others, hp, hfirst⟩
  · rw [sanitizeUriPostfix_segment hno]
    refine iff_of_true ?_ ?_
    · split
      · exact clean_nil
      · rename_i hdot
        exact (clean_of_not_mem hno).mpr hdot
    · rintro ⟨front, dots, heq, -⟩
      rw [heq] at hno
      exact hno (by simp)
  · have hrest : Clean (others ++ post) := by
      rw [hp, List.append_assoc, List.append_assoc, List.cons_append, ← List.append_assoc] at h
      exact (clean_append_slash.mp h).2
    have hcut : Clean others ↔ ¬ EndsInDots p.toList := by
      rw [hp, endsInDots_iff]
      exact Free.cut hrest
    rw [sanitizeUriPostfix_segments hp hfirst, ← hcut]
    split
    · exact Iff.rfl
    · rename_i hdot
      rw [hp, clean_append_slash, clean_of_not_mem hfirst]
      exact ⟨fun hclean => hclean.2, fun hclean => ⟨hdot, hclean⟩⟩

/-- What is left is one segment when all before the dots was one dot
segment. -/
theorem slash_mem_sanitizeUriPostfix {p : String} {front dots : List Char}
    (hp : p.toList = front ++ '/' :: dots) (hdots : Dot dots) :
    '/' ∈ (sanitizeUriPostfix p).toList ↔ ¬ Dot front := by
  rcases exists_first '/' front with hno | ⟨first, others, rfl, hfirst⟩
  · rw [sanitizeUriPostfix_segments hp hno]
    split
    · rename_i hdot
      exact iff_of_false hdots.not_mem (not_not.mpr hdot)
    · rename_i hdot
      exact iff_of_true (by rw [hp]; simp) hdot
  · rw [List.append_assoc, List.cons_append] at hp
    rw [sanitizeUriPostfix_segments hp hfirst]
    refine iff_of_true ?_ fun hdot => hdot.not_mem (by simp)
    split
    · simp
    · rw [hp]
      simp

/-! ## Joins -/

section Joins

variable {base : List Char}

theorem not_dot_append {s s' : List Char} (hne : s ≠ []) (hs : ¬ Dot s) : ¬ Dot (s ++ s') := by
  rcases s with - | ⟨a, - | ⟨b, tail⟩⟩
  · exact absurd rfl hne
  · rintro (h | h)
    · simp only [List.singleton_append, List.cons.injEq] at h
      exact hs (.inl (by rw [h.1]))
    · simp only [List.singleton_append, List.cons.injEq] at h
      exact hs (.inl (by rw [h.1]))
  · rintro (h | h)
    · simp at h
    · simp only [List.cons_append, List.cons.injEq, List.append_eq_nil_iff] at h
      exact hs (.inr (by rw [h.1, h.2.1, h.2.2.1]))

/-- What is put right behind the last segment of a base is part of that
segment. -/
theorem clean_append_segment (hbase : Clean base) (hne : base ≠ [])
    (hlast : base.getLast? ≠ some '/') {s : List Char} (hs : '/' ∉ s) : Clean (base ++ s) := by
  rcases exists_last '/' base with hno | ⟨init, last, rfl, hlastno⟩
  · rw [clean_of_not_mem (by simp [hno, hs])]
    exact not_dot_append hne ((clean_of_not_mem hno).mp hbase)
  · rw [clean_append_slash] at hbase
    have hlastne : last ≠ [] := by
      rintro rfl
      exact hlast (by simp)
    have hglued : '/' ∉ last ++ s := by simp [hlastno, hs]
    rw [List.append_assoc, List.cons_append, clean_append_slash, clean_of_not_mem hglued]
    exact ⟨hbase.1, not_dot_append hlastne ((clean_of_not_mem hlastno).mp hbase.2)⟩

/-- Behind a base without a slash at its end, a path whose first segment
is good in itself. -/
theorem clean_append_path (hbase : Clean base) (hne : base ≠ [])
    (hlast : base.getLast? ≠ some '/') {path : List Char}
    (hpath : ∀ first others, path = first ++ '/' :: others → '/' ∉ first → ¬ Dot first) :
    Clean (base ++ path) ↔ ('/' ∈ path → Clean path) := by
  rcases exists_first '/' path with hno | ⟨first, others, rfl, hfirst⟩
  · exact iff_of_true (clean_append_segment hbase hne hlast hno) fun h => absurd h hno
  · have hglued := clean_append_segment hbase hne hlast hfirst
    rw [← List.append_assoc, clean_append_slash, clean_append_slash, clean_of_not_mem hfirst]
    constructor
    · rintro ⟨-, hothers⟩ -
      exact ⟨hpath first others rfl hfirst, hothers⟩
    · intro h
      exact ⟨hglued, (h (by simp)).2⟩

theorem exists_dropLast (hbase : Clean base) (hlast : base.getLast? = some '/') :
    ∃ init, base = init ++ ['/'] ∧ base.dropLast = init ∧ Clean init := by
  obtain ⟨init, rfl⟩ := List.getLast?_eq_some_iff.mp hlast
  exact ⟨init, rfl, List.dropLast_concat, (clean_append_slash.mp hbase).1⟩

theorem clean_append_of_slash (hbase : Clean base) (hlast : base.getLast? = some '/')
    {path : List Char} : Clean (base ++ path) ↔ Clean path := by
  obtain ⟨init, rfl, -, hinit⟩ := exists_dropLast hbase hlast
  rw [List.append_assoc, List.singleton_append, clean_append_slash]
  exact ⟨fun h => h.2, fun h => ⟨hinit, h⟩⟩

theorem clean_append_of_head (hbase : Clean base) {path : List Char}
    (hhead : path.head? = some '/') : Clean (base ++ path) ↔ Clean path := by
  obtain ⟨rest, rfl⟩ := List.head?_eq_some_iff.mp hhead
  rw [clean_append_slash, clean_cons_slash]
  exact ⟨fun h => h.2, fun h => ⟨hbase, h⟩⟩

/-- The path handling `v0` puts a slash between the two. -/
theorem getUpstreamUriV0_clean (hbase : Clean base) {stripPath : Bool} {rest : List Char}
    (hrest : Clean rest) (postfix' : List Char) :
    Clean (getUpstreamUriV0 stripPath postfix' ('/' :: rest) base)
      ↔ (stripPath = true → Clean postfix') := by
  rw [getUpstreamUriV0]
  by_cases hlast : base.getLast? = some '/'
  · obtain ⟨init, hinit, hdrop, hclean⟩ := exists_dropLast hbase hlast
    rw [if_pos hlast]
    cases stripPath with
    | false =>
      simp only [Bool.false_eq_true, if_false, List.tail_cons, false_imp_iff, iff_true]
      exact (clean_append_of_slash hbase hlast).mpr hrest
    | true =>
      simp only [if_true, true_imp_iff]
      by_cases hempty : postfix' = []
      · rw [if_pos hempty, hempty]
        refine iff_of_true ?_ clean_nil
        split_ifs
        · simp
        · exact hbase
        · rwa [hdrop]
      · rw [if_neg hempty]
        split_ifs with hhead
        · rw [hdrop]
          exact clean_append_of_head hclean hhead
        · exact clean_append_of_slash hbase hlast
  · rw [if_neg hlast]
    cases stripPath with
    | false =>
      simp only [Bool.false_eq_true, if_false, false_imp_iff, iff_true]
      split_ifs
      · exact hbase
      · exact clean_append_slash.mpr ⟨hbase, hrest⟩
    | true =>
      simp only [if_true, true_imp_iff]
      by_cases hempty : postfix' = []
      · rw [if_pos hempty, hempty]
        refine iff_of_true ?_ clean_nil
        split_ifs
        · exact clean_append_slash.mpr ⟨hbase, clean_nil⟩
        · exact hbase
      · rw [if_neg hempty]
        split_ifs with hhead
        · exact clean_append_of_head hbase hhead
        · rw [clean_append_slash]
          exact ⟨fun h => h.2, fun h => ⟨hbase, h⟩⟩

end Joins

/-- The path handling `v1` puts the postfix right behind the last
segment of the base. -/
def Glues (conf : UpstreamConf) : Prop :=
  conf.pathHandling = .v1 ∧ conf.base ≠ [] ∧ conf.base.getLast? ≠ some '/'

theorem clean_append {base path : List Char} (hbase : Clean base) (hpath : Clean path) :
    Clean (base ++ path) := by
  by_cases hne : base = []
  · rwa [hne]
  · by_cases hlast : base.getLast? = some '/'
    · exact (clean_append_of_slash hbase hlast).mpr hpath
    · exact (clean_append_path hbase hne hlast fun _ _ => hpath.first).mpr fun _ => hpath

/-- The join keeps a dot segment of the postfix unless it glues it to
the base. -/
theorem joinUpstreamUri_clean {conf : UpstreamConf} (hbase : Clean conf.base) {rest : List Char}
    (hrest : Clean rest) {postfix' : List Char}
    (hleft : ∀ first others, postfix' = first ++ '/' :: others → '/' ∉ first → ¬ Dot first) :
    Clean (joinUpstreamUri conf ('/' :: rest) (some postfix'))
      ↔ (conf.stripUri = true → (Glues conf → '/' ∈ postfix') → Clean postfix') := by
  rw [joinUpstreamUri, Glues]
  cases hhandling : conf.pathHandling with
  | v0 => simp [getUpstreamUriV0_clean hbase hrest]
  | v1 =>
    simp only [Option.getD_some, true_and, List.tail_cons]
    cases conf.stripUri with
    | false => simpa using clean_append hbase hrest
    | true =>
      simp only [if_true, true_imp_iff]
      by_cases hlast : conf.base.getLast? = some '/'
      · have hplain : ((conf.base ≠ [] ∧ conf.base.getLast? ≠ some '/' → '/' ∈ postfix') →
            Clean postfix') ↔ Clean postfix' := by simp [hlast]
        rw [hplain]
        by_cases hhead : postfix'.head? = some '/'
        · obtain ⟨init, -, hdrop, hinit⟩ := exists_dropLast hbase hlast
          rw [if_pos ⟨hlast, hhead⟩, hdrop]
          exact clean_append_of_head hinit hhead
        · rw [if_neg (hhead ∘ And.right)]
          exact clean_append_of_slash hbase hlast
      · rw [if_neg (hlast ∘ And.left)]
        by_cases hne : conf.base = []
        · simp [hne]
        · rw [clean_append_path hbase hne hlast hleft]
          simp [hne, hlast]

theorem sanitizeUriPostfix_first {pre post : List Char} {p : String}
    (h : Clean (pre ++ p.toList ++ post)) {first others : List Char}
    (hq : (sanitizeUriPostfix p).toList = first ++ '/' :: others) (hfirst : '/' ∉ first) :
    ¬ Dot first := by
  rcases exists_first '/' p.toList with hno | ⟨start, rest, hp, hstart⟩
  · rw [sanitizeUriPostfix_segment hno] at hq
    split at hq
    · simp at hq
    · rw [hq] at hno
      exact absurd (by simp) hno
  · rw [sanitizeUriPostfix_segments hp hstart] at hq
    split at hq
    · -- the next segment of the piece is a whole segment of the path
      rw [hp, hq] at h
      have hsplit : pre ++ (start ++ '/' :: (first ++ '/' :: others)) ++ post
          = (pre ++ start) ++ '/' :: (first ++ '/' :: (others ++ post)) := by simp
      rw [hsplit, clean_append_slash, clean_append_slash, clean_of_not_mem hfirst] at h
      exact h.2.1
    · rename_i hdot
      rw [hp] at hq
      have heq : start = first := by
        have hsegments := congrArg (split '/') hq
        rw [split_append_sep, split_append_sep, split_of_not_mem hstart, split_of_not_mem hfirst,
          List.singleton_append, List.singleton_append, List.cons.injEq] at hsegments
        exact hsegments.1
      rwa [← heq]

/-! ## Requests -/

/-- The groups of a regex match are pieces of its subject. -/
def CapturesOccur (lib : MatchLib) : Prop :=
  ∀ subject regex m p, lib.reMatch subject regex = .ok (some m) → m.uriPostfix = some p →
    ∃ pre post, subject.toList = pre ++ p.toList ++ post

theorem dropChars_occurs (n : Nat) (s : String) :
    ∃ pre post, s.toList = pre ++ (dropChars n s).toList ++ post := by
  refine ⟨s.toList.take n, [], ?_⟩
  rw [dropChars, String.toList_ofList, List.append_nil, List.take_append_drop]

theorem leftOver_occurs {lib : MatchLib} (hlib : CapturesOccur lib) {r : RouteT} {ctx : Ctx}
    {p : String} (h : leftOver lib r ctx = some p) :
    ∃ pre post, (ctx.req.uri.getD "").toList = pre ++ p.toList ++ post := by
  have hlist : ∀ uris, leftOverList lib (ctx.req.uri.getD "") uris = some p →
      ∃ pre post, (ctx.req.uri.getD "").toList = pre ++ p.toList ++ post := by
    intro uris hleft
    induction uris with
    | nil => cases hleft
    | cons uri rest ih =>
      cases uri with
      | plain value =>
        rw [leftOverList] at hleft
        split at hleft
        · rw [← Option.some.inj hleft]
          exact dropChars_occurs _ _
        · exact ih hleft
      | regex value stripRegex =>
        rw [leftOverList] at hleft
        split at hleft
        · cases hleft
        · rename_i m hmatch
          exact hlib _ _ m p hmatch hleft
        · exact ih hleft
  rw [leftOver] at h
  split at h
  · rw [uriLeftOver] at h
    split at h
    · cases h
    · split at h
      · exact hlist _ h
      · rw [← Option.some.inj h]
        exact dropChars_occurs _ _
      · split at h
        · cases h
        · rename_i m hmatch
          exact hlib _ _ m p hmatch h
        · rw [← Option.some.inj h]
          exact dropChars_occurs _ _
  · cases h

/-- The matched part is stripped, and what is left of the path goes on
after a slash to a dot segment that is cut off there. -/
def Climbs (lib : MatchLib) (r : RouteT) (ctx : Ctx) (conf : UpstreamConf) : Prop :=
  conf.stripUri = true ∧ ∃ p front dots, leftOver lib r ctx = some p
    ∧ p.toList = front ++ '/' :: dots ∧ Dot dots ∧ (Glues conf → ¬ Dot front)

theorem stripUriArgs_clean (rest : List Char) :
    ∃ rest', (stripUriArgs (String.ofList ('/' :: rest))).toList = '/' :: rest' ∧ Clean rest' := by
  rw [stripUriArgs, String.toList_ofList, String.toList_ofList]
  exact normalize_clean _ true

/-- The path sent to the service has no dot segment unless the match
leaves one at its end; the expression routers never leave one. -/
theorem upstream_uri_clean_iff {lib : MatchLib} (hlib : CapturesOccur lib) (r : RouteT)
    (ctx : Ctx) (path : List Char)
    (huri : ctx.req.uri = some (stripUriArgs (String.ofList ('/' :: path)))) {m : Matches}
    (hmatch : matchRoute lib r ctx = some m) (conf : UpstreamConf) (hbase : Clean conf.base) :
    (Clean (upstreamUri conf ctx m) ↔ ¬ Climbs lib r ctx conf)
      ∧ ∀ matchedPath, Clean (setUpstreamUri conf.stripUri matchedPath conf.path
        (stripUriArgs (String.ofList ('/' :: path)))) := by
  obtain ⟨rest, hrest, hclean⟩ := stripUriArgs_clean path
  have hreq : (ctx.req.uri.getD "").toList = '/' :: rest := by
    rw [huri]
    exact hrest
  constructor
  · rw [upstreamUri, matchRoute_leftOver hmatch, hreq]
    cases hleft : leftOver lib r ctx with
    | none =>
      refine iff_of_true ?_ ?_
      · have hjoin := joinUpstreamUri_clean hbase hclean fun _ _ => hclean.first
        exact hjoin.mpr fun _ _ => hclean
      · rintro ⟨-, p, front, dots, hp, -⟩
        rw [hleft] at hp
        cases hp
    | some p =>
      obtain ⟨pre, post, hocc⟩ := leftOver_occurs hlib hleft
      rw [hreq] at hocc
      have hpiece : Clean (pre ++ p.toList ++ post) := by
        rw [← hocc, clean_cons_slash]
        exact hclean
      rw [Option.map_some, Option.map_some,
        joinUpstreamUri_clean hbase hclean fun _ _ => sanitizeUriPostfix_first hpiece,
        sanitizeUriPostfix_clean hpiece, Climbs]
      constructor
      · rintro h ⟨hstrip, p', front, dots, hp, heq, hdots, hglue⟩
        obtain rfl := Option.some.inj (hleft.symm.trans hp)
        refine h hstrip (fun hglues => ?_) ⟨front, dots, heq, hdots⟩
        exact (slash_mem_sanitizeUriPostfix heq hdots).mpr (hglue hglues)
      · rintro h hstrip hglue ⟨front, dots, heq, hdots⟩
        refine h ⟨hstrip, p, front, dots, hleft, heq, hdots, fun hglues => ?_⟩
        exact (slash_mem_sanitizeUriPostfix heq hdots).mp (hglue hglues)
  · intro matchedPath
    rw [setUpstreamUri, hrest]
    refine (getUpstreamUriV0_clean hbase hclean _).mpr fun _ => ?_
    -- the postfix reaches to the end of the path
    obtain ⟨n, hn⟩ : ∃ n, n
        = ((if conf.stripUri = true then matchedPath else none).getD "/").length := ⟨_, rfl⟩
    rw [← hn]
    have hocc : '/' :: rest = ('/' :: rest).take n
        ++ (dropChars n (stripUriArgs (String.ofList ('/' :: path)))).toList ++ [] := by
      rw [dropChars, String.toList_ofList, hrest, List.append_nil, List.take_append_drop]
    have hpiece := hclean
    rw [← clean_cons_slash, hocc] at hpiece
    rw [sanitizeUriPostfix_clean hpiece]
    rintro ⟨front, dots, heq, hdots⟩
    rw [heq, List.append_nil, ← List.append_assoc, clean_append_slash,
      clean_of_not_mem hdots.not_mem] at hpiece
    exact hpiece.2 hdots

/-! ### A line feed in the path -/

/-- The regex `/foo/` with its group: the group ends before a line
feed. -/
def fooLib : MatchLib :=
  { plainLib with
    reMatch := fun subject regex =>
      if regex = "(*LIMIT_MATCH=10000)/foo/(?<uri_postfix>.*)" ∧ startsWith subject "/foo/" then
        let captured := String.ofList ((subject.toList.drop 5).takeWhile (· ≠ '\n'))
        .ok (some ⟨some captured, [some captured], [("uri_postfix", some captured)]⟩)
      else .ok none }

theorem fooLib_occurs : CapturesOccur fooLib := by
  intro subject regex m p hmatch hp
  simp only [fooLib] at hmatch
  split at hmatch
  · obtain rfl := Option.some.inj (Except.ok.inj hmatch)
    obtain rfl := Option.some.inj hp
    refine ⟨subject.toList.take 5, (subject.toList.drop 5).dropWhile (· ≠ '\n'), ?_⟩
    rw [String.toList_ofList, List.append_assoc, List.takeWhile_append_dropWhile,
      List.take_append_drop]
  · cases hmatch

/-- The route with the path `~/foo/`. -/
def fooRoute : RouteT where
  route := { paths := some ["~/foo/"] }
  matchRules := {.uri}
  submatchWeight := 1
  maxUriLength := 0
  hosts := []
  headers := []
  uris := [marshallPath "~/foo/"]
  methods := []
  sources := []
  destinations := []
  snis := []

/-- A request whose path the index found the regex for. -/
def fooCtx (reqUri : String) : Ctx := ⟨{ uri := some (stripUriArgs reqUri) }, { uri := some "/foo/" }⟩

def stripConf : UpstreamConf := ⟨true, .v0, some "/private/files"⟩

/-- The decoded line feed cuts the segment `..` and the rest apart. -/
theorem line_feed_leaves_dot_segment :
    CapturesOccur fooLib ∧ Clean stripConf.base
      ∧ ∃ m, matchRoute fooLib fooRoute (fooCtx "/foo/a/..%0Ab") = some m
        ∧ upstreamUri stripConf (fooCtx "/foo/a/..%0Ab") m = "/private/files/a/..".toList
        ∧ ¬ Clean (upstreamUri stripConf (fooCtx "/foo/a/..%0Ab") m) := by
  have huri : (matchRoute fooLib fooRoute (fooCtx "/foo/a/..%0Ab")).map
      (upstreamUri stripConf (fooCtx "/foo/a/..%0Ab")) = some "/private/files/a/..".toList := by
    decide
  obtain ⟨m, hmatch, hm⟩ := Option.map_eq_some_iff.mp huri
  refine ⟨fooLib_occurs, clean_of_no_dot (by decide), m, hmatch, hm, ?_⟩
  rw [hm]
  intro hclean
  exact hclean ['.', '.'] (by decide) (.inr rfl)

theorem plain_path_is_clean :
    ∃ m, matchRoute fooLib fooRoute (fooCtx "/foo/a/../b") = some m
      ∧ Clean (upstreamUri stripConf (fooCtx "/foo/a/../b") m) := by
  refine ⟨_, rfl, (upstream_uri_clean_iff fooLib_occurs fooRoute _ "foo/a/../b".toList rfl rfl
    stripConf (clean_of_no_dot (by decide))).1.mpr ?_⟩
  rintro ⟨-, p, front, dots, hp, heq, -⟩
  obtain rfl : "b" = p := Option.some.inj hp
  have hmem : '/' ∈ "b".toList := by
    rw [heq]
    simp
  exact absurd hmem (by decide)

end KongGateway.Kong.Router

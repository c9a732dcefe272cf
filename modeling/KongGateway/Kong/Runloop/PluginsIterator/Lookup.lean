import KongGateway.Kong.Runloop.PluginsIterator
import KongGateway.Lib.Preference

/-!
# PluginsIterator — the most specific configuration

The keys that `lookup_cfg` asks for are those of the scopes that apply to
the request, in the order of their ranks, and a key tells its scope.
-/

namespace KongGateway.Kong.Runloop

open Bytes

variable {γ : Type}

/-! ## Keys -/

def Scope.key (scope : Scope) : Text :=
  buildCompoundKey scope.route scope.service scope.consumer

theorem noColon_idText (id : Option Id) : 58 ∉ idText id := by
  cases id with
  | none => exact List.not_mem_nil
  | some id => exact id.noColon

theorem idText_inj {id id' : Option Id} (h : idText id = idText id') : id = id' := by
  cases id with
  | none =>
    cases id' with
    | none => rfl
    | some id' => exact absurd h.symm id'.ne_nil
  | some id =>
    cases id' with
    | none => exact absurd h id.ne_nil
    | some id' =>
      obtain ⟨text, hne, hcolon⟩ := id
      obtain ⟨text', hne', hcolon'⟩ := id'
      have htext : text = text' := h
      subst htext
      rfl

theorem colon_inj {a b s t : Text} (ha : 58 ∉ a) (hb : 58 ∉ b) (h : a ++ 58 :: s = b ++ 58 :: t) :
    a = b ∧ s = t := by
  induction a generalizing b with
  | nil =>
    cases b with
    | nil => exact ⟨rfl, List.tail_eq_of_cons_eq h⟩
    | cons c b =>
      have hc : 58 = c := List.head_eq_of_cons_eq h
      exact absurd (hc ▸ List.mem_cons_self) hb
  | cons c a ih =>
    cases b with
    | nil =>
      have hc : c = 58 := List.head_eq_of_cons_eq h
      exact absurd (hc ▸ List.mem_cons_self) ha
    | cons d b =>
      rw [List.cons_append, List.cons_append, List.cons.injEq] at h
      obtain ⟨rfl, hrest⟩ := h
      rw [List.mem_cons, not_or] at ha hb
      obtain ⟨rfl, rfl⟩ := ih ha.2 hb.2 hrest
      exact ⟨rfl, rfl⟩

theorem key_inj {scope scope' : Scope} (h : scope.key = scope'.key) : scope = scope' := by
  obtain ⟨hroute, hrest⟩ := colon_inj (noColon_idText _) (noColon_idText _) h
  obtain ⟨hservice, hconsumer⟩ := colon_inj (noColon_idText _) (noColon_idText _) hrest
  have hr := idText_inj hroute
  have hs := idText_inj hservice
  have hc := idText_inj hconsumer
  cases scope
  cases scope'
  simp only at hr hs hc
  rw [hr, hs, hc]

/-! ## Ranks -/

/-- Each part that a scope has is that of the request. -/
def Scope.AppliesTo (scope request : Scope) : Prop :=
  (∀ id, scope.route = some id → request.route = some id)
    ∧ (∀ id, scope.service = some id → request.service = some id)
    ∧ ∀ id, scope.consumer = some id → request.consumer = some id

/-- The documented order: route, service and consumer, route and consumer, service and consumer,
route and service, consumer, route, service, none. -/
def Scope.rank (scope : Scope) : Nat :=
  match scope.route.isSome, scope.service.isSome, scope.consumer.isSome with
  | true, true, true => 0
  | true, false, true => 1
  | false, true, true => 2
  | true, true, false => 3
  | false, false, true => 4
  | true, false, false => 5
  | false, true, false => 6
  | false, false, false => 7

/-- The scopes that a request asks for, in order. -/
def Scope.candidates (request : Scope) : List Scope :=
  let r := request.route
  let s := request.service
  let c := request.consumer
  (if r.isSome && s.isSome && c.isSome then [⟨r, s, c⟩] else [])
    ++ (if r.isSome && c.isSome then [⟨r, none, c⟩] else [])
    ++ (if s.isSome && c.isSome then [⟨none, s, c⟩] else [])
    ++ (if r.isSome && s.isSome then [⟨r, s, none⟩] else [])
    ++ (if c.isSome then [⟨none, none, c⟩] else [])
    ++ (if r.isSome then [⟨r, none, none⟩] else [])
    ++ (if s.isSome then [⟨none, s, none⟩] else [])
    ++ [⟨none, none, none⟩]

theorem rank_candidates (request : Scope) :
    request.candidates.Pairwise fun scope scope' => scope.rank < scope'.rank := by
  obtain ⟨route, service, consumer⟩ := request
  cases route <;> cases service <;> cases consumer <;> simp [Scope.candidates, Scope.rank]

theorem mem_candidates_iff {scope request : Scope} :
    scope ∈ request.candidates ↔ scope.AppliesTo request := by
  obtain ⟨route, service, consumer⟩ := request
  obtain ⟨route', service', consumer'⟩ := scope
  cases route <;> cases service <;> cases consumer <;> cases route' <;> cases service' <;>
    cases consumer' <;> simp [Scope.candidates, Scope.AppliesTo, eq_comm]

theorem findSome?_cons_or {α β : Type} (f : α → Option β) (a : α) (l : List α) :
    (a :: l).findSome? f = (f a).or (l.findSome? f) := by
  rw [List.findSome?_cons]
  cases f a <;> rfl

theorem lookupCfg_eq (combos : Combos γ) (request : Scope) :
    lookupCfg combos request.route request.service request.consumer
      = request.candidates.findSome? fun scope => combos.get scope.key := by
  obtain ⟨route, service, consumer⟩ := request
  cases route <;> cases service <;> cases consumer <;>
    simp [lookupCfg, Scope.candidates, Scope.key, pluginGlobalKey, findSome?_cons_or]

end KongGateway.Kong.Runloop

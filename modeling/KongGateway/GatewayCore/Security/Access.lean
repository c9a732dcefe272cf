import KongGateway.GatewayCore.Security

/-!
# Access — who is let in, and by which mode

`proxy_handler` authenticates and then authorizes the identity it got.
`authenticate` stops at the first enabled mode that succeeds, so a
request is granted access on the word of that mode alone: a later mode
with a better identity is not asked. What a grant proves is still an
enabled mode whose identity meets every kind of binding of the route.
-/

namespace KongGateway.GatewayCore

namespace SecurityConfig

/-- The composition in `proxy_handler`: 401 and 403 are both refusals. -/
def grantsAccess (cfg : SecurityConfig) (decode : TokenDecoder) (headers : HeaderMap)
    (routeName : String) : Bool :=
  match cfg.authenticate decode headers with
  | .error _ => false
  | .ok identity =>
    cfg.authorize {
      mode := identity.mode
      roles := identity.roles
      groups := identity.groups
      subject := identity.subject
      routeName := routeName }

/-- Every kind of binding the route has is met by the identity. -/
structure Satisfies (cfg : SecurityConfig) (identity : AuthenticatedIdentity)
    (routeName : String) : Prop where
  role : (∃ binding ∈ cfg.rbac, binding.route = routeName) →
    ∃ binding ∈ cfg.rbac, binding.route = routeName ∧ binding.role ∈ identity.roles
  group : (∃ binding ∈ cfg.groupRbac, binding.route = routeName) →
    ∃ binding ∈ cfg.groupRbac, binding.route = routeName ∧ binding.group ∈ identity.groups
  subject : (∃ binding ∈ cfg.subjectRbac, binding.route = routeName) →
    ∃ binding ∈ cfg.subjectRbac,
      binding.route = routeName ∧ identity.subject = some binding.subject

/-- An enabled mode justifies access: it succeeds with an identity that
meets the bindings. -/
def Justifies (cfg : SecurityConfig) (decode : TokenDecoder) (headers : HeaderMap)
    (routeName : String) (mode : AuthMode) : Prop :=
  ∃ identity, cfg.authenticateMode decode mode headers = .ok identity
    ∧ cfg.Satisfies identity routeName

def Succeeds (cfg : SecurityConfig) (decode : TokenDecoder) (headers : HeaderMap)
    (mode : AuthMode) : Prop :=
  ∃ identity, cfg.authenticateMode decode mode headers = .ok identity

variable {cfg : SecurityConfig} {decode : TokenDecoder} {headers : HeaderMap}
  {routeName : String}

/-! ## Authorization -/

/-- One kind of binding: the names bound to the route are none, or one
of them is held. -/
theorem required_iff {β : Type} (bindings : List β) (route name : β → String)
    (routeName : String) (holds : String → Prop) :
    ((bindings.filter fun b => route b == routeName).map name = []
        ∨ ∃ required ∈ (bindings.filter fun b => route b == routeName).map name, holds required)
      ↔ ((∃ b ∈ bindings, route b = routeName) →
          ∃ b ∈ bindings, route b = routeName ∧ holds (name b)) := by
  constructor
  · rintro (hnone | ⟨required, hmem, hholds⟩) ⟨b, hb, hroute⟩
    · have hfiltered : b ∈ bindings.filter fun b => route b == routeName :=
        List.mem_filter.mpr ⟨hb, by simpa using hroute⟩
      rw [List.map_eq_nil_iff] at hnone
      rw [hnone] at hfiltered
      cases hfiltered
    · obtain ⟨b', hb', rfl⟩ := List.mem_map.mp hmem
      obtain ⟨hmem', hroute'⟩ := List.mem_filter.mp hb'
      exact ⟨b', hmem', by simpa using hroute', hholds⟩
  · intro h
    by_cases hsome : ∃ b ∈ bindings, route b = routeName
    · obtain ⟨b, hb, hroute, hholds⟩ := h hsome
      refine .inr ⟨name b, List.mem_map.mpr ⟨b, List.mem_filter.mpr ⟨hb, ?_⟩, rfl⟩, hholds⟩
      simpa using hroute
    · left
      rw [List.map_eq_nil_iff, List.filter_eq_nil_iff]
      intro b hb hroute
      exact hsome ⟨b, hb, by simpa using hroute⟩

theorem any_contains_iff (held required : List String) :
    (required.isEmpty || held.any fun name => required.contains name) = true
      ↔ required = [] ∨ ∃ name ∈ required, name ∈ held := by
  simp only [Bool.or_eq_true, List.isEmpty_iff, List.any_eq_true, List.contains_iff_mem]
  exact or_congr Iff.rfl (exists_congr fun name => and_comm)

theorem subject_contains_iff (subject : Option String) (required : List String) :
    (required.isEmpty || (subject.map fun name => required.contains name).getD false) = true
      ↔ required = [] ∨ ∃ name ∈ required, subject = some name := by
  cases subject with
  | none => simp
  | some name => simp

/-- For an identity of an enabled mode, `authorize` decides `Satisfies`. -/
theorem authorize_iff {identity : AuthenticatedIdentity}
    (hmode : identity.mode ∈ cfg.enabledModes) :
    cfg.authorize {
        mode := identity.mode, roles := identity.roles, groups := identity.groups
        subject := identity.subject, routeName := routeName } = true
      ↔ cfg.Satisfies identity routeName := by
  have hgate : (!cfg.enabledModes.isEmpty && !cfg.enabledModes.contains identity.mode) = false := by
    simp [hmode]
  simp only [authorize, hgate, Bool.false_eq_true, if_false, Bool.and_eq_true]
  rw [any_contains_iff, any_contains_iff, subject_contains_iff,
    required_iff cfg.rbac (·.route) (·.role) routeName (· ∈ identity.roles),
    required_iff cfg.groupRbac (·.route) (·.group) routeName (· ∈ identity.groups),
    required_iff cfg.subjectRbac (·.route) (·.subject) routeName
      (fun required => identity.subject = some required)]
  constructor
  · rintro ⟨⟨hrole, hgroup⟩, hsubject⟩
    exact ⟨hrole, hgroup, hsubject⟩
  · intro h
    exact ⟨⟨h.role, h.group⟩, h.subject⟩

/-! ## Authentication -/

theorem authenticateMode_mode {mode : AuthMode} {identity : AuthenticatedIdentity}
    (h : cfg.authenticateMode decode mode headers = .ok identity) : identity.mode = mode := by
  have htoken : ∀ token issuer audience message legacy,
      tokenIdentity decode headers mode token issuer audience message legacy = .ok identity →
      identity.mode = mode := by
    intro token issuer audience message legacy htoken
    unfold tokenIdentity at htoken
    split at htoken
    · cases htoken
    · cases htoken
      rfl
  cases mode with
  | anonymous =>
    cases h
    rfl
  | jwt => exact htoken _ _ _ _ _ h
  | oAuth2 => exact htoken _ _ _ _ _ h
  | openIdConnect => exact htoken _ _ _ _ _ h
  | mtls =>
    simp only [authenticateMode] at h
    split at h
    · cases h
    · split at h
      · cases h
      · cases h
        rfl

/-- The loop answers with the first mode that succeeds, whatever errors
came before. -/
theorem tryModes_ok_iff {modes : List AuthMode} {errors : List String}
    {identity : AuthenticatedIdentity} :
    cfg.tryModes decode headers modes errors = .ok identity
      ↔ ∃ pre mode post, modes = pre ++ mode :: post
          ∧ (∀ earlier ∈ pre, ¬ cfg.Succeeds decode headers earlier)
          ∧ cfg.authenticateMode decode mode headers = .ok identity := by
  induction modes generalizing errors with
  | nil => simp [tryModes]
  | cons head rest ih =>
    cases hhead : cfg.authenticateMode decode head headers with
    | ok first =>
      simp only [tryModes, hhead, Except.ok.injEq]
      constructor
      · rintro rfl
        exact ⟨[], head, rest, rfl, by simp, hhead⟩
      · rintro ⟨pre, mode, post, hsplit, hfail, hok⟩
        cases pre with
        | nil =>
          cases hsplit
          exact Except.ok.inj (hhead.symm.trans hok)
        | cons earlier pre =>
          cases hsplit
          exact absurd ⟨first, hhead⟩ (hfail head (by simp))
    | error err =>
      simp only [tryModes, hhead, ih]
      have hno : ¬ cfg.Succeeds decode headers head := by
        rintro ⟨first, hfirst⟩
        rw [hhead] at hfirst
        cases hfirst
      constructor
      · rintro ⟨pre, mode, post, rfl, hfail, hok⟩
        exact ⟨head :: pre, mode, post, rfl, by simpa [hno] using hfail, hok⟩
      · rintro ⟨pre, mode, post, hsplit, hfail, hok⟩
        cases pre with
        | nil =>
          cases hsplit
          exact absurd ⟨identity, hok⟩ hno
        | cons earlier pre =>
          cases hsplit
          exact ⟨pre, mode, post, rfl, fun m hm => hfail m (by simp [hm]), hok⟩

/-! ## The decision -/

theorem grantsAccess_iff (hmodes : cfg.enabledModes ≠ []) :
    cfg.grantsAccess decode headers routeName = true
      ↔ ∃ pre mode post, cfg.enabledModes = pre ++ mode :: post
          ∧ (∀ earlier ∈ pre, ¬ cfg.Succeeds decode headers earlier)
          ∧ cfg.Justifies decode headers routeName mode := by
  have hauth : cfg.authenticate decode headers
      = cfg.tryModes decode headers cfg.enabledModes [] := by
    simp [authenticate, hmodes]
  constructor
  · intro h
    unfold grantsAccess at h
    cases hresult : cfg.authenticate decode headers with
    | error err => simp [hresult] at h
    | ok identity =>
      rw [hresult] at h
      rw [hauth] at hresult
      obtain ⟨pre, mode, post, hsplit, hfail, hok⟩ := tryModes_ok_iff.mp hresult
      have hmode : identity.mode ∈ cfg.enabledModes := by
        rw [authenticateMode_mode hok, hsplit]
        simp
      exact ⟨pre, mode, post, hsplit, hfail, identity, hok, (authorize_iff hmode).mp h⟩
  · rintro ⟨pre, mode, post, hsplit, hfail, identity, hok, hsat⟩
    have hresult := hauth.trans (tryModes_ok_iff.mpr ⟨pre, mode, post, hsplit, hfail, hok⟩)
    have hmode : identity.mode ∈ cfg.enabledModes := by
      rw [authenticateMode_mode hok, hsplit]
      simp
    simp only [grantsAccess, hresult]
    exact (authorize_iff hmode).mpr hsat

/-! ## The order of the modes -/

/-- The enabled modes that succeed are of one mind about the route. -/
def ModesAgree (cfg : SecurityConfig) (decode : TokenDecoder) (headers : HeaderMap)
    (routeName : String) : Prop :=
  ∀ mode ∈ cfg.enabledModes, ∀ mode' ∈ cfg.enabledModes,
    cfg.Succeeds decode headers mode → cfg.Succeeds decode headers mode' →
      (cfg.Justifies decode headers routeName mode
        ↔ cfg.Justifies decode headers routeName mode')

theorem Justifies.succeeds {mode : AuthMode} (h : cfg.Justifies decode headers routeName mode) :
    cfg.Succeeds decode headers mode := by
  obtain ⟨identity, hok, -⟩ := h
  exact ⟨identity, hok⟩

/-- Neither success nor the bindings look at the list of enabled modes. -/
theorem justifies_with_modes (modes : List AuthMode) (mode : AuthMode) :
    { cfg with enabledModes := modes }.Justifies decode headers routeName mode
      ↔ cfg.Justifies decode headers routeName mode := by
  constructor
  · rintro ⟨identity, hok, hsat⟩
    exact ⟨identity, hok, hsat.role, hsat.group, hsat.subject⟩
  · rintro ⟨identity, hok, hsat⟩
    exact ⟨identity, hok, hsat.role, hsat.group, hsat.subject⟩

theorem grantsAccess_of_agree (hagree : cfg.ModesAgree decode headers routeName)
    (h : ∃ mode ∈ cfg.enabledModes, cfg.Justifies decode headers routeName mode) :
    cfg.grantsAccess decode headers routeName = true := by
  classical
  obtain ⟨mode, hmem, hjust⟩ := h
  -- the first mode that succeeds is asked, and it agrees with `mode`
  have hfound : (cfg.enabledModes.find? fun m => decide (cfg.Succeeds decode headers m)).isSome := by
    rw [List.find?_isSome]
    exact ⟨mode, hmem, by simpa using hjust.succeeds⟩
  obtain ⟨first, hfirst⟩ := Option.isSome_iff_exists.mp hfound
  obtain ⟨hsucceeds, pre, post, hsplit, hfail⟩ := List.find?_eq_some_iff_append.mp hfirst
  simp only [decide_eq_true_eq] at hsucceeds
  have hmem' : first ∈ cfg.enabledModes := by
    rw [hsplit]
    simp
  rw [grantsAccess_iff (List.ne_nil_of_mem hmem)]
  refine ⟨pre, first, post, hsplit, ?_, ?_⟩
  · intro earlier hearlier
    simpa using hfail earlier hearlier
  · exact (hagree mode hmem first hmem' hjust.succeeds hsucceeds).mp hjust

theorem grantsAccess_cons_iff {mode : AuthMode} {rest : List AuthMode}
    (h : cfg.Succeeds decode headers mode) :
    { cfg with enabledModes := mode :: rest }.grantsAccess decode headers routeName = true
      ↔ cfg.Justifies decode headers routeName mode := by
  rw [grantsAccess_iff (by simp)]
  constructor
  · rintro ⟨pre, mode', post, hsplit, hfail, hjust⟩
    cases pre with
    | nil =>
      cases hsplit
      exact (justifies_with_modes _ _).mp hjust
    | cons earlier pre =>
      cases hsplit
      exact absurd h (hfail mode (by simp))
  · intro hjust
    exact ⟨[], mode, rest, rfl, by simp, (justifies_with_modes _ _).mpr hjust⟩

/-- The decision is the same for every order of the enabled modes
exactly when those that succeed agree. -/
theorem forall_perm_grantsAccess_iff (hmodes : cfg.enabledModes ≠ []) :
    (∀ modes, modes.Perm cfg.enabledModes →
        { cfg with enabledModes := modes }.grantsAccess decode headers routeName
          = cfg.grantsAccess decode headers routeName)
      ↔ cfg.ModesAgree decode headers routeName := by
  constructor
  · intro horder mode hmem mode' hmem' hsucceeds hsucceeds'
    have hfirst := horder _ (List.perm_cons_erase hmem).symm
    have hfirst' := horder _ (List.perm_cons_erase hmem').symm
    rw [← grantsAccess_cons_iff hsucceeds, ← grantsAccess_cons_iff hsucceeds', hfirst, hfirst']
  · intro hagree modes hperm
    have hmodes' : modes ≠ [] := fun hnil => hmodes (List.perm_nil.mp (hnil ▸ hperm.symm))
    have hagree' : { cfg with enabledModes := modes }.ModesAgree decode headers routeName := by
      intro mode hmem mode' hmem' hsucceeds hsucceeds'
      rw [justifies_with_modes modes mode, justifies_with_modes modes mode']
      exact hagree mode (hperm.mem_iff.mp hmem) mode' (hperm.mem_iff.mp hmem') hsucceeds hsucceeds'
    rw [Bool.eq_iff_iff]
    constructor
    · intro h
      obtain ⟨pre, mode, post, hsplit, -, hjust⟩ := (grantsAccess_iff hmodes').mp h
      have hmem : mode ∈ modes := by
        rw [show modes = pre ++ mode :: post from hsplit]
        simp
      exact grantsAccess_of_agree hagree
        ⟨mode, hperm.mem_iff.mp hmem, (justifies_with_modes _ _).mp hjust⟩
    · intro h
      obtain ⟨pre, mode, post, hsplit, -, hjust⟩ := (grantsAccess_iff hmodes).mp h
      have hmem : mode ∈ cfg.enabledModes := by
        rw [hsplit]
        simp
      exact grantsAccess_of_agree hagree'
        ⟨mode, hperm.mem_iff.mpr hmem, (justifies_with_modes _ _).mpr hjust⟩

end SecurityConfig

/-- **Access.** With some mode enabled, access is granted exactly when
the first enabled mode that succeeds justifies it, so every grant is
justified by an enabled mode; and the order of the modes is irrelevant
exactly when the modes that succeed agree. -/
theorem access_granted_iff_first_success (cfg : SecurityConfig) (decode : TokenDecoder)
    (headers : HeaderMap) (routeName : String) (hmodes : cfg.enabledModes ≠ []) :
    (cfg.grantsAccess decode headers routeName = true
      ↔ ∃ pre mode post, cfg.enabledModes = pre ++ mode :: post
          ∧ (∀ earlier ∈ pre, ¬ cfg.Succeeds decode headers earlier)
          ∧ cfg.Justifies decode headers routeName mode)
    ∧ (cfg.grantsAccess decode headers routeName = true →
        ∃ mode ∈ cfg.enabledModes, cfg.Justifies decode headers routeName mode)
    ∧ ((∀ modes, modes.Perm cfg.enabledModes →
          { cfg with enabledModes := modes }.grantsAccess decode headers routeName
            = cfg.grantsAccess decode headers routeName)
        ↔ cfg.ModesAgree decode headers routeName) := by
  refine ⟨SecurityConfig.grantsAccess_iff hmodes, ?_,
    SecurityConfig.forall_perm_grantsAccess_iff hmodes⟩
  intro h
  obtain ⟨pre, mode, post, hsplit, -, hjust⟩ := (SecurityConfig.grantsAccess_iff hmodes).mp h
  exact ⟨mode, by rw [hsplit]; simp, hjust⟩

/-- Anyone may come in, but only operators may use the `admin` route. -/
def adminSecurity : SecurityConfig where
  enabledModes := [.anonymous, .jwt]
  rbac := [{ role := "operator", route := "admin" }]
  jwt := { secret := "s", rolesClaim := "roles", groupsClaim := "groups" }

/-- One valid token, of an operator. -/
def operatorToken : TokenDecoder := fun token _ _ _ =>
  if token = "op" then .ok (.object [("roles", .array [.string "operator"])])
  else .error "InvalidToken"

def operatorHeaders : HeaderMap := [("authorization", "Bearer op")]

/-- With the token mode first the operator is let in, and the grant has
its justification. -/
theorem admin_access_by_first_mode :
    let cfg := { adminSecurity with enabledModes := [.jwt, .anonymous] }
    cfg.grantsAccess operatorToken operatorHeaders "admin" = true
      ∧ ∃ mode ∈ cfg.enabledModes, cfg.Justifies operatorToken operatorHeaders "admin" mode := by
  have hgrant : { adminSecurity with enabledModes := [.jwt, .anonymous] }.grantsAccess
      operatorToken operatorHeaders "admin" = true := by decide
  exact ⟨hgrant,
    (access_granted_iff_first_success _ operatorToken operatorHeaders "admin" (by decide)).2.1
      hgrant⟩

/-- With the anonymous mode first the same operator is refused, though
the enabled token mode justifies access. -/
theorem anonymous_first_refuses_operator :
    adminSecurity.enabledModes = [.anonymous, .jwt]
      ∧ adminSecurity.Justifies operatorToken operatorHeaders "admin" .jwt
      ∧ adminSecurity.grantsAccess operatorToken operatorHeaders "admin" = false
      ∧ { adminSecurity with enabledModes := [.jwt, .anonymous] }.grantsAccess
          operatorToken operatorHeaders "admin" = true := by
  have hsucceeds : adminSecurity.Succeeds operatorToken operatorHeaders .jwt := ⟨_, rfl⟩
  have hgrant : { adminSecurity with enabledModes := [.jwt, .anonymous] }.grantsAccess
      operatorToken operatorHeaders "admin" = true := by decide
  exact ⟨rfl, (SecurityConfig.grantsAccess_cons_iff hsucceeds).mp hgrant, by decide, hgrant⟩

end KongGateway.GatewayCore

import KongGateway.Lib.RustStd

/-!
# Security — authentication modes and route bindings

The model of `security.rs`: the enabled modes are tried in order, each
one yields an identity or an error text, and `authorize` checks the
identity against the role, group and subject bindings of the route.

Token verification is the `jsonwebtoken` crate's `decode`; it is the
parameter `decode` of this model: from the token, the secret and the
optional issuer and audience it gives the verified claims or an error
text.
-/

namespace KongGateway.GatewayCore

open RustStd

/-! ## Values the environment supplies -/

/-- `serde_json::Value`. Numbers keep their spelling: no modelled code
looks inside one. -/
inductive Json where
  | null
  | bool (b : Bool)
  | number (text : String)
  | string (s : String)
  | array (items : List Json)
  | object (fields : List (String × Json))

namespace Json

/-- `Value::get` with a string index. -/
def get (name : String) : Json → Option Json
  | object fields => fields.lookup name
  | _ => none

def asArray : Json → Option (List Json)
  | array items => some items
  | _ => none

def asStr : Json → Option String
  | string s => some s
  | _ => none

end Json

/-- A header map: names in lower case (as `HeaderName` stores them),
values as one character per byte. -/
abbrev HeaderMap := List (String × String)

/-- `HeaderMap::get` with a string name: the name is compared in lower
case; a text that is no header name equals no stored name. -/
def HeaderMap.get (headers : HeaderMap) (name : String) : Option String :=
  headers.lookup (toAsciiLowercase name)

/-- `HeaderValue::to_str`: visible ASCII and tab only. -/
def headerToStr (value : String) : Option String :=
  if value.toList.all fun c => (32 ≤ c.toNat && c.toNat < 127) || c.toNat == 9 then
    some value
  else none

/-- The signature of `jsonwebtoken::decode` as the gateway calls it. -/
abbrev TokenDecoder :=
  (token secret : String) → (issuer audience : Option String) → Except String Json

/-! ## Configuration -/

inductive AuthMode where
  | anonymous
  | jwt
  | oAuth2
  | openIdConnect
  | mtls
deriving DecidableEq, Repr

/-- The `Debug` text of a mode. -/
def AuthMode.debug : AuthMode → String
  | anonymous => "Anonymous"
  | jwt => "Jwt"
  | oAuth2 => "OAuth2"
  | openIdConnect => "OpenIdConnect"
  | mtls => "Mtls"

/-- The settings of one token mode. `JwtConfig` has no issuer and no
audience; it is used with both empty. The field defaults are those of
the derived `Default`, which a missing section gets; a section that is
present gets `roles` and `groups` for missing claim names from the
deserialiser. -/
structure TokenConfig where
  secret : String := ""
  issuer : String := ""
  audience : String := ""
  rolesClaim : String := ""
  groupsClaim : String := ""
deriving DecidableEq, Repr

/-- As for `TokenConfig`, these are the derived defaults; a section that
is present gets the `x-client-cert-*` header names. -/
structure MtlsConfig where
  subjectHeader : String := ""
  rolesHeader : String := ""
  groupsHeader : String := ""
  allowedSubjects : List String := []
deriving DecidableEq, Repr

structure RoleBinding where
  role : String
  route : String
deriving DecidableEq, Repr

structure GroupBinding where
  group : String
  route : String
deriving DecidableEq, Repr

structure SubjectBinding where
  subject : String
  route : String
deriving DecidableEq, Repr

structure SecurityConfig where
  enabledModes : List AuthMode := []
  rbac : List RoleBinding := []
  groupRbac : List GroupBinding := []
  jwt : TokenConfig := {}
  oauth2 : TokenConfig := {}
  openidConnect : TokenConfig := {}
  mtls : MtlsConfig := {}
  subjectRbac : List SubjectBinding := []
deriving DecidableEq, Repr

structure AuthContext where
  mode : AuthMode
  roles : List String
  groups : List String
  subject : Option String
  routeName : String
deriving DecidableEq, Repr

structure AuthenticatedIdentity where
  mode : AuthMode
  roles : List String
  groups : List String
  subject : Option String
deriving DecidableEq, Repr

/-! ## Claims and headers -/

def nonEmpty (value : String) : Option String :=
  if value = "" then none else some value

def splitClaimValues (value : String) : List String :=
  ((splitWhitespace value).map trim).filter (fun piece => piece ≠ "")

def splitHeaderValues (value : String) : List String :=
  ((splitOn (· == ',') value).map trim).filter (fun piece => piece ≠ "")

def extractClaimValues (claims : Json) (claimName : String)
    (includeLegacyRoleClaim : Bool) : List String :=
  let values :=
    match claims.get claimName with
    | none => []
    | some value =>
      match value.asArray with
      | some items =>
        items.flatMap fun item =>
          match item.asStr with
          | some text => splitClaimValues text
          | none => []
      | none =>
        match value.asStr with
        | some single => splitClaimValues single
        | none => []
  if includeLegacyRoleClaim then
    match (claims.get "role").bind Json.asStr with
    | some singleRole => values ++ [singleRole]
    | none => values
  else values

def extractHeaderValues (headers : HeaderMap) (headerName : String) : List String :=
  match (headers.get headerName).bind headerToStr with
  | some value => splitHeaderValues value
  | none => []

def decodeTokenClaims (decode : TokenDecoder) (headers : HeaderMap)
    (secret : String) (issuer audience : Option String)
    (invalidTokenMessage : String) : Except String Json :=
  if secret = "" then .error "token secret is not configured"
  else
    match ((headers.get "authorization").bind headerToStr).bind (stripPrefix "Bearer ") with
    | none => .error "missing bearer token"
    | some bearer =>
      match decode bearer secret issuer audience with
      | .error err => .error (invalidTokenMessage ++ ": " ++ err)
      | .ok claims => .ok claims

/-! ## Authentication -/

namespace SecurityConfig

/-- One token mode: the verified claims give roles and groups, and the
identity has no subject. -/
def tokenIdentity (decode : TokenDecoder) (headers : HeaderMap) (mode : AuthMode)
    (cfg : TokenConfig) (issuer audience : Option String)
    (invalidTokenMessage : String) (includeLegacyRoleClaim : Bool) :
    Except String AuthenticatedIdentity :=
  match decodeTokenClaims decode headers cfg.secret issuer audience invalidTokenMessage with
  | .error err => .error err
  | .ok claims =>
    .ok {
      mode := mode
      roles := extractClaimValues claims cfg.rolesClaim includeLegacyRoleClaim
      groups := extractClaimValues claims cfg.groupsClaim false
      subject := none }

def authenticateMode (cfg : SecurityConfig) (decode : TokenDecoder)
    (mode : AuthMode) (headers : HeaderMap) : Except String AuthenticatedIdentity :=
  match mode with
  | .anonymous =>
    .ok { mode := .anonymous, roles := [], groups := [], subject := none }
  | .jwt =>
    tokenIdentity decode headers mode cfg.jwt none none "invalid jwt" true
  | .oAuth2 =>
    tokenIdentity decode headers mode cfg.oauth2 (nonEmpty cfg.oauth2.issuer)
      (nonEmpty cfg.oauth2.audience) "invalid oauth2 token" false
  | .openIdConnect =>
    tokenIdentity decode headers mode cfg.openidConnect
      (nonEmpty cfg.openidConnect.issuer) (nonEmpty cfg.openidConnect.audience)
      "invalid openid connect token" false
  | .mtls =>
    let subject :=
      (((headers.get cfg.mtls.subjectHeader).bind headerToStr).map trim).filter
        (fun value => value ≠ "")
    match subject with
    | none => .error "missing mTLS subject"
    | some subject =>
      if !cfg.mtls.allowedSubjects.isEmpty
          && !cfg.mtls.allowedSubjects.any (fun allowed => allowed == subject) then
        .error "mTLS subject is not allowed"
      else
        .ok {
          mode := mode
          roles := extractHeaderValues headers cfg.mtls.rolesHeader
          groups := extractHeaderValues headers cfg.mtls.groupsHeader
          subject := some subject }

/-- The loop of `authenticate` over the enabled modes, with the error
texts collected so far. -/
def tryModes (cfg : SecurityConfig) (decode : TokenDecoder) (headers : HeaderMap) :
    List AuthMode → List String → Except String AuthenticatedIdentity
  | [], errors =>
    .error ("authentication failed for all enabled modes: " ++ join " | " errors)
  | mode :: rest, errors =>
    match cfg.authenticateMode decode mode headers with
    | .ok identity => .ok identity
    | .error err => tryModes cfg decode headers rest (errors ++ [mode.debug ++ ": " ++ err])

def authenticate (cfg : SecurityConfig) (decode : TokenDecoder)
    (headers : HeaderMap) : Except String AuthenticatedIdentity :=
  if cfg.enabledModes.isEmpty then
    .ok { mode := .anonymous, roles := [], groups := [], subject := none }
  else tryModes cfg decode headers cfg.enabledModes []

/-! ## Authorization -/

def authorize (cfg : SecurityConfig) (auth : AuthContext) : Bool :=
  if !cfg.enabledModes.isEmpty && !cfg.enabledModes.contains auth.mode then false
  else
    let requiredRoles :=
      (cfg.rbac.filter fun binding => binding.route == auth.routeName).map (·.role)
    let requiredGroups :=
      (cfg.groupRbac.filter fun binding => binding.route == auth.routeName).map (·.group)
    let requiredSubjects :=
      (cfg.subjectRbac.filter fun binding => binding.route == auth.routeName).map (·.subject)
    let roleAllowed :=
      requiredRoles.isEmpty || auth.roles.any fun role => requiredRoles.contains role
    let groupAllowed :=
      requiredGroups.isEmpty || auth.groups.any fun group => requiredGroups.contains group
    let subjectAllowed :=
      requiredSubjects.isEmpty
        || (auth.subject.map fun subject => requiredSubjects.contains subject).getD false
    roleAllowed && groupAllowed && subjectAllowed

end SecurityConfig

end KongGateway.GatewayCore

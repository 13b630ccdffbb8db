import CodemcpBridge.Json

/-!
# Identities of callers

The security context of a call, the details of it that the store keeps, the identity read back from
those details, and the key under which a request is remembered.
-/

namespace CodemcpBridge

/-- The identity projection that a validated bearer token gives; `validate` lets no part be empty.
-/
structure AuthenticatedPrincipal where
  contractVersion : String
  issuer : String
  resource : String
  subject : String
  clientId : String
  scopes : List String
  issuedAt : Int
  expiresAt : Int
  named : "" ∉ [contractVersion, issuer, resource, subject, clientId]
  deriving DecidableEq

/-- `AuthContext`. -/
inductive AuthContext
  | oauth (p : AuthenticatedPrincipal)
  | networkTrusted (resource : Option String)
  deriving DecidableEq

def networkTrustAuthKind : String := "network-trusted"
def networkTrustAuthType : String := "network-trusted"
def networkTrustProfile : String := "cloudflare-chatgpt"
def networkTrustIssuer : String := "network-trust://cloudflare-chatgpt"
def networkTrustPrincipal : String := "network-chatgpt-v1"
def networkTrustReplayNamespace : String := "network-chatgpt-v1"

def AuthenticatedPrincipal.identityValues (p : AuthenticatedPrincipal) : List String :=
  [p.contractVersion, p.issuer, p.resource, p.subject, p.clientId]

/-- `_oauth_replay_namespace`. -/
def oauthReplayNamespace (values : List String) : Json := .sha256 "oauth-" (.ofStrings values)

/-- `auth_replay_namespace`. -/
def AuthContext.replayNamespace : AuthContext → Json
  | .networkTrusted _ => .str networkTrustReplayNamespace
  | .oauth p => oauthReplayNamespace p.identityValues

/-- `auth_audit_details`. -/
def authAuditDetails : AuthContext → Dict
  | .networkTrusted resource =>
    [("auth_kind", .str networkTrustAuthKind), ("auth_type", .str networkTrustAuthType),
      ("trust_profile", .str networkTrustProfile), ("identity_level", .str "network-only"),
      ("principal", .str networkTrustPrincipal), ("issuer", .str networkTrustIssuer),
      ("subject", .str networkTrustPrincipal),
      ("replay_namespace", .str networkTrustReplayNamespace)] ++
      (resource.map fun r => ("resource", Json.str r)).toList
  | .oauth p =>
    [("contract_version", .str p.contractVersion), ("auth_kind", .str "oauth-resource-server"),
      ("auth_type", .str "oauth"),
      ("replay_namespace", oauthReplayNamespace p.identityValues), ("issuer", .str p.issuer),
      ("resource", .str p.resource), ("subject", .str p.subject), ("client_id", .str p.clientId),
      ("scopes", .ofStrings p.scopes), ("issued_at", .num p.issuedAt),
      ("expires_at", .num p.expiresAt)]

/-- The kind of an identity and its replay namespace. -/
abbrev Identity := String × Json

/-- The non-empty strings under the given keys, if all are there. -/
def identityStrings (details : Dict) : List String → Option (List String)
  | [] => some []
  | key :: keys => match details.get? key with
    | some (.str s) => if s = "" then none else (identityStrings details keys).map (s :: ·)
    | _ => none

/-- `auth_context_identity` of stored details. -/
def authContextIdentity (details : Dict) : Option Identity :=
  if details.get? "auth_kind" = some (.str networkTrustAuthKind) then
    if details.get? "auth_type" = some (.str networkTrustAuthType) ∧
        details.get? "trust_profile" = some (.str networkTrustProfile) ∧
        details.get? "principal" = some (.str networkTrustPrincipal) ∧
        details.get? "issuer" = some (.str networkTrustIssuer) ∧
        details.get? "subject" = some (.str networkTrustPrincipal) ∧
        details.get? "replay_namespace" = some (.str networkTrustReplayNamespace) ∧
        details.get? "identity_level" = some (.str "network-only") then
      some (networkTrustAuthKind, .str networkTrustReplayNamespace)
    else none
  else if details.get? "auth_kind" ∈ [none, some .null, some (.str "oauth-resource-server")] then
    match identityStrings details ["contract_version", "issuer", "resource", "subject",
      "client_id"] with
    | none => none
    | some values =>
      if details.get? "replay_namespace" ∈
          [none, some .null, some (oauthReplayNamespace values)] then
        some ("oauth-resource-server", oauthReplayNamespace values)
      else none
  else none

/-- The identity of a context, and of stored details that may be absent. -/
def AuthContext.identity : AuthContext → Identity
  | .networkTrusted r => (networkTrustAuthKind, (networkTrusted r).replayNamespace)
  | .oauth p => ("oauth-resource-server", (oauth p).replayNamespace)

/-- What a context leaves in the store is read back as its own identity. -/
theorem authContextIdentity_authAuditDetails (c : AuthContext) :
    authContextIdentity (authAuditDetails c) = some c.identity := by
  cases c with
  | networkTrusted r =>
    cases r <;> simp [authContextIdentity, authAuditDetails, Dict.get?, AuthContext.identity,
      AuthContext.replayNamespace]
  | oauth p =>
    have h := p.named
    simp only [List.mem_cons, List.not_mem_nil, or_false, not_or, eq_comm (a := "")] at h
    simp [authContextIdentity, authAuditDetails, Dict.get?, AuthContext.identity,
      AuthContext.replayNamespace, networkTrustAuthKind, identityStrings,
      AuthenticatedPrincipal.identityValues, h]

/-- The key under which an operation's client request id is stored. -/
structure ReplayKey where
  namespace_ : Option Json
  clientRequestId : String
  deriving DecidableEq

/-- `encode_replay_key`; a request id never holds the separator when it gets here. -/
def encodeReplayKey (namespace_ : Option Json) (clientRequestId : String) : ReplayKey :=
  { namespace_, clientRequestId }

/-- `decode_replay_key`. -/
def ReplayKey.decode (k : ReplayKey) : String := k.clientRequestId

/-- Two contexts with one replay namespace have one identity. -/
theorem identity_eq_of_replayNamespace {c c' : AuthContext}
    (h : c.replayNamespace = c'.replayNamespace) : c.identity = c'.identity := by
  cases c <;> cases c' <;>
    simp_all [AuthContext.replayNamespace, AuthContext.identity, oauthReplayNamespace]

end CodemcpBridge

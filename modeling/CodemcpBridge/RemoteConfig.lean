import CodemcpBridge.Config.Tomllib
import CodemcpBridge.Encoding.Texts
import CodemcpBridge.ResourceServer

/-!
# The remote configuration

`remote.toml`, which the Bridge writes by hand and reads with `tomllib`: the transport, how requests
are authenticated, and the network trust.
-/

namespace CodemcpBridge

namespace RemoteConfig

open NetworkTrust ResourceServer

/-! ## Settings -/

/-- A member of `TRANSPORT_PROVIDERS`. -/
inductive Provider
  | openaiTunnel | cloudflareTunnel
  deriving DecidableEq, Repr

def Provider.providerId : Provider → String
  | .openaiTunnel => "openai-tunnel"
  | .cloudflareTunnel => "cloudflare"

def remoteConfigVersion : ℕ := 1

def resourceAuthConfigVersion : ℕ := 1

def authModeNone : String := "none"

def resourceAuthMode : String := "oauth-resource-server"

def contractId : String := "mcp-rs-verification-v1"

/-- The structural checks of `ResourceServerValidationConfig`, but for its secret. -/
structure ValidAuth (issuer resource validationResourceId : List Char) : Prop where
  issuer : validateIssuer issuer = true
  resource : validateResource resource = true
  id : validationResourceId ≠ [] ∧ ':' ∉ validationResourceId ∧
    ∀ c ∈ validationResourceId, 0x20 ≤ c.toNat

instance (issuer resource validationResourceId : List Char) :
    Decidable (ValidAuth issuer resource validationResourceId) :=
  decidable_of_iff (validateIssuer issuer = true ∧ validateResource resource = true ∧
      validationResourceId ≠ [] ∧ ':' ∉ validationResourceId ∧
        (validationResourceId.all fun c => decide (0x20 ≤ c.toNat)) = true)
    ⟨fun ⟨hi, hr, hne, hc, hall⟩ => ⟨hi, hr, hne, hc, by simpa using hall⟩,
      fun ⟨hi, hr, hne, hc, hall⟩ => ⟨hi, hr, hne, hc, by simpa using hall⟩⟩

/-- `ResourceAuthSettings` that were built; its other fields have one value each. -/
structure ResourceAuthSettings where
  issuer : List Char
  resource : List Char
  validationResourceId : List Char
  valid : ValidAuth issuer resource validationResourceId

/-- What `_parse_auth_configuration` returns: no mode, the mode without authentication, or the
settings of a resource server. -/
inductive AuthSettings
  | disabled
  | none
  | resourceServer (settings : ResourceAuthSettings)

/-- What `remote.toml` holds. -/
structure RemoteSettings where
  provider : Provider
  auth : AuthSettings
  networkTrust : Option NetworkTrustConfig

/-! ## Writing -/

/-- `_toml_quote`. -/
def tomlQuote (value : List Char) : List Char := Encoding.quote value

/-- `_toml_string_array`. -/
def tomlStringArray (values : List (List Char)) : List Char :=
  '[' :: ([',', ' '].intercalate (values.map tomlQuote) ++ [']'])

/-- `f"{name} = {value}\n"`. -/
def line (name : String) (value : List Char) : List Char :=
  name.toList ++ " = ".toList ++ value ++ ['\n']

def integer (n : ℕ) : List Char := Nat.toDigits 10 n

/-- The lines of the authentication. -/
def authText : AuthSettings → List Char
  | .disabled => []
  | .none => "\n[auth]\n".toList ++ line "version" (integer resourceAuthConfigVersion) ++
      line "mode" (tomlQuote authModeNone.toList)
  | .resourceServer auth => "\n[auth]\n".toList ++
      line "version" (integer resourceAuthConfigVersion) ++
      line "mode" (tomlQuote resourceAuthMode.toList) ++
      line "verification_contract" (tomlQuote contractId.toList) ++
      line "authorization_server_issuer" (tomlQuote auth.issuer) ++
      line "canonical_resource_uri" (tomlQuote auth.resource) ++
      line "validation_resource_id" (tomlQuote auth.validationResourceId) ++
      line "validation_timeout_ms" (integer 2000)

/-- The lines of the network trust. -/
def networkTrustText : Option NetworkTrustConfig → List Char
  | .none => []
  | some trust => "\n[network_trust]\n".toList ++ line "mode" (tomlQuote trust.mode.toList) ++
      line "allowed_hosts" (tomlStringArray trust.allowedHosts) ++
      line "allowed_origins" (tomlStringArray trust.allowedOrigins)

/-- The text that `_write_remote_config` writes. -/
def writeRemoteConfig (s : RemoteSettings) : List Char :=
  "[remote]\n".toList ++ line "version" (integer remoteConfigVersion) ++
    line "transport" (tomlQuote s.provider.providerId.toList) ++ authText s.auth ++
      networkTrustText s.networkTrust

/-! ## Reading -/

/-- `LifecycleError`: a message, the same with the `repr` of a value behind it, or with what was
raised before. -/
inductive LifecycleError
  | message (text : String)
  | value (text : String) (value : Option Toml)
  | networkTrust (cause : TrustError)
  | resourceServer

/-- `value == n`. -/
def equals (value : Option Toml) (n : ℤ) : Bool :=
  match value with
  | some (.int m) => m = n
  | some (.bool b) => (if b then 1 else 0) = n
  | some (.float (.finite q)) => q = n
  | _ => false

/-- `raise LifecycleError(…)`. -/
def refuse {α : Type} (text : String) : Except LifecycleError α := .error (.message text)

/-- The names that are not allowed, in their order. -/
def unexpected (table : Toml.Table) (allowed : List String) : List String :=
  Text.sortedSet ((table.map Prod.fst).filter fun name => !(allowed.contains name))

def unsupportedFields {α : Type} (names : List String) : Except LifecycleError α :=
  refuse ("remote auth configuration contains unsupported fields: " ++ ", ".intercalate names)

/-- `get_transport_provider`. -/
def getTransportProvider (providerId : String) : Except LifecycleError Provider :=
  if providerId = "openai-tunnel" then .ok .openaiTunnel
  else if providerId = "cloudflare" then .ok .cloudflareTunnel
  else refuse ("unsupported remote transport: " ++ providerId)

section Parsed

variable (parsed : Toml.Table)

/-- `load_transport_provider`. -/
def loadTransportProvider : Except LifecycleError Provider :=
  match Toml.get parsed "remote" with
  | some (.table remote) =>
    if !equals (Toml.get remote "version") remoteConfigVersion then
      .error (.value "unsupported remote transport configuration version: "
        (Toml.get remote "version"))
    else match Toml.get remote "transport" with
      | some (.str transport) =>
        if transport = "" then refuse "remote.transport must be a non-empty string"
        else getTransportProvider transport
      | _ => refuse "remote.transport must be a non-empty string"
  | _ => refuse "remote transport configuration must contain [remote]"

/-- `_build_resource_auth_settings`. -/
def buildResourceAuthSettings (issuer resource validationResourceId : List Char) :
    Except LifecycleError ResourceAuthSettings :=
  if valid : ValidAuth issuer resource validationResourceId then
    .ok { issuer, resource, validationResourceId, valid }
  else .error .resourceServer

/-- The settings of a resource server. -/
def parseResourceServer (auth : Toml.Table) : Except LifecycleError AuthSettings :=
  let names := unexpected auth ["version", "mode", "verification_contract",
    "authorization_server_issuer", "canonical_resource_uri", "validation_resource_id",
    "validation_timeout_ms"]
  if names ≠ [] then unsupportedFields names
  else if !equals (Toml.get auth "version") resourceAuthConfigVersion then
    .error (.value "unsupported remote auth configuration version: " (Toml.get auth "version"))
  else if ((Toml.get auth "verification_contract").bind Toml.str?) ≠ some contractId then
    refuse "remote auth verification_contract must be mcp-rs-verification-v1"
  else if !equals (Toml.get auth "validation_timeout_ms") 2000 then
    refuse "remote auth validation_timeout_ms must be exactly 2000"
  else match Toml.get auth "authorization_server_issuer", Toml.get auth "canonical_resource_uri",
      Toml.get auth "validation_resource_id" with
    | some (.str issuer), some (.str resource), some (.str validationResourceId) =>
      if issuer = "" ∨ resource = "" ∨ validationResourceId = "" then
        refuse ("remote auth issuer, canonical resource URI, and validation resource id are " ++
          "required")
      else (buildResourceAuthSettings issuer.toList resource.toList
        validationResourceId.toList).map .resourceServer
    | _, _, _ =>
      refuse "remote auth issuer, canonical resource URI, and validation resource id are required"

/-- `_parse_auth_configuration`. -/
def parseAuthConfiguration : Except LifecycleError AuthSettings :=
  match Toml.get parsed "auth" with
  | .none => .ok .disabled
  | some (.table auth) =>
    let mode := Toml.get auth "mode"
    if mode.bind Toml.str? = some authModeNone then
      let names := unexpected auth ["version", "mode"]
      if names ≠ [] then unsupportedFields names
      else if (Toml.get auth "version").isSome &&
          !equals (Toml.get auth "version") resourceAuthConfigVersion then
        .error (.value "unsupported remote auth configuration version: " (Toml.get auth "version"))
      else .ok .none
    else if mode.bind Toml.str? ≠ some resourceAuthMode then
      .error (.value "unsupported remote auth mode: " mode)
    else parseResourceServer auth
  | some _ => refuse "remote auth configuration must be a TOML table"

/-- `_parse_network_trust_configuration`. -/
def parseNetworkTrustConfiguration : Except LifecycleError (Option NetworkTrustConfig) :=
  match Toml.get parsed "network_trust" with
  | .none => .ok .none
  | some (.table entries) =>
    match NetworkTrustConfig.fromMapping (.table entries) with
    | .error cause => .error (.networkTrust cause)
    | .ok trust => .ok (some trust)
  | some _ => refuse "remote network_trust configuration must be a TOML table"

/-- `load_remote_security_settings`, of a file that is there. -/
def loadRemoteSecuritySettings :
    Except LifecycleError (AuthSettings × Option NetworkTrustConfig) := do
  let auth ← parseAuthConfiguration parsed
  let trust ← parseNetworkTrustConfiguration parsed
  match auth, trust with
  | .none, .none => refuse ("auth.mode = none requires network_trust.mode = cloudflare-chatgpt " ++
      "with non-empty allowed_hosts")
  | auth, trust => .ok (auth, trust)

end Parsed

/-- `read_text`, which joins the line breaks of every platform. -/
def universalNewlines : List Char → List Char
  | [] => []
  | '\r' :: '\n' :: s => '\n' :: universalNewlines s
  | '\r' :: s => '\n' :: universalNewlines s
  | c :: s => c :: universalNewlines s

/-- `_read_remote_config`, `load_transport_provider` and `load_remote_security_settings`. -/
def loadRemoteConfig (text : List Char) : Except LifecycleError RemoteSettings :=
  match Tomllib.loads (universalNewlines text) with
  | .none => refuse "remote transport configuration is invalid"
  | some parsed => do
    let provider ← loadTransportProvider parsed
    let (auth, networkTrust) ← loadRemoteSecuritySettings parsed
    return { provider, auth, networkTrust }

end RemoteConfig

end CodemcpBridge

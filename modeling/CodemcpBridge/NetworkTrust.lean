import CodemcpBridge.Config.Load
import CodemcpBridge.Errors
import CodemcpBridge.Net.Urls
import CodemcpBridge.ResourceAuth

/-!
# Network trust

The allowlists of host names and origins in their canonical forms, and the middleware that lets a
request through if its `Host` and its `Origin` are on them.  Texts are lists of characters.
-/

namespace CodemcpBridge

namespace NetworkTrust

open Net

/-! ## Canonical forms -/

/-- `NetworkTrustConfigError`. -/
inductive TrustError
  | refused (message : String)
  /-- `allowed_origins entry is malformed`, and why. -/
  | malformed (cause : ValueError)
  | unsupportedMode (mode : Option Toml)

/-- `raise NetworkTrustConfigError(message)`. -/
def refuse {α : Type} (message : String) : Except TrustError α := .error (.refused message)

/-- `if c: raise NetworkTrustConfigError(message)`. -/
def refuseIf (c : Prop) [Decidable c] (message : String) : Except TrustError Unit :=
  if c then refuse message else .ok ()

/-- `text.strip()`. -/
def strip (text : List Char) : List Char :=
  ((text.dropWhile isBlank).reverse.dropWhile isBlank).reverse

def isControl (c : Char) : Bool := c.toNat < 0x20 || c.toNat == 0x7f

/-- `_require_text`; a value that is no string counts as the empty one. -/
def requireText (value : List Char) (field : String) : Except TrustError (List Char) := do
  refuseIf (value = []) (field ++ " must be a non-empty string")
  refuseIf (value ≠ strip value) (field ++ " must not contain leading or trailing whitespace")
  refuseIf (value.any isControl) (field ++ " must not contain control characters")
  return value

/-- A match of `_HOST_LABEL_PATTERN`. -/
def isLabel (label : List Char) : Bool :=
  let inner (c : Char) : Bool := c.isAlphanum || c == '-'
  label.all inner && (label.head?.any Char.isAlphanum && label.getLast?.any Char.isAlphanum) &&
    label.length ≤ 63

/-- `_canonicalize_hostname`. -/
def canonicalizeHostname (value : List Char) (field : String) (allowIp : Bool) :
    Except TrustError (List Char) := do
  let hostname ← requireText value field
  refuseIf ('*' ∈ hostname) (field ++ " must not contain wildcard characters")
  refuseIf (253 < hostname.length) (field ++ " exceeds the maximum hostname length")
  match ipAddress hostname with
  | some address => do
    refuseIf (!allowIp) (field ++ " must be a hostname, not an IP address")
    return address.text
  | none => do
    refuseIf (¬ (hostname.splitOn '.').all isLabel) (field ++ " must be a valid hostname")
    return hostname.map SplitResult.lowerChar

/-- `canonicalize_allowed_host`. -/
def canonicalizeAllowedHost (value : List Char) : Except TrustError (List Char) := do
  let hostname ← requireText value "allowed_hosts entry"
  refuseIf (hostname.any fun c => [':', '/', '?', '#', '@'].contains c)
    ("allowed_hosts entries must be hostnames without scheme, port, path, query, " ++
      "fragment, or credentials")
  canonicalizeHostname hostname "allowed_hosts entry" false

/-- `host_part`. -/
def hostPart (hostname canonicalHostname : List Char) : List Char :=
  match ipAddress hostname with
  | some (.v6 _ _) => '[' :: canonicalHostname ++ [']']
  | _ => canonicalHostname

/-- `port_suffix`. -/
def portSuffix (port : Option ℕ) : List Char :=
  match port with
  | none => []
  | some port => if port = 443 then [] else ':' :: Nat.toDigits 10 port

/-- `raise NetworkTrustConfigError(f"allowed_origins entry is malformed: {exc}") from exc`. -/
def orMalformed {α : Type} (result : Except ValueError α) : Except TrustError α :=
  result.mapError .malformed

/-- `canonicalize_allowed_origin`. -/
def canonicalizeAllowedOrigin (value : List Char) : Except TrustError (List Char) := do
  let origin ← requireText value "allowed_origins entry"
  refuseIf (origin.map SplitResult.lowerChar = "null".toList)
    "allowed_origins entries must not be the null origin"
  refuseIf ('*' ∈ origin) "allowed_origins entries must not contain wildcard characters"
  let parsed ← orMalformed (urlsplit origin)
  let port ← orMalformed parsed.port
  refuseIf (parsed.scheme.map Char.toLower ≠ "https".toList)
    "allowed_origins entries must use HTTPS"
  match parsed.hostname with
  | none => refuse "allowed_origins entries must contain a hostname"
  | some hostname => do
    refuseIf parsed.hasCredentials "allowed_origins entries must not contain credentials"
    refuseIf (parsed.path ≠ [] ∨ '?' ∈ origin ∨ '#' ∈ origin)
      "allowed_origins entries must not contain a path, query, or fragment"
    refuseIf (port.any fun port => port < 1 ∨ 65535 < port)
      "allowed_origins port must be between 1 and 65535"
    let canonicalHostname ← canonicalizeHostname hostname "allowed_origins hostname" true
    return "https://".toList ++ hostPart hostname canonicalHostname ++ portSuffix port

/-! ## Configuration -/

/-- The text of an entry; one that is no string counts as the empty one. -/
def entryText : Toml → List Char
  | .str s => s.toList
  | _ => []

/-- `_canonicalize_entries` once its value is an array. -/
def canonicalizeEach (field : String) (canonicalizer : List Char → Except TrustError (List Char))
    (canonical : List (List Char)) : List Toml → Except TrustError (List (List Char))
  | [] => .ok canonical
  | entry :: entries => do
    let canonicalEntry ← canonicalizer (entryText entry)
    refuseIf (canonicalEntry ∈ canonical)
      (field ++ " contains a duplicate entry: " ++ String.ofList canonicalEntry)
    canonicalizeEach field canonicalizer (canonical ++ [canonicalEntry]) entries

/-- `_canonicalize_entries`. -/
def canonicalizeEntries (value : Toml) (field : String)
    (canonicalizer : List Char → Except TrustError (List Char)) (requireNonempty : Bool) :
    Except TrustError (List (List Char)) :=
  match value with
  | .array entries =>
    if requireNonempty && entries.isEmpty then refuse (field ++ " must contain at least one entry")
    else canonicalizeEach field canonicalizer [] entries
  | _ => refuse (field ++ " must be an array of strings")

/-- `NetworkTrustConfig`. -/
structure NetworkTrustConfig where
  mode : String
  allowedHosts : List (List Char)
  allowedOrigins : List (List Char)
  deriving DecidableEq

/-- `NetworkTrustConfig(mode, allowed_hosts, allowed_origins)`. -/
def NetworkTrustConfig.make (mode : Option Toml) (allowedHosts allowedOrigins : Toml) :
    Except TrustError NetworkTrustConfig := do
  match mode with
  | some (.str "cloudflare-chatgpt") => do
    let hosts ← canonicalizeEntries allowedHosts "allowed_hosts" canonicalizeAllowedHost true
    let origins ←
      canonicalizeEntries allowedOrigins "allowed_origins" canonicalizeAllowedOrigin false
    return { mode := "cloudflare-chatgpt", allowedHosts := hosts, allowedOrigins := origins }
  | mode => .error (.unsupportedMode mode)

/-- `NetworkTrustConfig.from_mapping`; the keys of a table come in their order. -/
def NetworkTrustConfig.fromMapping (raw : Toml) : Except TrustError NetworkTrustConfig :=
  match raw with
  | .table entries =>
    let unexpected := Text.sortedSet ((entries.map Prod.fst).filter fun key =>
      !(["mode", "allowed_hosts", "allowed_origins"].contains key))
    if unexpected ≠ [] then
      refuse ("network_trust configuration contains unsupported fields: " ++
        ", ".intercalate unexpected)
    else NetworkTrustConfig.make (Toml.get entries "mode")
      ((Toml.get entries "allowed_hosts").getD (.array []))
      ((Toml.get entries "allowed_origins").getD (.array []))
  | _ => refuse "network_trust configuration must be a TOML table"

/-- `as_mapping`. -/
def NetworkTrustConfig.asMapping (c : NetworkTrustConfig) : Toml :=
  let texts (entries : List (List Char)) : Toml :=
    .array (entries.map fun entry => .str (String.ofList entry))
  .table [("mode", .str c.mode), ("allowed_hosts", texts c.allowedHosts),
    ("allowed_origins", texts c.allowedOrigins)]

/-! ## Requests -/

/-- What may stand for a text in a scope. -/
inductive Raw
  | bytes (b : List UInt8)
  | text (s : List Char)
  | other

/-- An entry of the headers. -/
inductive HeaderItem
  | pair (name value : Raw)
  /-- Neither a tuple nor a list of two. -/
  | malformed

/-- An ASGI scope. -/
structure Scope where
  type : String
  headers : List HeaderItem
  authority : Option Raw
  /-- What stands under `AUTH_SCOPE_KEY`. -/
  principal : Option AuthContext

/-- `_header_text`. -/
def headerText : Raw → Option (List Char)
  | .bytes b => some (b.map fun byte => Char.ofNat byte.toNat)
  | .text s => some s
  | .other => none

/-- `_header_values`. -/
def headerValues (scope : Scope) (name : String) : List (Option (List Char)) :=
  scope.headers.flatMap fun item => match item with
    | .malformed => [none]
    | .pair rawName rawValue => match headerText rawName with
      | none => []
      | some headerName =>
        if headerName.map SplitResult.lowerChar = name.toList then [headerText rawValue] else []

/-- `_canonicalize_request_host`. -/
def canonicalizeRequestHost (value : Option (List Char)) : Option (List Char) :=
  match value with
  | none => none
  | some value =>
    if value = [] ∨ value ≠ strip value then none
    else match value.count ':' with
      | 0 => (canonicalizeAllowedHost value).toOption
      | 1 =>
        let (hostname, port) := Encoding.partition ':' value
        if port ≠ some "443".toList then none else (canonicalizeAllowedHost hostname).toOption
      | _ => none

/-- `_request_host`, once the values are read. -/
def agreedHost (hostValues authorityValues : List (Option (List Char))) : Option (List Char) :=
  if 1 < hostValues.length ∨ 1 < authorityValues.length then none
  else match hostValues, authorityValues with
    | [], [] => none
    | hostValue :: _, [] => canonicalizeRequestHost hostValue
    | [], authorityValue :: _ => canonicalizeRequestHost authorityValue
    | hostValue :: _, authorityValue :: _ =>
      match canonicalizeRequestHost hostValue, canonicalizeRequestHost authorityValue with
      | some host, some authority => if host ≠ authority then none else some host
      | _, _ => none

/-- `_request_host`. -/
def requestHost (scope : Scope) : Option (List Char) :=
  agreedHost (headerValues scope "host") (headerValues scope ":authority" ++
    ((scope.authority.bind headerText).map some).toList)

/-- `_request_origin_allowed`. -/
def requestOriginAllowed (scope : Scope) (allowedOrigins : List (List Char)) : Bool :=
  match headerValues scope "origin" with
  | [] => true
  | [some value] => match canonicalizeAllowedOrigin value with
    | .ok canonical => canonical ∈ allowedOrigins
    | .error _ => false
  | _ => false

/-- What the middleware does with a request. -/
inductive Event
  /-- The wrapped application is called. -/
  | app (scope : Scope)
  /-- A JSON response is sent, not to be stored. -/
  | respond (status : ℕ) (error : String)

/-- `NetworkTrustMiddleware.__call__`. -/
def middleware (config : NetworkTrustConfig) (resource : Option String) (scope : Scope) :
    List Event :=
  if scope.type ≠ "http" then [.app scope]
  else match requestHost scope with
    | none => [.respond 403 "host_not_allowed"]
    | some host =>
      if host ∉ config.allowedHosts then [.respond 403 "host_not_allowed"]
      else if !requestOriginAllowed scope config.allowedOrigins then
        [.respond 403 "origin_not_allowed"]
      else [.app { scope with principal := some (.networkTrusted resource) }]

end NetworkTrust

end CodemcpBridge

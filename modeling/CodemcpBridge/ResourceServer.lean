import CodemcpBridge.Encoding.JsonText
import CodemcpBridge.NetworkTrust

/-!
# The OAuth resource server

The gate before the MCP transport: the bearer token of a request, the online validation of it, the
checks of the answer, and the response where the request does not pass.  Texts that come out of JSON
are sequences of code points.
-/

namespace CodemcpBridge

namespace ResourceServer

open Net NetworkTrust JsonText

/-! ## Configuration -/

/-- `_validate_issuer`. -/
def validateIssuer (value : List Char) : Bool :=
  match urlsplit value with
  | .error _ => false
  | .ok parsed => parsed.scheme = "https".toList && parsed.hostname.isSome &&
    !parsed.hasCredentials &&
      (parsed.path = [] || parsed.path = ['/']) && parsed.query = [] && parsed.fragment = [] &&
      !(value.getLast? == some '/')

/-- `_validate_resource`. -/
def validateResource (value : List Char) : Bool :=
  match urlsplit value with
  | .error _ => false
  | .ok parsed => parsed.scheme = "https".toList && parsed.hostname.isSome &&
    !parsed.hasCredentials &&
      parsed.path.head? == some '/' && parsed.query = [] && parsed.fragment = [] &&
      value.all (·.toNat < 128) && !value.any (fun c => c.toNat < 0x21 || c.toNat == 0x7f) &&
      !value.contains '"' && !value.contains '\\'

/-- `ResourceServerValidationConfig`, whose timeout and contract version have one value each. -/
structure ResourceServerValidationConfig where
  issuer : List Char
  resource : List Char
  validationResourceId : List Char
  validationSecret : List Char
  issuer_ok : validateIssuer issuer = true
  resource_ok : validateResource resource = true
  id_ok : validationResourceId ≠ [] ∧ ':' ∉ validationResourceId ∧
    ∀ c ∈ validationResourceId, 0x20 ≤ c.toNat
  secret_ok : validationSecret ≠ [] ∧ ∀ c ∈ validationSecret, 0x20 ≤ c.toNat

def contractVersion : String := "1"

/-- `validation_endpoint`. -/
def ResourceServerValidationConfig.validationEndpoint (config : ResourceServerValidationConfig) :
    List Char :=
  config.issuer ++ "/mcp/resource-server/validate".toList

/-- `urlunsplit` of parts with an authority and without a query. -/
def urlunsplit (scheme netloc url : List Char) : List Char :=
  scheme ++ "://".toList ++ netloc ++
    (if url ≠ [] ∧ url.head? ≠ some '/' then '/' :: url else url)

/-- `protected_resource_metadata_url`; nothing where a `ValueError` is raised. -/
def protectedResourceMetadataUrl (resource : List Char) : Option (List Char) :=
  if !validateResource resource then none
  else match urlsplit resource with
    | .error _ => none
    | .ok parsed =>
      let resourcePath := if parsed.path = ['/'] then [] else parsed.path
      some (urlunsplit parsed.scheme parsed.netloc
        ("/.well-known/oauth-protected-resource".toList ++ resourcePath))

/-! ## The credential -/

/-- A header: its name and its value. -/
abbrev RawHeader := List UInt8 × List UInt8

/-- `bytes.decode("latin-1")`. -/
def latin1 (bytes : List UInt8) : List Char := bytes.map fun byte => Char.ofNat byte.toNat

/-- `_extract_bearer`. -/
def extractBearer (headers : List RawHeader) : Option (List Char) :=
  let authorizationValues := headers.filterMap fun h =>
    if (latin1 h.1).map SplitResult.lowerChar = "authorization".toList then some (latin1 h.2)
    else none
  match authorizationValues with
  | [value] => match Encoding.partition ' ' value with
    | (_, none) => none
    | (scheme, some token) =>
      if scheme.map SplitResult.lowerChar ≠ "bearer".toList ∨ token = [] ∨ strip token ≠ token then
        none
      else if token.any fun c => c.toNat < 0x21 || c.toNat == 0x7f then none
      else some token
  | _ => none

/-! ## Validation -/

/-- What the requester is called with. -/
structure ValidationRequest where
  endpoint : List Char
  resourceId : List Char
  verificationSecret : List Char
  token : List Char
  resource : List Char

/-- `ValidationHTTPResponse`. -/
structure ValidationHTTPResponse where
  statusCode : ℕ
  headers : List (String × List Char)
  body : List UInt8

/-- How a call of the requester ends within its time. -/
inductive RequestOutcome
  | response (r : ValidationHTTPResponse)
  /-- `VerificationServiceUnavailable`. -/
  | unavailable
  /-- Any other `Exception`, that of the timeout among them. -/
  | exception
  /-- What is raised and is no `Exception`. -/
  | baseException

/-- What `validate` raises. -/
inductive ValidationError
  | invalidBearerCredential
  | verificationServiceUnavailable (message : String)
  /-- An exception of another class. -/
  | other
  deriving DecidableEq

/-- `AuthenticatedPrincipal`, as the answer's texts give it. -/
structure Principal where
  contractVersion : Codes
  issuer : Codes
  resource : Codes
  subject : Codes
  clientId : Codes
  scopes : List Codes
  issuedAt : ℤ
  expiresAt : ℤ
  deriving DecidableEq

/-- `raise VerificationServiceUnavailable(message)`. -/
def unavailable {α : Type} (message : String) : Except ValidationError α :=
  .error (.verificationServiceUnavailable message)

/-- `if c: raise VerificationServiceUnavailable(message)`. -/
def unavailableIf (c : Prop) [Decidable c] (message : String) : Except ValidationError Unit :=
  if c then unavailable message else .ok ()

/-- `response.headers.get(name, "")`. -/
def ValidationHTTPResponse.header (r : ValidationHTTPResponse) (name : String) : List Char :=
  ((r.headers.find? fun h => h.1 == name).map Prod.snd).getD []

/-- The media type without its parameters. -/
def ValidationHTTPResponse.contentType (r : ValidationHTTPResponse) : List Char :=
  (strip (Encoding.partition ';' (r.header "content-type")).1).map SplitResult.lowerChar

/-- The directives of `Cache-Control`. -/
def ValidationHTTPResponse.directives (r : ValidationHTTPResponse) : List (List Char) :=
  (((r.header "cache-control").splitOn ',').map strip |>.filter (· ≠ [])).map
    (List.map SplitResult.lowerChar)

/-- The members of the answer. -/
abbrev Payload := List (Codes × Value)

namespace Payload

variable (payload : Payload) (key : String)

/-- `payload.get(key)`. -/
def get : Option Value := Value.get? payload (codes key)

/-- The value under a key where it is a string. -/
def text : Option Codes :=
  match get payload key with
  | some (.str s) => some s
  | _ => none

/-- The value under a key where it is an integer and no boolean. -/
def integer : Option ℤ :=
  match get payload key with
  | some (.int n) => some n
  | _ => none

/-- The value under a key where it is a list of non-empty strings. -/
def texts : Option (List Codes) :=
  match get payload key with
  | some (.arr xs) => xs.mapM fun x => match x with
    | .str [] => none
    | .str s => some s
    | _ => none
  | _ => none

/-- A string under a key that must not be empty. -/
def requireText (message : String) : Except ValidationError Codes :=
  match text payload key with
  | some (c :: cs) => .ok (c :: cs)
  | _ => unavailable message

end Payload

/-- `int(time.time())`. -/
def truncate (time : ℚ) : ℤ := time.num.tdiv time.den

section Validation

variable (config : ResourceServerValidationConfig) (limits : Limits) (time : ℚ)

/-- The principal of an active answer. -/
def readPrincipal (payload : Payload) : Except ValidationError Principal := do
  unavailableIf (payload.text "issuer" ≠ some (config.issuer.map Char.toNat) ∨
    payload.text "resource" ≠ some (config.resource.map Char.toNat))
    "validation response identity does not match local configuration"
  let subject ← payload.requireText "subject" "validation response subject is invalid"
  let clientId ← payload.requireText "client_id" "validation response client_id is invalid"
  match payload.texts "scopes" with
  | none => unavailable "validation response scopes are invalid"
  | some scopes => do
    unavailableIf (¬ scopes.Nodup) "validation response scopes are invalid"
    match payload.integer "issued_at", payload.integer "expires_at" with
    | some issuedAt, some expiresAt => do
      unavailableIf (expiresAt ≤ truncate time) "validation response token is already expired"
      return {
        contractVersion := codes contractVersion
        issuer := config.issuer.map Char.toNat
        resource := config.resource.map Char.toNat
        subject, clientId, scopes, issuedAt, expiresAt }
    | _, _ => unavailable "validation response token timestamps are invalid"

/-- The verdict of an answer that is an object; nothing where the credential is inactive. -/
def readPayload (payload : Payload) : Except ValidationError (Option Principal) := do
  unavailableIf (payload.text "contract_version" ≠ some (codes contractVersion))
    "validation response contract version is unsupported"
  match payload.get "active" with
  | some (.bool false) => .ok none
  | some (.bool true) => (readPrincipal config time payload).map some
  | _ => unavailable "validation response active field is invalid"

/-- `_validate_response`. -/
def validateResponse (response : ValidationHTTPResponse) :
    Except ValidationError (Option Principal) := do
  unavailableIf (response.statusCode ≠ 200) "validation service returned a non-200 response"
  unavailableIf (response.contentType ≠ "application/json".toList)
    "validation service returned an unexpected content type"
  unavailableIf ("no-store".toList ∉ response.directives)
    "validation response is missing Cache-Control: no-store"
  match loads limits (response.body.map UInt8.toNat) with
  | .error .malformed => unavailable "validation service returned malformed JSON"
  | .error .overrun => .error .other
  | .ok (.obj payload) => readPayload config time payload
  | .ok _ => unavailable "validation response must be a JSON object"

/-- What is asked about a token. -/
def validationRequest (token : List Char) : ValidationRequest :=
  { endpoint := config.validationEndpoint, resourceId := config.validationResourceId,
    verificationSecret := config.validationSecret, token, resource := config.resource }

variable (requester : ValidationRequest → RequestOutcome)

/-- `validate`. -/
def validate (token : List Char) : Except ValidationError (Option Principal) :=
  if token = [] then .error .invalidBearerCredential
  else match requester (validationRequest config token) with
    | .unavailable => unavailable "validation service is unavailable"
    | .exception => unavailable "validation service is unavailable"
    | .baseException => .error .other
    | .response response => validateResponse config limits time response

end Validation

/-! ## The gate -/

/-- A response that is sent. -/
structure Response where
  status : ℕ
  headers : List (String × List Char)
  body : List Char
  deriving DecidableEq

/-- `_send_auth_response`; nothing where the challenge is no ASCII text. -/
def sendAuthResponse (status : ℕ) (challenge : Option (List Char)) : Option Response :=
  let body := if status = 401 then "\x7b\"error\":\"unauthorized\"\x7d".toList
    else "\x7b\"error\":\"authorization_service_unavailable\"\x7d".toList
  let headers := [("content-type", "application/json".toList), ("cache-control", "no-store".toList),
    ("content-length", Nat.toDigits 10 body.length)]
  match challenge with
  | none => some { status, headers, body }
  | some challenge =>
    if challenge.all (·.toNat < 128) then
      some { status, headers := headers ++ [("www-authenticate", challenge)], body }
    else none

/-- How the gate leaves a request. -/
inductive Outcome
  /-- The principal is in the scope. -/
  | admitted (principal : Principal)
  /-- One response is sent. -/
  | responded (response : Response)
  /-- An exception goes out. -/
  | raised
  deriving DecidableEq

/-- `_send_auth_response` of the authenticator. -/
def respond (config : ResourceServerValidationConfig) (status : ℕ) (challenge : Bool) : Outcome :=
  let value := if challenge then
      (protectedResourceMetadataUrl config.resource).map fun metadataUrl =>
        some ("Bearer resource_metadata=\"".toList ++ metadataUrl ++ ['"'])
    else some none
  match value.bind (sendAuthResponse status) with
  | some response => .responded response
  | none => .raised

/-- What becomes of the end of the validation. -/
def conclude (config : ResourceServerValidationConfig) :
    Except ValidationError (Option Principal) → Outcome
  | .error .invalidBearerCredential => respond config 401 true
  | .error (.verificationServiceUnavailable _) => respond config 503 false
  | .error .other => .raised
  | .ok none => respond config 401 true
  | .ok (some principal) => .admitted principal

/-- `OAuthResourceServerAuthenticator.__call__`. -/
def authenticate (config : ResourceServerValidationConfig) (limits : Limits) (time : ℚ)
    (requester : ValidationRequest → RequestOutcome) (headers : List RawHeader) : Outcome :=
  match extractBearer headers with
  | none => respond config 401 true
  | some token => conclude config (validate config limits time requester token)

end ResourceServer

end CodemcpBridge

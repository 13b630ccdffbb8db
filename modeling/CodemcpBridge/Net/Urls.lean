import CodemcpBridge.Net.Addresses

/-!
# URLs

`urlsplit` and the parts of an authority that it gives on request: the host name, the port and
whether there are credentials.
-/

namespace Net

/-- What a URL is refused for. -/
inductive ValueError
  | invalidIpv6Url
  | invalidIpvFuture
  | notAnAddress (text : List Char)
  | bracketedIpv4
  /-- The authority holds a character that stands for one of `/?#@:`. -/
  | unsafeNetloc (netloc : List Char)
  | portText (port : List Char)
  /-- More digits than `int` converts. -/
  | tooManyDigits (count : ℕ)
  | portRange
  deriving DecidableEq

structure SplitResult where
  scheme : List Char
  netloc : List Char
  path : List Char
  query : List Char
  fragment : List Char
  deriving DecidableEq

/-! ## Authorities -/

/-- `str.rpartition`: what stands before the last separator, if there is one, and what stands after
it. -/
def rpartition (sep : Char) (text : List Char) : Option (List Char) × List Char :=
  match Encoding.partition sep text.reverse with
  | (after, some before) => (some before.reverse, after.reverse)
  | (_, none) => (none, text)

/-- A match of `\Av[a-fA-F0-9]+\..+\Z`. -/
def isIpvFuture : List Char → Bool
  | 'v' :: rest =>
    let (version, more) := rest.span isHexDigit
    version ≠ [] && more.head? == some '.' && 1 < more.length && !more.contains '\n'
  | _ => false

/-- `_check_bracketed_host`. -/
def checkBracketedHost (host : List Char) : Except ValueError Unit :=
  if host.head? = some 'v' then if isIpvFuture host then .ok () else .error .invalidIpvFuture
  else match ipAddress host with
    | none => .error (.notAnAddress host)
    | some (.v4 _) => .error .bracketedIpv4
    | some (.v6 _ _) => .ok ()

/-- `_check_bracketed_netloc`. -/
def checkBracketedNetloc (netloc : List Char) : Except ValueError Unit :=
  let (_, hostAndPort) := rpartition '@' netloc
  match Encoding.partition '[' hostAndPort with
  | (before, some bracketed) =>
    if before ≠ [] then .error .invalidIpv6Url
    else
      let (host, port) := Encoding.partition ']' bracketed
      let port := port.getD []
      if port ≠ [] ∧ port.head? ≠ some ':' then .error .invalidIpv6Url else checkBracketedHost host
  | (_, none) => checkBracketedHost (Encoding.partition ':' hostAndPort).1

/-- A character whose compatibility form holds one of `/?#@:`. -/
def standsForDelimiter (c : Char) : Bool :=
  [0x2047, 0x2048, 0x2049, 0x2100, 0x2101, 0x2105, 0x2106, 0x2a74, 0xfe13, 0xfe16, 0xfe55, 0xfe56,
    0xfe5f, 0xfe6b, 0xff03, 0xff0f, 0xff1a, 0xff1f, 0xff20].contains c.toNat

/-- What `urlsplit` checks of an authority. -/
def checkNetloc (netloc : List Char) : Except ValueError Unit :=
  if ('[' ∈ netloc ∧ ']' ∉ netloc) ∨ (']' ∈ netloc ∧ '[' ∉ netloc) then .error .invalidIpv6Url
  else (if '[' ∈ netloc then checkBracketedNetloc netloc else .ok ()) >>= fun _ =>
    if netloc.any standsForDelimiter then .error (.unsafeNetloc netloc) else .ok ()

/-! ## URLs -/

def isSchemeChar (c : Char) : Bool := c.isAlphanum || c == '+' || c == '-' || c == '.'

/-- The scheme in lower case and what stands after it. -/
def splitScheme (url : List Char) : List Char × List Char :=
  match Encoding.partition ':' url with
  | (c :: scheme, some rest) =>
    if c.isAlpha ∧ (c :: scheme).all isSchemeChar then ((c :: scheme).map Char.toLower, rest)
    else ([], url)
  | _ => ([], url)

/-- The characters that end an authority. -/
def endsNetloc (c : Char) : Bool := c == '/' || c == '?' || c == '#'

/-- `urlsplit(url)`. -/
def urlsplit (url : List Char) : Except ValueError SplitResult := do
  let url := (url.dropWhile fun c => c.toNat ≤ 32).filter fun c =>
    c != '\t' && c != '\r' && c != '\n'
  let (scheme, url) := splitScheme url
  let hasNetloc := ['/', '/'].isPrefixOf url
  let netloc := if hasNetloc then (url.drop 2).takeWhile fun c => !endsNetloc c else []
  let url := if hasNetloc then (url.drop 2).dropWhile fun c => !endsNetloc c else url
  checkNetloc netloc
  let (url, fragment) := Encoding.partition '#' url
  let (path, query) := Encoding.partition '?' url
  return { scheme, netloc, path, query := query.getD [], fragment := fragment.getD [] }

namespace SplitResult

/-- `_hostinfo`: the host and the text of the port. -/
def hostinfo (parsed : SplitResult) : List Char × Option (List Char) :=
  let (_, hostinfo) := rpartition '@' parsed.netloc
  let (host, port) := match Encoding.partition '[' hostinfo with
    | (_, some bracketed) =>
      let (host, port) := Encoding.partition ']' bracketed
      (host, (Encoding.partition ':' (port.getD [])).2)
    | (_, none) => Encoding.partition ':' hostinfo
  (host, if port = some [] then none else port)

/-- `str.lower`, as far as what it makes ASCII letters of. -/
def lowerChar (c : Char) : Char := if c = '\u212a' then 'k' else c.toLower

/-- `hostname`: the scope of an address stays as it is written. -/
def hostname (parsed : SplitResult) : Option (List Char) :=
  if parsed.hostinfo.1 = [] then none
  else match Encoding.partition '%' parsed.hostinfo.1 with
    | (host, none) => some (host.map lowerChar)
    | (host, some zone) => some (host.map lowerChar ++ '%' :: zone)

/-- `port`. -/
def port (parsed : SplitResult) : Except ValueError (Option ℕ) :=
  match parsed.hostinfo.2 with
  | none => .ok none
  | some port =>
    if ¬ port.all Char.isDigit then .error (.portText port)
    else if 4300 < port.length then .error (.tooManyDigits port.length)
    else if 65535 < valueOf 10 port then .error .portRange
    else .ok (some (valueOf 10 port))

/-- `username is not None or password is not None`. -/
def hasCredentials (parsed : SplitResult) : Bool := (rpartition '@' parsed.netloc).1.isSome

end SplitResult

example : (urlsplit "HTTPS://[FE80::1%Eth0]:8443/mcp?q#f".toList).toOption.map (fun p =>
    (p.hostname.map String.ofList, p.port.toOption, String.ofList p.path)) =
      some (some "fe80::1%Eth0", some (some 8443), "/mcp") := by
  decide +kernel

end Net

import CodemcpBridge.Config.Toml
import CodemcpBridge.Parsing.Reads

/-!
# Reading TOML

`tomllib.loads`, rule by rule: keys, strings, the other values, and the statements of a document
with the flags that keep a table from being opened twice.  Nothing is made of a text that raises an
error.
-/

namespace CodemcpBridge

/-- The double nearest to a positive number, or infinity. -/
def PyFloat.nearest (q : ℚ) : PyFloat :=
  let log : ℤ := if 1 ≤ q then Nat.log 2 ⌊q⌋₊ else -(Nat.clog 2 ⌈1 / q⌉₊ : ℤ)
  let unit : ℚ := (2 : ℚ) ^ max (log - 52) (-1074)
  let rounded := roundEven (q / unit) * unit
  if rounded < (2 : ℚ) ^ 1024 then .finite rounded else .inf false

def PyFloat.neg : PyFloat → PyFloat
  | .finite q => .finite (-q)
  | .inf negative => .inf !negative
  | .nan => .nan

namespace Tomllib

open Parsing Parse

abbrev Key := List String

/-! ## Characters -/

/-- A member of `TOML_WS`. -/
def isSpace (c : Char) : Bool := c == ' ' || c == '\t'

/-- A member of `TOML_WS_AND_NEWLINE`. -/
def isBlank (c : Char) : Bool := isSpace c || c == '\n'

/-- A member of `BARE_KEY_CHARS`. -/
def isBareKeyChar (c : Char) : Bool := c.isAlphanum || c == '-' || c == '_'

/-- A control character other than the tab. -/
def illegal (c : Char) : Bool := (c.toNat < 32 || c.toNat == 127) && c != '\t'

def illegalMultiline (c : Char) : Bool := illegal c && c != '\n'

def hexValue (c : Char) : Option ℕ :=
  if '0' ≤ c ∧ c ≤ '9' then some (c.toNat - 48)
  else if 'a' ≤ c ∧ c ≤ 'f' then some (c.toNat - 87)
  else if 'A' ≤ c ∧ c ≤ 'F' then some (c.toNat - 55)
  else none

/-- `skip_comment`. -/
def skipComment : Parse Unit := do
  match ← first with
  | some '#' => do
    let body ← many (· != '\n')
    if body.any illegal then fail else pure ()
  | _ => pure ()

/-- `skip_comments_and_array_ws`, with at most so many comments. -/
def skipComments : ℕ → Parse Unit
  | 0 => pure ()
  | n + 1 => do
    skip isBlank
    match ← first with
    | some '#' => do
      skipComment
      skipComments n
    | _ => pure ()

def skipCommentsAndArrayWs : Parse Unit := fun s => skipComments (s.length + 1) s

/-! ## Strings -/

/-- Where in a string the parser is. -/
inductive StringState
  | plain
  | escape
  /-- Hex digits that are still to come, and the value so far. -/
  | hex (left value : ℕ)
  /-- Quotes in a row, which end the string if there are three. -/
  | quotes (n : ℕ)
  /-- Between a backslash and the end of its line. -/
  | lineEnd
  /-- Behind the end of a line that a backslash has joined to the next one. -/
  | trim
  deriving DecidableEq

/-- What a step adds to the string, and the state that follows. -/
abbrev StringStep := Option (List Char × Option StringState)

def isScalar (n : ℕ) : Bool := n < 0xD800 || (0xE000 ≤ n && n ≤ 0x10FFFF)

/-- `BASIC_STR_ESCAPE_REPLACEMENTS`. -/
def escapeReplacements : List (Char × Char) :=
  [('b', '\x08'), ('t', '\t'), ('n', '\n'), ('f', '\x0c'), ('r', '\r'), ('"', '"'), ('\\', '\\')]

/-- The character behind a backslash. -/
def escapeStep (c : Char) : StringStep :=
  if c = 'u' then some ([], some (.hex 4 0))
  else if c = 'U' then some ([], some (.hex 8 0))
  else (escapeReplacements.find? fun e => e.1 == c).map fun e => ([e.2], some .plain)

/-- `parse_hex_char`, one digit of it. -/
def hexStep (left value : ℕ) (c : Char) : StringStep :=
  (hexValue c).bind fun d =>
    if 1 < left then some ([], some (.hex (left - 1) (16 * value + d)))
    else if isScalar (16 * value + d) then some ([Char.ofNat (16 * value + d)], some .plain)
    else none

/-- `parse_basic_str`. -/
def basicStep : StringState → Char → StringStep
  | .plain, c =>
    if c = '"' then some ([], none)
    else if c = '\\' then some ([], some .escape)
    else if illegal c then none
    else some ([c], some .plain)
  | .escape, c => escapeStep c
  | .hex left value, c => hexStep left value c
  | _, _ => none

/-- `parse_literal_str`. -/
def literalStep (c : Char) : StringStep :=
  if c = '\'' then some ([], none) else if illegal c then none else some ([c], some .plain)

/-- Behind some quotes: one more, or a character that makes them plain ones. -/
def quotesStep (quote : Char) (plain : Char → StringStep) (n : ℕ) (c : Char) : StringStep :=
  if c = quote then if n = 2 then some ([], none) else some ([], some (.quotes (n + 1)))
  else (plain c).map fun r => (List.replicate n quote ++ r.1, r.2)

/-- A plain character of `parse_basic_str` over several lines. -/
def multilinePlain (c : Char) : StringStep :=
  if c = '"' then some ([], some (.quotes 1))
  else if c = '\\' then some ([], some .escape)
  else if illegalMultiline c then none
  else some ([c], some .plain)

/-- `parse_basic_str` over several lines. -/
def multilineStep : StringState → Char → StringStep
  | .plain, c => multilinePlain c
  | .quotes n, c => quotesStep '"' multilinePlain n c
  | .escape, c =>
    if c = '\n' then some ([], some .trim)
    else if isSpace c then some ([], some .lineEnd)
    else escapeStep c
  | .hex left value, c => hexStep left value c
  | .lineEnd, c =>
    if isSpace c then some ([], some .lineEnd)
    else if c = '\n' then some ([], some .trim)
    else none
  | .trim, c => if isBlank c then some ([], some .trim) else multilinePlain c

/-- A plain character of a literal string over several lines. -/
def multilineLiteralPlain (c : Char) : StringStep :=
  if c = '\'' then some ([], some (.quotes 1))
  else if illegalMultiline c then none
  else some ([c], some .plain)

def multilineLiteralStep : StringState → Char → StringStep
  | .quotes n, c => quotesStep '\'' multilineLiteralPlain n c
  | _, c => multilineLiteralPlain c

/-- A quote that belongs to a string, as its end is four or five quotes long. -/
def extraQuote (quote : Char) : Parse (List Char) := do
  if ← starts [quote] then do
    char quote
    pure [quote]
  else pure []

/-- `parse_multiline_str`. -/
def multilineString (quote : Char) (step : StringState → Char → StringStep) :
    Parse (List Char) := do
  word [quote, quote, quote]
  match ← first with
  | some '\n' => char '\n'
  | _ => pure ()
  let text ← scan step .plain
  let one ← extraQuote quote
  let two ← if one = [] then pure [] else extraQuote quote
  pure (text ++ one ++ two)

/-- `parse_one_line_basic_str`. -/
def basicString : Parse (List Char) := do
  char '"'
  scan basicStep .plain

def literalString : Parse (List Char) := do
  char '\''
  scan (fun _ => literalStep) StringState.plain

/-! ## Keys -/

/-- `parse_key_part`. -/
def keyPart : Parse String := do
  match ← first with
  | some '\'' => do
    let text ← literalString
    pure (String.ofList text)
  | some '"' => do
    let text ← basicString
    pure (String.ofList text)
  | _ => do
    let text ← many isBareKeyChar
    if text = [] then fail else pure (String.ofList text)

/-- The parts of a key behind its first one. -/
def keyRest : ℕ → Parse Key
  | 0 => pure []
  | n + 1 => do
    skip isSpace
    match ← first with
    | some '.' => do
      char '.'
      skip isSpace
      let part ← keyPart
      let rest ← keyRest n
      pure (part :: rest)
    | _ => pure []

/-- `parse_key`. -/
def key : Parse Key := do
  let part ← keyPart
  let rest ← fun s => keyRest (s.length + 1) s
  pure (part :: rest)

/-! ## Dates, times and numbers -/

/-- As many digits, whose value is as it should be. -/
def digits (count : ℕ) (ok : ℕ → Bool) : Parse (List Char) := fun s =>
  let text := s.take count
  if text.length = count ∧ text.all Char.isDigit ∧
    ok (text.foldl (fun n c => 10 * n + (c.toNat - 48)) 0)
  then some (text, s.drop count) else none

/-- A match of `_TIME_RE_STR`. -/
def timeText : Parse (List Char) := do
  let hour ← digits 2 (· ≤ 23)
  char ':'
  let minute ← digits 2 (· ≤ 59)
  char ':'
  let second ← digits 2 (· ≤ 59)
  let fraction ← attempt do
    char '.'
    let text ← many Char.isDigit
    if text = [] then fail else pure ('.' :: text)
  pure (hour ++ ':' :: minute ++ ':' :: second ++ fraction.getD [])

/-- An offset from UTC. -/
def offsetText : Parse (List Char) := do
  match ← first with
  | some 'Z' => do
    char 'Z'
    pure ['Z']
  | some 'z' => do
    char 'z'
    pure ['z']
  | _ => do
    let sign ← satisfy fun c => c == '+' || c == '-'
    let hour ← digits 2 (· ≤ 23)
    char ':'
    let minute ← digits 2 (· ≤ 59)
    pure (sign :: hour ++ ':' :: minute)

def daysIn (year month : ℕ) : ℕ :=
  if month = 2 then if year % 4 = 0 ∧ (year % 100 ≠ 0 ∨ year % 400 = 0) then 29 else 28
  else if month ∈ [4, 6, 9, 11] then 30 else 31

def valueOf (base : ℕ) (text : List Char) : ℕ :=
  text.foldl (fun n c => base * n + (hexValue c).getD 0) 0

/-- A match of `RE_DATETIME`, and whether there is such a day. -/
def dateText : Parse (List Char × Bool) := do
  let year ← digits 4 fun _ => true
  char '-'
  let month ← digits 2 fun n => 1 ≤ n && n ≤ 12
  char '-'
  let day ← digits 2 fun n => 1 ≤ n && n ≤ 31
  let time ← attempt do
    let separator ← satisfy fun c => c == 'T' || c == 't' || c == ' '
    let time ← timeText
    let offset ← attempt offsetText
    pure (separator :: time ++ offset.getD [])
  let exists_ := 1 ≤ valueOf 10 year && valueOf 10 day ≤ daysIn (valueOf 10 year) (valueOf 10 month)
  pure (year ++ '-' :: month ++ '-' :: day ++ time.getD [], exists_)

/-- Digits with single underscores between them, behind the first digit. -/
def digitRun (isDigit : Char → Bool) : List Char → List Char × List Char
  | [] => ([], [])
  | c :: s =>
    if isDigit c then
      let (digits, rest) := digitRun isDigit s
      (c :: digits, rest)
    else match c, s with
      | '_', d :: s' =>
        if isDigit d then
          let (digits, rest) := digitRun isDigit s'
          (d :: digits, rest)
        else ([], c :: s)
      | _, _ => ([], c :: s)

/-- Digits with single underscores between them, which are left out. -/
def digitsOf (isDigit : Char → Bool) : Parse (List Char) := do
  let c ← satisfy isDigit
  let rest ← fun s => some (digitRun isDigit s)
  pure (c :: rest)

def isHex (c : Char) : Bool := (hexValue c).isSome

/-- An integer with a prefix that says its base. -/
def prefixedInteger (letter : Char) (base : ℕ) (isDigit : Char → Bool) : Parse Toml := do
  word ['0', letter]
  let text ← digitsOf isDigit
  pure (.int (valueOf base text))

/-- The digits before a point. -/
def wholePart : Parse (List Char) := do
  match ← first with
  | some '0' => do
    char '0'
    pure ['0']
  | _ => do
    let c ← satisfy fun c => '1' ≤ c && c ≤ '9'
    let rest ← fun s => some (digitRun Char.isDigit s)
    pure (c :: rest)

/-- A sign, if there is one: whether it is a minus. -/
def sign : Parse Bool := do
  match ← first with
  | some '-' => do
    char '-'
    pure true
  | some '+' => do
    char '+'
    pure false
  | _ => pure false

/-- The float that is written with these digits and this exponent. -/
def floatOf (whole fraction : List Char) (exponent : ℤ) : PyFloat :=
  let mantissa := valueOf 10 (whole ++ fraction)
  if mantissa = 0 then .finite 0
  else .nearest (mantissa * (10 : ℚ) ^ (exponent - fraction.length))

/-- An exponent. -/
def exponentPart : Parse ℤ := do
  let _ ← satisfy fun c => c == 'e' || c == 'E'
  let negative ← sign
  let text ← digitsOf Char.isDigit
  pure (if negative then -valueOf 10 text else valueOf 10 text)

/-- A decimal number; `int` converts so many digits only. -/
def decimalNumber : Parse Toml := do
  let negative ← sign
  let whole ← wholePart
  let fraction ← attempt do
    char '.'
    digitsOf Char.isDigit
  let exponent ← attempt exponentPart
  match fraction, exponent with
  | none, none =>
    if 4300 < whole.length then fail
    else pure (.int (if negative then -valueOf 10 whole else valueOf 10 whole))
  | _, _ =>
    let x := floatOf whole (fraction.getD []) (exponent.getD 0)
    pure (.float (if negative then x.neg else x))

/-- The values that are single words. -/
def wordValue (text : String) (value : Toml) : Parse Toml := do
  word text.toList
  pure value

/-- A match of `RE_NUMBER`. -/
def numberValue : Parse Toml :=
  ((prefixedInteger 'x' 16 isHex).orElse (prefixedInteger 'b' 2 fun c =>
    c == '0' || c == '1')).orElse
    ((prefixedInteger 'o' 8 fun c => '0' ≤ c && c ≤ '7').orElse decimalNumber)

def specialFloat : Parse Toml := do
  let negative ← sign
  let x ← (wordValue "inf" (.float (.inf negative))).orElse (wordValue "nan" (.float .nan))
  pure x

/-- A date, a time or a number, in the order in which they are tried. -/
def plainValue : Parse Toml := do
  match ← attempt dateText with
  | some (text, exists_) => if exists_ then pure (.time (String.ofList text)) else fail
  | none => do
    match ← attempt timeText with
    | some text => pure (.time (String.ofList text))
    | none => numberValue.orElse specialFloat

/-! ## Tables -/

def isNest : Toml → Bool
  | .table _ | .array _ => true
  | _ => false

/-- The table with another value under a key, which goes to the end where the key is new. -/
def set (k : String) (v : Toml) (t : Toml.Table) : Toml.Table :=
  if t.any fun e => e.1 == k then t.map fun e => if e.1 == k then (k, v) else e else t ++ [(k, v)]

/-- `get_or_create_nest`, with what is done to the nest. -/
def modifyNest (accessLists : Bool) (f : Toml.Table → Option Toml.Table) :
    Key → Toml.Table → Option Toml.Table
  | [], t => f t
  | k :: ks, t => match Toml.get t k with
    | none => (modifyNest accessLists f ks []).map fun u => set k (.table u) t
    | some (.table u) => (modifyNest accessLists f ks u).map fun u => set k (.table u) t
    | some (.array items) =>
      if accessLists then match items.getLast? with
        | some (.table u) => (modifyNest accessLists f ks u).map fun u =>
          set k (.array (items.dropLast ++ [.table u])) t
        | _ => none
      else none
    | some _ => none

/-- A new value in a table. -/
def addNew (k : String) (v : Toml) (t : Toml.Table) : Option Toml.Table :=
  if (Toml.get t k).isSome then none else some (t ++ [(k, v)])

/-- One more table in a list of tables. -/
def appendNest (k : String) (t : Toml.Table) : Option Toml.Table :=
  match Toml.get t k with
  | none => some (t ++ [(k, .array [.table []])])
  | some (.array items) => some (set k (.array (items ++ [.table []])) t)
  | some _ => none

/-- A key is a frozen one or in the nest of one. -/
def isFrozen (frozen : List Key) (k : Key) : Bool := frozen.any fun f => f.isPrefixOf k

/-! ## Values -/

section Nested

variable (value : Parse Toml)

/-- `parse_key_value_pair`. -/
def keyValuePair : Parse (Key × Toml) := do
  let k ← key
  char '='
  skip isSpace
  let v ← value
  pure (k, v)

/-- The values of an array up to its bracket, at most so many. -/
def arrayItems : ℕ → Parse (List Toml)
  | 0 => fail
  | n + 1 => do
    let v ← value
    skipCommentsAndArrayWs
    match ← first with
    | some ']' => do
      char ']'
      pure [v]
    | some ',' => do
      char ','
      skipCommentsAndArrayWs
      match ← first with
      | some ']' => do
        char ']'
        pure [v]
      | _ => do
        let vs ← arrayItems n
        pure (v :: vs)
    | _ => fail

/-- `parse_array`. -/
def array : Parse (List Toml) := do
  char '['
  skipCommentsAndArrayWs
  match ← first with
  | some ']' => do
    char ']'
    pure []
  | _ => fun s => arrayItems value (s.length + 1) s

/-- The pairs of an inline table up to its brace, at most so many. -/
def inlineItems : ℕ → Toml.Table → List Key → Parse Toml.Table
  | 0, _, _ => fail
  | n + 1, t, frozen => do
    let (k, v) ← keyValuePair value
    match if isFrozen frozen k then none
        else modifyNest false (addNew (k.getLastD "") v) k.dropLast t with
    | none => fail
    | some t => do
      skip isSpace
      match ← first with
      | some '\x7d' => do
        char '\x7d'
        pure t
      | some ',' => do
        char ','
        skip isSpace
        inlineItems n t (if isNest v then k :: frozen else frozen)
      | _ => fail

/-- `parse_inline_table`. -/
def inlineTable : Parse Toml.Table := do
  char '\x7b'
  skip isSpace
  match ← first with
  | some '\x7d' => do
    char '\x7d'
    pure []
  | _ => fun s => inlineItems value (s.length + 1) [] [] s

end Nested

def stringValue (p : Parse (List Char)) : Parse Toml := do
  let text ← p
  pure (.str (String.ofList text))

/-- A string in quotes, on one line or on several. -/
def basicValue : Parse Toml := do
  if ← starts ['"', '"', '"'] then stringValue (multilineString '"' multilineStep)
  else stringValue basicString

def literalValue : Parse Toml := do
  if ← starts ['\'', '\'', '\''] then stringValue (multilineString '\'' multilineLiteralStep)
  else stringValue literalString

def boolean : Parse Toml := (wordValue "true" (.bool true)).orElse (wordValue "false" (.bool false))

/-- `parse_value`, with so many values in each other at most. -/
def value : ℕ → Parse Toml
  | 0 => fail
  | n + 1 => do
    match ← first with
    | some '"' => basicValue
    | some '\'' => literalValue
    | some '[' => do
      let items ← array (value n)
      pure (.array items)
    | some '\x7b' => do
      let entries ← inlineTable (value n)
      pure (.table entries)
    | _ => boolean.orElse plainValue

def anyValue : Parse Toml := fun s => value (s.length + 1) s

/-! ## Statements -/

/-- The tables that were read and their flags: those that were opened, those that will count as
opened from the next table on, and those that are frozen. -/
structure Output where
  data : Toml.Table := []
  explicit : List Key := []
  pending : List Key := []
  frozen : List Key := []

namespace Output

/-- `finalize_pending`. -/
def finalize (out : Output) : Output :=
  { out with explicit := out.pending ++ out.explicit, pending := [] }

/-- `create_dict_rule` behind its key. -/
def createDict (out : Output) (k : Key) : Option Output :=
  if k ∈ out.explicit ∨ isFrozen out.frozen k then none
  else (modifyNest true some k out.data).map fun data =>
    { out with data, explicit := k :: out.explicit }

/-- `create_list_rule` behind its key. -/
def createList (out : Output) (k : Key) : Option Output :=
  if isFrozen out.frozen k then none
  else (modifyNest true (appendNest (k.getLastD "")) k.dropLast out.data).map fun data =>
    { out with
      data
      explicit := k :: out.explicit.filter fun e => !k.isPrefixOf e
      frozen := out.frozen.filter fun e => !k.isPrefixOf e }

/-- `key_value_rule` behind its pair. -/
def keyValue (out : Output) (header k : Key) (v : Toml) : Option Output :=
  let conts := (List.range (k.length - 1)).map fun i => header ++ k.take (i + 1)
  let parent := header ++ k.dropLast
  if conts.any (· ∈ out.explicit) ∨ isFrozen out.frozen parent then none
  else (modifyNest true (addNew (k.getLastD "") v) parent out.data).map fun data =>
    { out with
      data
      pending := conts ++ out.pending
      frozen := if isNest v then (header ++ k) :: out.frozen else out.frozen }

end Output

/-- What a parser gets of a step that may fail. -/
def orFail {α : Type} : Option α → Parse α
  | some a => pure a
  | none => fail

/-- A header of a table or of a list of tables: the output and the key. -/
def tableHeader (out : Output) : Parse (Output × Key) := do
  if ← starts ['[', '['] then do
    word ['[', '[']
    skip isSpace
    let k ← key
    let out ← orFail (out.finalize.createList k)
    word [']', ']']
    pure (out, k)
  else do
    char '['
    skip isSpace
    let k ← key
    let out ← orFail (out.finalize.createDict k)
    char ']'
    pure (out, k)

/-- A statement that begins with this character, and the blanks behind it. -/
def statement (out : Output) (header : Key) (c : Char) : Parse (Output × Key) :=
  if isBareKeyChar c || c == '"' || c == '\'' then do
    let (k, v) ← keyValuePair anyValue
    let out ← orFail (out.keyValue header k v)
    skip isSpace
    pure (out, header)
  else if c = '[' then do
    let r ← tableHeader out
    skip isSpace
    pure r
  else if c = '#' then pure (out, header)
  else fail

/-- The statements of a document, at most so many. -/
def statements : ℕ → Output → Key → Parse Toml.Table
  | 0, _, _ => fail
  | n + 1, out, header => do
    skip isSpace
    match ← first with
    | none => pure out.data
    | some '\n' => do
      char '\n'
      statements n out header
    | some c => do
      let (out, header) ← statement out header c
      skipComment
      match ← first with
      | none => pure out.data
      | some '\n' => do
        char '\n'
        statements n out header
      | some _ => fail

/-- `src.replace("\r\n", "\n")`. -/
def joinBreaks : List Char → List Char
  | [] => []
  | '\r' :: '\n' :: s => '\n' :: joinBreaks s
  | c :: s => c :: joinBreaks s

/-- `tomllib.loads`. -/
def loads (text : List Char) : Option Toml.Table :=
  let src := joinBreaks text
  (statements (src.length + 1) {} [] src).map Prod.fst

end Tomllib

end CodemcpBridge

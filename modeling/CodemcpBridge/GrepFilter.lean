import CodemcpBridge.Config.Load
import CodemcpBridge.ProjectRegistry.Resolve

/-!
# The answer of a search

How the service reads the text that the backend's `Grep` answers: which of its lines name sensitive
files, and what is left of it without them.
-/

namespace CodemcpBridge

open ProjectRegistry (slashed isSensitive)

/-- `str.casefold`, a character at a time. -/
structure Casefold where
  fold : Char → List Char
  fold_slash : fold '/' = ['/']

/-- `s.rstrip("/")`. -/
def trimSlashes (s : String) : String :=
  String.ofList (s.toList.reverse.dropWhile (· == '/')).reverse

/-- `_is_sensitive_grep_line`, where the root of the project is written in the ways `roots`. -/
def isSensitiveGrepLine (casefold : Casefold) (roots : List String) (line : String) : Bool :=
  let candidate := slashed (stripBlanks line)
  let folded := candidate.toList.flatMap casefold.fold
  if candidate = "" then false
  else match (roots.map fun root => trimSlashes (slashed root)).find? fun root =>
      (root.toList.flatMap casefold.fold ++ ['/']).isPrefixOf folded with
    | some root => isSensitive (Text.drop (root.length + 1) candidate)
    | none => isSensitive candidate

/-- A full match of `_GREP_HEADER_PATTERN`, with the digits that numbers are written in. -/
def isGrepHeader (header : String) : Bool :=
  let rest := header.toList.drop 6
  Text.startsWith header "Found " && rest.takeWhile Char.isDigit ≠ [] &&
    [" file".toList, " files".toList].contains (rest.dropWhile Char.isDigit)

/-- The text of an answer that names some files. -/
def foundText (lines : List String) : String :=
  "Found " ++ toString lines.length ++ " file" ++ (if lines.length ≠ 1 then "s" else "") ++ "\n" ++
    "\n".intercalate lines

/-- `_filter_sensitive_grep_result`. -/
def filterSensitiveGrepResult (casefold : Casefold) (roots : List String) (text : String) :
    String :=
  match Text.splitlines text with
  | [] => text
  | header :: lines =>
    if isGrepHeader (stripBlanks header) then
      let found := lines.filter fun line =>
        stripBlanks line ≠ "" && !Text.startsWith (stripBlanks line) "(" &&
          !isSensitiveGrepLine casefold roots line
      if found = [] then "No files found" else foundText found
    else "\n".intercalate ((header :: lines).filter fun line =>
      !isSensitiveGrepLine casefold roots line)

end CodemcpBridge

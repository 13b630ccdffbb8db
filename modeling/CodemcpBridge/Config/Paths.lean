import CodemcpBridge.Text

/-!
# Paths

The purely textual part of `pathlib`, for POSIX paths: normal forms, parts and joins, and what makes
a path absolute on either system.
-/

namespace CodemcpBridge

namespace Paths

/-- The root of a path: two slashes stand for themselves, any other number for one. -/
def rootOf (s : String) : String :=
  match (s.toList.takeWhile (· == '/')).length with
  | 0 => ""
  | 2 => "//"
  | _ => "/"

/-- `str(Path(s))`. -/
def normal (s : String) : String :=
  let text := rootOf s ++ "/".intercalate (Text.parts s)
  if text = "" then "." else text

def isAbsolute (path : String) : Bool := path.toList.head? == some '/'

/-- `base / path` of normal forms. -/
def join (base path : String) : String :=
  if isAbsolute path then path
  else if path = "." then base
  else if base.toList.getLast? = some '/' then base ++ path
  else base ++ "/" ++ path

/-- `path.parent` of a normal form. -/
def parent (path : String) : String :=
  let cut := Text.parent path
  if cut = "" then (if isAbsolute path then "/" else ".") else cut

/-! ## Windows -/

/-- A `\\host\share` or `\\?\UNC\host\share` path, from its pieces between backslashes. -/
def isUncAbsolute : List (List Char) → Bool
  | [] :: [] :: host :: share :: rest =>
    if host = ['?'] ∧ share.map Char.toUpper = "UNC".toList then match rest with
      | [] | [_] => false
      | [_, last] => last ≠ []
      | _ => true
    else match rest with
      | [] => share ≠ [] && !([[], ['?'], ['.'], ['?', '.']].contains host)
      | _ => true
  | _ => false

/-- `PureWindowsPath(s).is_absolute()`: the path has a drive and a root. -/
def isWindowsAbsolute (s : String) : Bool :=
  let text := s.toList.map fun c => if c = '/' then '\\' else c
  match text with
  | '\\' :: '\\' :: _ => isUncAbsolute (Text.splitBy (· == '\\') text)
  | '\\' :: _ => false
  | _ :: ':' :: '\\' :: _ => true
  | _ => false

end Paths

end CodemcpBridge

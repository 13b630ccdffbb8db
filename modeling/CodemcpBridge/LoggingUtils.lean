import CodemcpBridge.Text
import Mathlib.Data.List.DropRight

/-!
# Worker logs

A worker's stderr is read in chunks and logged line by line.  The lines of `wsl.exe` are UTF-16LE
without a byte order mark, and those of the worker itself UTF-8.
-/

namespace CodemcpBridge

namespace LoggingUtils

def isHighSurrogate (u : ℕ) : Bool := 0xD800 ≤ u && u < 0xDC00

def isLowSurrogate (u : ℕ) : Bool := 0xDC00 ≤ u && u < 0xE000

/-- The character of a code unit that follows no high surrogate and is none. -/
def unitChar (u : ℕ) : Char := if isLowSurrogate u then '\uFFFD' else Char.ofNat u

def surrogateChar (high low : ℕ) : Char :=
  Char.ofNat (0x10000 + (high - 0xD800) * 0x400 + (low - 0xDC00))

/-- `decode("utf-16-le", errors="replace")`, after a high surrogate or not. -/
def decodeUtf16le : Option ℕ → List ℕ → List Char
  | none, [] => []
  | none, [_] => ['\uFFFD']
  | some _, [] => ['\uFFFD']
  | some _, [_] => ['\uFFFD']
  | none, a :: b :: bs =>
    if isHighSurrogate (a + 256 * b) then decodeUtf16le (some (a + 256 * b)) bs
    else unitChar (a + 256 * b) :: decodeUtf16le none bs
  | some high, a :: b :: bs =>
    if isLowSurrogate (a + 256 * b) then
      surrogateChar high (a + 256 * b) :: decodeUtf16le none bs
    else if isHighSurrogate (a + 256 * b) then
      '\uFFFD' :: decodeUtf16le (some (a + 256 * b)) bs
    else '\uFFFD' :: unitChar (a + 256 * b) :: decodeUtf16le none bs

/-- `_looks_like_utf16le`. -/
def looksLikeUtf16le (value : List UInt8) : Bool :=
  4 ≤ value.length && max 1 (value.length / 8) ≤ value.count 0

/-- `_decode_worker_stderr_line`. -/
def decodeWorkerStderrLine (value : List UInt8) : List Char × Bool :=
  if looksLikeUtf16le value then
    ((decodeUtf16le none ((value.dropWhile (· == 0)).map UInt8.toNat)).rdropWhile (· == '\r'), true)
  else
    ((Text.decodeFrom ['\uFFFD'] value.length (value.map UInt8.toNat)).rdropWhile
      (· == '\r'), false)

/-! ## The forwarder -/

/-- The bytes before the first line feed and those after it, if there is one. -/
def takeLine : List UInt8 → Option (List UInt8 × List UInt8)
  | [] => none
  | b :: pending =>
    if b = 0x0A then some ([], pending)
    else (takeLine pending).map fun p => (b :: p.1, p.2)

/-- The lines that are complete, as they are logged, and the bytes that stay pending. -/
def logLines : ℕ → List UInt8 → List Char × List UInt8
  | 0, pending => ([], pending)
  | n + 1, pending => match takeLine pending with
    | none => ([], pending)
    | some (rawLine, pending) =>
      let line := decodeWorkerStderrLine rawLine
      let logged := logLines n
        (if line.2 && pending.head? == some 0 then pending.tail else pending)
      (line.1 ++ '\n' :: logged.1, logged.2)

/-- `_WorkerStderrForwarder._forward` on the chunks that are read, after some bytes are pending. -/
def forward : List UInt8 → List (List UInt8) → List Char
  | pending, [] => if pending = [] then [] else (decodeWorkerStderrLine pending).1 ++ ['\n']
  | pending, chunk :: chunks =>
    if chunk = [] then
      if pending = [] then [] else (decodeWorkerStderrLine pending).1 ++ ['\n']
    else
      let logged := logLines (pending ++ chunk).length (pending ++ chunk)
      logged.1 ++ forward logged.2 chunks

end LoggingUtils

end CodemcpBridge

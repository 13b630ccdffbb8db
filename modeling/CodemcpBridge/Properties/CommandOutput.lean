import CodemcpBridge.Encoding.Utf8
import CodemcpBridge.Process

/-!
# The output of a command

The limit of a command's result is a number of bytes.  It is held against the bytes that the command
wrote, whereas the result takes the bytes of the decoded text, and a replacement character takes
three of them.  An output whose bytes fit into what is left of the limit may therefore not fit as a
text.
-/

namespace CodemcpBridge

variable (title : String → String) (limit : ℕ) (command : CommandSpec) (completed : Completed)

/-! ## The two parts of a result -/

/-- What the result shows of stdout. -/
def shownStdout : String := (truncateBytes completed.stdout limit).1

/-- What is left of the limit for stderr. -/
def remaining : ℕ := limit - (shownStdout limit completed).utf8ByteSize

/-- What the result shows of stderr. -/
def shownStderr : String := (truncateBytes completed.stderr (remaining limit completed)).1

/-- The text of a result that shows these two parts. -/
def resultText (returncode : Int) (stdout stderr : String) : String :=
  if returncode ≠ 0 then
    "Error: " ++ title command.kind ++ " command failed with exit code " ++
      toString returncode ++ ":\n" ++
      (if stdout = "" then "STDOUT" ++ ": <empty>" else "STDOUT" ++ ":\n" ++ stdout) ++ "\n" ++
      (if stderr = "" then "STDERR" ++ ": <empty>" else "STDERR" ++ ":\n" ++ stderr)
  else
    "Code " ++ command.kind ++ " successful:\n" ++
      (if stderr = "" then stdout else if stdout = "" then "STDERR:\n" ++ stderr
        else stdout ++ "\nSTDERR:\n" ++ stderr)

theorem text_commandResult : (commandResult title limit command completed).text =
    resultText title command completed.returncode (shownStdout limit completed)
      (shownStderr limit completed) := by
  unfold commandResult resultText
  by_cases h : completed.returncode ≠ 0
  · rw [if_pos h, if_pos h]
    rfl
  · rw [if_neg h, if_neg h]
    rfl

theorem truncated_commandResult : (commandResult title limit command completed).truncated =
    ((truncateBytes completed.stdout limit).2 ||
      (truncateBytes completed.stderr (remaining limit completed)).2) := by
  unfold commandResult
  by_cases h : completed.returncode ≠ 0
  · rw [if_pos h]
    rfl
  · rw [if_neg h]
    rfl

/-! ## One output -/

variable (value : ByteArray) (maxBytes : ℕ)

/-- Only whole characters of an output are shown: all of it, or the first characters of it. -/
def WholeCharacters (shown : String) : Prop :=
  shown = Text.decodeReplace value ∨ shown.toList <+: (Text.decodeIgnore value).toList

theorem truncateBytes_whole : WholeCharacters value (truncateBytes value maxBytes).1 := by
  unfold truncateBytes
  by_cases h : value.size ≤ maxBytes
  · rw [if_pos h]
    exact .inl rfl
  · rw [if_neg h]
    exact .inr (Text.decodeIgnore_extract_isPrefix value maxBytes)

/-- An output is cut if and only if less than all of it is shown. -/
theorem truncateBytes_cut : (truncateBytes value maxBytes).2 = true ↔
    (truncateBytes value maxBytes).1 ≠ Text.decodeReplace value := by
  unfold truncateBytes
  by_cases h : value.size ≤ maxBytes
  · rw [if_pos h]
    exact iff_of_false Bool.false_ne_true fun hne => hne rfl
  · rw [if_neg h]
    exact iff_of_true rfl (Text.decodeIgnore_extract_ne (not_le.1 h))

/-- An output whose bytes fit grows by its replacement characters, and one that is cut loses its
ill-formed pieces. -/
def shownSize : ℕ :=
  if value.size ≤ maxBytes then value.size + Text.growth value
  else maxBytes - (Text.illFormed (value.extract 0 maxBytes)).sum

theorem utf8ByteSize_truncateBytes :
    (truncateBytes value maxBytes).1.utf8ByteSize = shownSize value maxBytes := by
  unfold truncateBytes shownSize
  by_cases h : value.size ≤ maxBytes
  · rw [if_pos h, if_pos h]
    exact Text.utf8ByteSize_decodeReplace value
  · rw [if_neg h, if_neg h]
    have size : (value.extract 0 maxBytes).size = maxBytes := by
      rw [ByteArray.size_extract]
      omega
    have := Text.utf8ByteSize_decodeIgnore (value.extract 0 maxBytes)
    dsimp only
    omega

/-- An output fits as a text if its bytes fit. -/
def FitsDecoded : Prop :=
  value.size ≤ maxBytes → value.size + Text.growth value ≤ maxBytes

theorem shownSize_le_iff : shownSize value maxBytes ≤ maxBytes ↔ FitsDecoded value maxBytes := by
  unfold shownSize FitsDecoded
  by_cases h : value.size ≤ maxBytes
  · rw [if_pos h]
    exact ⟨fun hle _ => hle, fun himp => himp h⟩
  · rw [if_neg h]
    exact iff_of_true (Nat.sub_le ..) fun hle => absurd hle h

/-! ## The limit -/

/-- The parts take no more than the limit together, only whole characters are shown, and the result
says so if and only if less than all of the output is shown. -/
structure KeepsLimit : Prop where
  bounded : (shownStdout limit completed).utf8ByteSize +
    (shownStderr limit completed).utf8ByteSize ≤ limit
  whole : WholeCharacters completed.stdout (shownStdout limit completed) ∧
    WholeCharacters completed.stderr (shownStderr limit completed)
  truncated : (commandResult title limit command completed).truncated = true ↔
    shownStdout limit completed ≠ Text.decodeReplace completed.stdout ∨
      shownStderr limit completed ≠ Text.decodeReplace completed.stderr

/-- Both outputs fit as texts where their bytes fit, stderr into what stdout leaves of the limit. -/
def OutputFits : Prop :=
  FitsDecoded completed.stdout limit ∧
    FitsDecoded completed.stderr (limit - shownSize completed.stdout limit)

/-- The text of a result is made of two parts, which keep the limit if and only if the outputs fit
as texts where their bytes fit. -/
theorem commandResult_keepsLimit_iff : (commandResult title limit command completed).text =
      resultText title command completed.returncode (shownStdout limit completed)
        (shownStderr limit completed) ∧
    (KeepsLimit title limit command completed ↔ OutputFits limit completed) := by
  have stdout : (shownStdout limit completed).utf8ByteSize = shownSize completed.stdout limit :=
    utf8ByteSize_truncateBytes _ _
  have stderr : (shownStderr limit completed).utf8ByteSize =
      shownSize completed.stderr (limit - shownSize completed.stdout limit) := by
    rw [← stdout]
    exact utf8ByteSize_truncateBytes _ _
  have whole := And.intro (truncateBytes_whole completed.stdout limit)
    (truncateBytes_whole completed.stderr (remaining limit completed))
  have truncated : (commandResult title limit command completed).truncated = true ↔
      shownStdout limit completed ≠ Text.decodeReplace completed.stdout ∨
        shownStderr limit completed ≠ Text.decodeReplace completed.stderr := by
    rw [truncated_commandResult, Bool.or_eq_true]
    exact or_congr (truncateBytes_cut _ _) (truncateBytes_cut _ _)
  refine ⟨text_commandResult title limit command completed, fun h => ?_, fun h =>
    ⟨?_, whole, truncated⟩⟩
  · have bounded := h.bounded
    rw [stdout, stderr] at bounded
    refine ⟨(shownSize_le_iff _ _).1 (by omega), (shownSize_le_iff _ _).1 (by omega)⟩
  · have out := (shownSize_le_iff _ _).2 h.1
    have err := (shownSize_le_iff _ _).2 h.2
    rw [stdout, stderr]
    omega

/-- Two ill-formed bytes under a limit of two bytes are shown in six. -/
theorem replaced_output_exceeds : ¬ ∀ (title : String → String) (limit : ℕ) (command : CommandSpec)
    (completed : Completed), KeepsLimit title limit command completed := by
  intro h
  have kept := (h Text.title 2
    { commandId := "c", kind := "test", argv := ["run"], timeoutSeconds := 60
      approval := .notRequired }
    { returncode := 0, stdout := ⟨#[0xFF, 0xFF]⟩, stderr := .empty }).bounded
  have six : (shownStdout 2 { returncode := 0, stdout := ⟨#[0xFF, 0xFF]⟩
                              stderr := .empty }).utf8ByteSize = 6 := by
    refine (utf8ByteSize_truncateBytes _ _).trans ?_
    decide +kernel
  omega

end CodemcpBridge

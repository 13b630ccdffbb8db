import CodemcpBridge.Encoding.Lines
import CodemcpBridge.GitCommit
import Mathlib.Data.Bool.AllAny
import Mathlib.Data.List.DropRight

/-!
# The footer of a session's commit

The message of a commit that a session creates ends with a footer that names the session.  The
description above it may hold any character but a carriage return, a line feed and a NUL, whereas
the footer is looked for line by line, and more characters than these end a line.
-/

namespace CodemcpBridge

namespace GitGuard

/-! ## The message that Git keeps -/

/-- A space of Git. -/
def isGitSpace (c : Char) : Bool := c == ' ' || c == '\t' || c == '\n' || c == '\r'

/-- A line without the spaces at its end. -/
def trimEnd (line : List Char) : List Char := line.rdropWhile isGitSpace

/-- The lines that are not empty, with an empty one between them where there were some. -/
def joinLines : Bool → Bool → List (List Char) → List Char
  | _, _, [] => []
  | started, empties, line :: lines =>
    if line = [] then joinLines started true lines
    else (if started && empties then ['\n'] else []) ++ (line ++ '\n' :: joinLines true false lines)

/-- What Git makes of the text of `-m`. -/
def stripspace (message : String) : String :=
  String.ofList (joinLines false false
    ((Text.splitBy (· == '\n') message.toList).map trimEnd))

/-- The text that a commit of a session is made with. -/
def createMessage (description sessionId : String) : String :=
  "wip: " ++ description ++ "\n\n" ++ (sessionFooterPrefix ++ sessionId)

variable {description sessionId : String}

theorem trimEnd_of_last {line : List Char} {c : Char} (h : isGitSpace c = false) :
    trimEnd (line ++ [c]) = line ++ [c] :=
  List.rdropWhile_concat_neg isGitSpace line c (by rw [h]; exact Bool.false_ne_true)

/-- The characters of a session id end no line and are no spaces. -/
theorem plain_of_isIdentifier (h : Text.isIdentifier sessionId = true) :
    sessionId.toList ≠ [] ∧
      ∀ c ∈ sessionId.toList, isGitSpace c = false ∧ Text.isLineBreak c = false := by
  have plain {c : Char}
      (hc : (c.isAlphanum || c == '_' || c == '.' || c == ':' || c == '-') = true) :
      isGitSpace c = false ∧ Text.isLineBreak c = false := by
    constructor
    · by_contra hb
      simp only [isGitSpace, Bool.not_eq_false, Bool.or_eq_true, beq_iff_eq] at hb
      rcases hb with ((rfl | rfl) | rfl) | rfl <;> exact absurd hc (by decide)
    · by_contra hb
      simp only [Text.isLineBreak, Bool.not_eq_false, Bool.or_eq_true, beq_iff_eq] at hb
      rcases hb with ((((((((rfl | rfl) | rfl) | rfl) | rfl) | rfl) | rfl) | rfl) | rfl) | rfl <;>
        exact absurd hc (by decide)
  unfold Text.isIdentifier at h
  split at h
  · cases h
  · rename_i c cs hs
    rw [hs]
    simp only [Bool.and_eq_true, List.all_eq_true] at h
    refine ⟨List.cons_ne_nil c cs, fun d hd => ?_⟩
    rcases List.mem_cons.1 hd with rfl | hd
    · refine plain ?_
      rw [h.1.1]
      rfl
    · exact plain (h.1.2 d hd)

theorem sessionFooter_last (h : Text.isIdentifier sessionId = true) :
    ∃ line c, (sessionFooterPrefix ++ sessionId).toList = line ++ [c] ∧ isGitSpace c = false := by
  obtain ⟨hne, hplain⟩ := plain_of_isIdentifier h
  obtain ⟨line, c, hs⟩ := List.eq_nil_or_concat sessionId.toList |>.resolve_left hne
  rw [List.concat_eq_append] at hs
  refine ⟨sessionFooterPrefix.toList ++ line, c, ?_, (hplain c ?_).1⟩
  · rw [String.toList_append, hs, List.append_assoc]
  · rw [hs]
    exact List.mem_append_right line (List.mem_singleton_self c)

theorem sessionFooter_unbroken (h : Text.isIdentifier sessionId = true) :
    ∀ c ∈ (sessionFooterPrefix ++ sessionId).toList, Text.isLineBreak c = false := by
  intro c hc
  rw [String.toList_append] at hc
  rcases List.mem_append.1 hc with hc | hc
  · have all : ∀ c ∈ sessionFooterPrefix.toList, Text.isLineBreak c = false :=
      List.all_iff_forall_prop.1 (by decide)
    exact all c hc
  · exact ((plain_of_isIdentifier h).2 c hc).2

/-- The message that Git keeps: the description loses the spaces at its end. -/
theorem stripspace_createMessage (hd : '\n' ∉ description.toList)
    (hs : Text.isIdentifier sessionId = true) :
    (stripspace (createMessage description sessionId)).toList =
      trimEnd ("wip: ".toList ++ description.toList) ++ '\n' :: '\n' ::
        ((sessionFooterPrefix ++ sessionId).toList ++ ['\n']) := by
  obtain ⟨line, c, hline, hc⟩ := sessionFooter_last hs
  have unbroken : ∀ d ∈ (sessionFooterPrefix ++ sessionId).toList, (d == '\n') = false := by
    intro d hm
    refine beq_eq_false_iff_ne.2 fun he => ?_
    have := sessionFooter_unbroken hs d hm
    rw [he] at this
    exact absurd this (by decide)
  have first : ∀ d ∈ "wip: ".toList ++ description.toList, (d == '\n') = false := by
    intro d hm
    refine beq_eq_false_iff_ne.2 fun he => ?_
    rw [he] at hm
    rcases List.mem_append.1 hm with hm | hm
    · exact absurd hm (by decide)
    · exact hd hm
  have pieces : Text.splitBy (· == '\n') (createMessage description sessionId).toList =
      ["wip: ".toList ++ description.toList, [], (sessionFooterPrefix ++ sessionId).toList] := by
    have text : (createMessage description sessionId).toList =
        ("wip: ".toList ++ description.toList) ++ '\n' :: ([] ++ '\n' ::
          (sessionFooterPrefix ++ sessionId).toList) := by
      unfold createMessage
      rw [String.toList_append, String.toList_append, String.toList_append, List.append_assoc]
      rfl
    rw [text, Text.splitBy_append first rfl, Text.splitBy_append (by simp) rfl,
      Text.splitBy_of_forall unbroken]
  have ne : trimEnd ("wip: ".toList ++ description.toList) ≠ [] := by
    intro he
    exact absurd (List.rdropWhile_eq_nil_iff.1 he 'w' (by simp)) (by decide)
  unfold stripspace
  rw [pieces, String.toList_ofList]
  simp only [List.map_cons, List.map_nil]
  rw [hline, trimEnd_of_last hc]
  have empty : trimEnd [] = [] := rfl
  rw [empty]
  generalize trimEnd ("wip: ".toList ++ description.toList) = w at ne ⊢
  simp [joinLines, ne]

/-! ## The footer that is read -/

/-- The lines of a message, without the line breaks at its end. -/
def messageLines (message : String) : List (List Char) :=
  Text.linesOf [] (message.toList.rdropWhile fun c => c == '\r' || c == '\n')

/-- A line that begins as a footer does. -/
def IsFooterLine (line : List Char) : Prop := sessionFooterPrefix.toList <+: line

/-- The last line is the footer of the session, and no other line begins as a footer does. -/
def EndsWithFooter (message sessionId : String) : Prop :=
  ∃ lines, messageLines message = lines ++ [(sessionFooterPrefix ++ sessionId).toList] ∧
    ∀ line ∈ lines, ¬ IsFooterLine line

theorem startsWith_iff (line : List Char) :
    Text.startsWith (String.ofList line) sessionFooterPrefix = true ↔ IsFooterLine line := by
  unfold Text.startsWith IsFooterLine
  rw [String.toList_ofList, List.isPrefixOf_iff_prefix]

theorem drop_sessionFooter (sessionId : String) :
    Text.drop sessionFooterPrefix.length (sessionFooterPrefix ++ sessionId) = sessionId := by
  unfold Text.drop
  rw [String.toList_append, ← String.length_toList, List.drop_left, String.ofList_toList]

theorem parseSessionFooter_eq (message : String) : parseSessionFooter message =
    match ((messageLines message).map String.ofList).filter
        (fun line => Text.startsWith line sessionFooterPrefix) with
    | [footer] =>
      if ((messageLines message).map String.ofList).getLast? = some footer ∧
          Text.isIdentifier (Text.drop sessionFooterPrefix.length footer) = true then
        some (Text.drop sessionFooterPrefix.length footer)
      else none
    | _ => none := rfl

theorem filter_footers (lines : List (List Char)) :
    (lines.map String.ofList).filter (fun line => Text.startsWith line sessionFooterPrefix) = [] ↔
      ∀ line ∈ lines, ¬ IsFooterLine line := by
  rw [List.filter_eq_nil_iff]
  constructor
  · intro h line hl hf
    exact h (String.ofList line) (List.mem_map_of_mem hl) ((startsWith_iff line).2 hf)
  · intro h text ht
    obtain ⟨line, hl, rfl⟩ := List.mem_map.1 ht
    exact fun hs => h line hl ((startsWith_iff line).1 hs)

/-- The footers among lines of which the last is one. -/
theorem filter_concat {lines : List (List Char)} {last : List Char} (h : IsFooterLine last) :
    ((lines ++ [last]).map String.ofList).filter
        (fun line => Text.startsWith line sessionFooterPrefix) =
      (lines.map String.ofList).filter (fun line => Text.startsWith line sessionFooterPrefix) ++
        [String.ofList last] := by
  rw [List.map_append, List.filter_append, List.map_singleton,
    List.filter_cons_of_pos (p := fun line => Text.startsWith line sessionFooterPrefix)
      ((startsWith_iff last).2 h)]
  rfl

/-- What the parser returns a session id for. -/
theorem parseSessionFooter_eq_some {message : String} :
    parseSessionFooter message = some sessionId ↔
      Text.isIdentifier sessionId = true ∧ EndsWithFooter message sessionId := by
  rw [parseSessionFooter_eq]
  constructor
  · intro h
    split at h
    · rename_i footer hf
      split_ifs at h with hc
      obtain ⟨hlast, hid⟩ := hc
      obtain ⟨lines, last, hm⟩ : ∃ lines last, messageLines message = lines ++ [last] := by
        rcases List.eq_nil_or_concat (messageLines message) with hm | ⟨lines, last, hm⟩
        · rw [hm] at hf
          cases hf
        · exact ⟨lines, last, hm.trans List.concat_eq_append⟩
      have hfooter : String.ofList last = footer := by
        rw [hm, List.map_append, List.map_singleton, List.getLast?_concat] at hlast
        exact Option.some.inj hlast
      have starts : IsFooterLine last := by
        have member : footer ∈ [footer] := List.mem_singleton_self footer
        rw [← hf, ← hfooter] at member
        exact (startsWith_iff last).1 (List.mem_filter.1 member).2
      rw [hm, filter_concat starts, hfooter] at hf
      have none := List.append_left_eq_self.1 hf
      obtain ⟨rest, hrest⟩ := starts
      have same : footer = sessionFooterPrefix ++ String.ofList rest := by
        rw [← hfooter, ← hrest, String.ofList_append, String.ofList_toList]
      rw [same, drop_sessionFooter] at h hid
      cases h
      refine ⟨hid, lines, ?_, (filter_footers lines).1 none⟩
      rw [hm, ← same, ← hfooter, String.toList_ofList]
    · cases h
  · rintro ⟨hid, lines, hlines, hnone⟩
    have starts : IsFooterLine (sessionFooterPrefix ++ sessionId).toList := by
      unfold IsFooterLine
      rw [String.toList_append]
      exact List.prefix_append _ _
    rw [hlines, filter_concat starts, (filter_footers lines).2 hnone, List.nil_append,
      String.ofList_toList]
    dsimp only
    rw [drop_sessionFooter, List.map_append, List.map_singleton, String.ofList_toList,
      List.getLast?_concat, if_pos ⟨rfl, hid⟩]

/-! ## The round trip -/

theorem rdropWhile_lineBreaks {text : List Char} (hs : Text.isIdentifier sessionId = true) :
    (text ++ ((sessionFooterPrefix ++ sessionId).toList ++ ['\n'])).rdropWhile
      (fun c => c == '\r' || c == '\n') = text ++ (sessionFooterPrefix ++ sessionId).toList := by
  obtain ⟨line, c, hline, hc⟩ := sessionFooter_last hs
  have last : ¬ (c == '\r' || c == '\n') = true := by
    intro hb
    unfold isGitSpace at hc
    simp only [Bool.or_eq_false_iff] at hc
    rw [hc.1.2, hc.2] at hb
    exact Bool.false_ne_true hb
  rw [← List.append_assoc, List.rdropWhile_concat_pos _ _ _ rfl, hline, ← List.append_assoc]
  exact List.rdropWhile_concat_neg (fun c => c == '\r' || c == '\n') (text ++ line) c last

/-- A description of which no line after the first begins as a footer does, without the spaces at
its end. -/
def NoFooterLine (description : String) : Prop :=
  ∀ line ∈ (Text.splitBy Text.isLineBreak (trimEnd description.toList)).tail, ¬ IsFooterLine line

/-- What stands before a text without a line break stands before its first line. -/
theorem splitBy_prepend {sep : Char → Bool} {a t q : List Char} {qs : List (List Char)}
    (ha : ∀ c ∈ a, sep c = false) (ht : Text.splitBy sep t = q :: qs) :
    Text.splitBy sep (a ++ t) = (a ++ q) :: qs := by
  induction a with
  | nil => exact ht
  | cons c a ih =>
    rw [List.cons_append, Text.splitBy, if_neg (by simp [ha c List.mem_cons_self]),
      ih fun d hd => ha d (List.mem_cons_of_mem c hd)]
    rfl

theorem wip_not_footer (rest : List Char) : ¬ IsFooterLine ('w' :: rest) := by
  rintro ⟨t, ht⟩
  have := congrArg List.head? ht
  rw [List.head?_append] at this
  exact absurd this (by simp [sessionFooterPrefix])

theorem noFooterLine_iff (description : String) : NoFooterLine description ↔
    ∀ line ∈ Text.splitBy Text.isLineBreak (trimEnd ("wip: ".toList ++ description.toList)),
      ¬ IsFooterLine line := by
  unfold NoFooterLine
  by_cases he : trimEnd description.toList = []
  · have text : trimEnd ("wip: ".toList ++ description.toList) = "wip:".toList := by
      unfold trimEnd List.rdropWhile at he ⊢
      rw [List.reverse_append, List.dropWhile_append, List.reverse_eq_nil_iff.1 he]
      rfl
    rw [he, text]
    refine iff_of_true (fun line hl => ?_) fun line hl => ?_
    · cases hl
    · rw [Text.splitBy_of_forall (List.all_iff_forall_prop.1 (by decide)), List.mem_singleton] at hl
      rw [hl]
      exact wip_not_footer _
  · have text : trimEnd ("wip: ".toList ++ description.toList) =
        "wip: ".toList ++ trimEnd description.toList := by
      unfold trimEnd List.rdropWhile at he ⊢
      rw [List.reverse_append, List.dropWhile_append, if_neg (by simpa using he),
        List.reverse_append, List.reverse_reverse]
    obtain ⟨q, qs, hq⟩ := List.exists_cons_of_ne_nil
      (Text.splitBy_ne_nil Text.isLineBreak (trimEnd description.toList))
    rw [text, splitBy_prepend (List.all_iff_forall_prop.1 (by decide)) hq, hq]
    constructor
    · intro h line hl
      rcases List.mem_cons.1 hl with rfl | hl
      · exact wip_not_footer _
      · exact h line hl
    · intro h line hl
      exact h line (List.mem_cons_of_mem _ hl)

/-- The message of a created commit is read back unless its description holds a line that begins as
a footer does. -/
theorem parseSessionFooter_createMessage (hd : ¬ description.toList.any breaksDescription)
    (hs : Text.isIdentifier sessionId = true) :
    parseSessionFooter (stripspace (createMessage description sessionId)) = some sessionId ↔
      NoFooterLine description := by
  have feedless : '\n' ∉ description.toList := fun hm =>
    hd (List.any_eq_true.2 ⟨_, hm, by decide⟩)
  have returnless : '\r' ∉ trimEnd ("wip: ".toList ++ description.toList) := by
    intro hm
    rcases List.mem_append.1 ((List.rdropWhile_prefix _ _).subset hm) with hm | hm
    · exact absurd hm (by decide)
    · exact hd (List.any_eq_true.2 ⟨_, hm, by decide⟩)
  have lines : messageLines (stripspace (createMessage description sessionId)) =
      (Text.splitBy Text.isLineBreak (trimEnd ("wip: ".toList ++ description.toList)) ++ [[]]) ++
        [(sessionFooterPrefix ++ sessionId).toList] := by
    unfold messageLines
    have footer : Text.linesOf [] ('\n' :: (sessionFooterPrefix ++ sessionId).toList) =
        [[], (sessionFooterPrefix ++ sessionId).toList] := by
      rw [Text.linesOf_cons (by decide), if_pos (by decide),
        Text.linesOf_end (sessionFooter_unbroken hs) (by simp [sessionFooterPrefix])]
      rfl
    rw [stripspace_createMessage feedless hs, List.append_cons, List.append_cons,
      rdropWhile_lineBreaks hs, List.append_assoc, List.append_assoc, List.singleton_append,
      List.singleton_append, Text.linesOf_append _ returnless, footer, List.append_assoc]
    rfl
  rw [parseSessionFooter_eq_some, noFooterLine_iff]
  unfold EndsWithFooter
  rw [lines]
  constructor
  · rintro ⟨-, others, heq, hnone⟩ line hl
    rw [List.append_left_inj] at heq
    rw [← heq] at hnone
    exact hnone line (List.mem_append_left _ hl)
  · intro h
    refine ⟨hs, _, rfl, fun line hl => ?_⟩
    rcases List.mem_append.1 hl with hl | hl
    · exact h line hl
    · rw [List.mem_singleton.1 hl]
      rintro ⟨t, ht⟩
      exact absurd (congrArg List.length ht) (by simp [sessionFooterPrefix])

/-- The arguments of a created commit, and what they were accepted for. -/
theorem commitArguments_accepted {paths arguments : List String}
    (h : commitArguments paths .create description sessionId = pure arguments) :
    arguments = ["commit", "-m", createMessage description sessionId, "--only", "--"] ++ paths ∧
      ¬ description.toList.any breaksDescription ∧ Text.isIdentifier sessionId = true := by
  unfold commitArguments validateCommitPaths at h
  by_cases hp : (paths.isEmpty || paths.any fun path => path == "" || path.toList.contains '\x00') =
      true
  · rw [if_pos hp] at h
    cases h
  · rw [if_neg hp] at h
    by_cases hd : description = "" ∨ description.length > 500 ∨
        description.toList.any breaksDescription
    · cases (if_pos hd).symm.trans h
    · have h' := (if_neg hd).symm.trans h
      unfold sessionFooter at h'
      by_cases hs : Text.isIdentifier sessionId = true
      · rw [if_pos hs] at h'
        cases h'
        exact ⟨rfl, fun hb => hd (.inr (.inr hb)), hs⟩
      · rw [if_neg hs] at h'
        cases h'

/-! ## Lines that end in a line feed -/

/-- What follows the last line feed of a message without the line breaks at its end. -/
def lastFeedLine (message : String) : List Char :=
  (message.toList.rdropWhile fun c => c == '\r' || c == '\n').rtakeWhile (· != '\n')

theorem lastFeedLine_eq_iff {message : String} (h : EndsWithFooter message sessionId)
    (hs : Text.isIdentifier sessionId = true) :
    lastFeedLine message = (sessionFooterPrefix ++ sessionId).toList ↔
      ∀ c ∈ lastFeedLine message, Text.isLineBreak c = false := by
  constructor
  · intro he
    rw [he]
    exact sessionFooter_unbroken hs
  · intro unbroken
    obtain ⟨lines, hlines, -⟩ := h
    unfold messageLines at hlines
    unfold lastFeedLine at unbroken ⊢
    have trimmed (x : List Char) :
        (message.toList.rdropWhile fun c => c == '\r' || c == '\n') ≠ x ++ ['\n'] := by
      intro hx
      have hne : (message.toList.rdropWhile fun c => c == '\r' || c == '\n') ≠ [] := by
        rw [hx]
        simp
      refine List.rdropWhile_last_not _ _ hne ?_
      simp only [hx, List.getLast_concat]
      rfl
    generalize (message.toList.rdropWhile fun c => c == '\r' || c == '\n') = text
      at unbroken hlines trimmed ⊢
    have parts : text.rdropWhile (· != '\n') ++ text.rtakeWhile (· != '\n') = text :=
      List.rdropWhile_append_rtakeWhile
    by_cases hx : text.rdropWhile (· != '\n') = []
    · rw [hx, List.nil_append] at parts
      have hne : text ≠ [] := by
        rintro rfl
        exact absurd (congrArg List.length hlines) (by simp [Text.linesOf])
      rw [parts] at unbroken ⊢
      rw [Text.linesOf_end unbroken (by simpa using hne)] at hlines
      have := congrArg List.getLast? hlines
      rw [List.getLast?_concat] at this
      exact Option.some.inj this
    · obtain ⟨x, hfeed⟩ : ∃ x, text.rdropWhile (· != '\n') = x ++ ['\n'] := by
        have last : (text.rdropWhile (· != '\n')).getLast hx = '\n' := by
          simpa using List.rdropWhile_last_not _ _ hx
        refine ⟨(text.rdropWhile (· != '\n')).dropLast, ?_⟩
        have := (List.dropLast_append_getLast hx).symm
        rwa [last] at this
      rw [hfeed, List.append_assoc, List.singleton_append] at parts
      have hne : text.rtakeWhile (· != '\n') ≠ [] := by
        intro he
        rw [he] at parts
        exact trimmed x parts.symm
      obtain ⟨before, hbefore⟩ := Text.exists_linesOf_last unbroken hne x []
      rw [parts, hlines] at hbefore
      have := congrArg List.getLast? hbefore
      rw [List.getLast?_concat, List.getLast?_concat] at this
      exact (Option.some.inj this).symm

/-! ## Writing and reading -/

/-- A session reads its own id from the commit that it creates unless the description holds a line
that begins as a footer does.  An id is read only from a message that ends with its footer and holds
no other; among the lines that end in a line feed, that footer is the last one unless another line
break comes before it. -/
theorem sessionFooter_roundTrip (paths : List String) (description sessionId text : String) :
    (∀ arguments, commitArguments paths .create description sessionId = pure arguments →
      ∃ message, arguments = ["commit", "-m", message, "--only", "--"] ++ paths ∧
        (parseSessionFooter (stripspace message) = some sessionId ↔ NoFooterLine description)) ∧
    (parseSessionFooter text = some sessionId → EndsWithFooter text sessionId ∧
      (lastFeedLine text = (sessionFooterPrefix ++ sessionId).toList ↔
        ∀ c ∈ lastFeedLine text, Text.isLineBreak c = false)) := by
  refine ⟨fun arguments h => ?_, fun h => ?_⟩
  · obtain ⟨harguments, hd, hs⟩ := commitArguments_accepted h
    exact ⟨_, harguments, parseSessionFooter_createMessage hd hs⟩
  · obtain ⟨hs, ends⟩ := parseSessionFooter_eq_some.1 h
    exact ⟨ends, lastFeedLine_eq_iff ends hs⟩

/-- A description of two lines, and the message that is made of it. -/
theorem sessionFooter_roundTrip_separated :
    parseSessionFooter (stripspace (createMessage "fix\u2028it" "s")) = some "s" ∧
      EndsWithFooter (stripspace (createMessage "fix\u2028it" "s")) "s" := by
  obtain ⟨message, harguments, hread⟩ := (sessionFooter_roundTrip
    ["a"] "fix\u2028it" "s" "").1 _ rfl
  have same : message = createMessage "fix\u2028it" "s" :=
    (List.cons.inj (List.cons.inj (List.cons.inj harguments).2).2).1.symm
  have plain : NoFooterLine "fix\u2028it" := by
    unfold NoFooterLine IsFooterLine
    decide +kernel
  rw [same] at hread
  have read := hread.2 plain
  exact ⟨read, ((sessionFooter_roundTrip [] "" "s" _).2 read).1⟩

/-- A description that holds a line separator and another footer. -/
theorem quoted_footer_unread : ¬ ∀ paths description sessionId arguments,
    commitArguments paths .create description sessionId = pure arguments →
      ∃ message, arguments = ["commit", "-m", message, "--only", "--"] ++ paths ∧
        parseSessionFooter (stripspace message) = some sessionId := by
  intro h
  obtain ⟨message, harguments, hread⟩ := h ["a"] "fix\u2028Codemcp-Remote-Session: t" "s" _ rfl
  have same : message = createMessage "fix\u2028Codemcp-Remote-Session: t" "s" :=
    (List.cons.inj (List.cons.inj (List.cons.inj harguments).2).2).1.symm
  rw [same] at hread
  exact absurd hread (by decide +kernel)

end GitGuard

end CodemcpBridge

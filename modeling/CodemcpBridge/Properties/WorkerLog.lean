import CodemcpBridge.Encoding.Utf8
import CodemcpBridge.LoggingUtils
import Mathlib.Algebra.Order.BigOperators.Group.List

/-!
# The log of a worker

Where a read ends decides what is made of the second byte of a UTF-16LE line break: it is dropped if
it has been read with the first, and begins the next line if not.  A stream is therefore logged in
the same way however it is read if and only if that byte makes no difference to any line that it may
begin.
-/

namespace CodemcpBridge

namespace LoggingUtils

variable {raw rest pending stream : List UInt8} {log : List Char}
  {chunks : List (List UInt8)} {n : ℕ}

/-! ## Pieces between line feeds -/

def segments (stream : List UInt8) : List (List UInt8) := stream.splitOn 0x0A

/-- What a piece adds to the log.  The last one has no line feed, and adds nothing if it is empty.
-/
def shown (last : Bool) (raw : List UInt8) : List Char :=
  if last && raw.isEmpty then [] else (decodeWorkerStderrLine raw).1 ++ ['\n']

/-- The log of pieces that are read as they are. -/
def shownAll : List (List UInt8) → List Char
  | [] => []
  | segment :: segments => shown segments.isEmpty segment ++ shownAll segments

theorem segments_of_notMem (h : 0x0A ∉ raw) : segments raw = [raw] :=
  List.splitOn_eq_singleton h

theorem segments_line (h : 0x0A ∉ raw) (rest : List UInt8) :
    segments (raw ++ 0x0A :: rest) = raw :: segments rest :=
  List.splitOn_append_cons_self_of_not_mem h rest

theorem segments_ne_nil (stream : List UInt8) : segments stream ≠ [] :=
  List.splitOn_ne_nil _ _

theorem segments_zero (rest : List UInt8) : ∃ y ys, segments rest = y :: ys ∧
    segments (0 :: rest) = (0 :: y) :: ys := by
  obtain ⟨y, ys, h⟩ := List.exists_cons_of_ne_nil (segments_ne_nil rest)
  refine ⟨y, ys, h, ?_⟩
  unfold segments at h ⊢
  rw [List.splitOn_cons_eq_if_modifyHead, h]
  rfl

/-- A stream is a piece without a line feed, or begins with one that ends in a line feed. -/
theorem stream_induction {P : List UInt8 → Prop} (last : ∀ raw, 0x0A ∉ raw → P raw)
    (line : ∀ raw rest, 0x0A ∉ raw → P rest → P (raw ++ 0x0A :: rest)) : ∀ stream, P stream := by
  intro stream
  generalize hn : stream.length = n
  induction n using Nat.strong_induction_on generalizing stream with
  | _ n ih =>
    by_cases h : 0x0A ∈ stream
    · obtain ⟨raw, rest, rfl, hraw⟩ := List.eq_append_cons_of_mem h
      refine line raw rest hraw (ih rest.length ?_ rest rfl)
      rw [← hn, List.length_append, List.length_cons]
      omega
    · exact last stream h

/-! ## Logs that a stream may have -/

/-- A log of a stream: the zero byte after a line that is read as UTF-16LE may be dropped. -/
inductive Logged : List UInt8 → List Char → Prop
  | last {raw : List UInt8} (h : 0x0A ∉ raw) : Logged raw (shown true raw)
  | line {raw rest : List UInt8} {log : List Char} (h : 0x0A ∉ raw) (hr : Logged rest log) :
      Logged (raw ++ 0x0A :: rest) (shown false raw ++ log)
  | dropped {raw rest : List UInt8} {log : List Char} (h : 0x0A ∉ raw)
      (hl : looksLikeUtf16le raw = true) (hr : Logged rest log) :
      Logged (raw ++ 0x0A :: 0 :: rest) (shown false raw ++ log)

theorem takeLine_none (h : takeLine pending = none) : 0x0A ∉ pending := by
  induction pending with
  | nil => simp
  | cons b pending ih =>
    rw [takeLine] at h
    by_cases hb : b = 0x0A
    · rw [if_pos hb] at h
      cases h
    · rw [if_neg hb, Option.map_eq_none_iff] at h
      exact fun hm => (List.mem_cons.1 hm).elim (fun e => hb e.symm) (ih h)

theorem takeLine_some (h : takeLine pending = some (raw, rest)) :
    0x0A ∉ raw ∧ pending = raw ++ 0x0A :: rest := by
  induction pending generalizing raw with
  | nil => cases h
  | cons b pending ih =>
    rw [takeLine] at h
    by_cases hb : b = 0x0A
    · rw [if_pos hb] at h
      cases h
      exact ⟨by simp, by rw [hb]; rfl⟩
    · rw [if_neg hb, Option.map_eq_some_iff] at h
      obtain ⟨⟨raw', rest'⟩, hp, he⟩ := h
      cases he
      obtain ⟨hn, rfl⟩ := ih hp
      exact ⟨fun hm => (List.mem_cons.1 hm).elim (fun e => hb e.symm) hn, rfl⟩

theorem takeLine_line (h : 0x0A ∉ raw) (rest : List UInt8) :
    takeLine (raw ++ 0x0A :: rest) = some (raw, rest) := by
  induction raw with
  | nil => rfl
  | cons b raw ih =>
    rw [List.cons_append, takeLine, if_neg fun e : b = 0x0A => h (e ▸ List.mem_cons_self),
      ih fun hm => h (List.mem_cons_of_mem b hm)]
    rfl

theorem takeLine_of_notMem (h : 0x0A ∉ raw) : takeLine raw = none := by
  cases ht : takeLine raw with
  | none => rfl
  | some p =>
    obtain ⟨a, b⟩ := p
    obtain ⟨-, rfl⟩ := takeLine_some ht
    exact absurd (List.mem_append_right a List.mem_cons_self) h

theorem snd_decodeWorkerStderrLine (raw : List UInt8) :
    (decodeWorkerStderrLine raw).2 = looksLikeUtf16le raw := by
  unfold decodeWorkerStderrLine
  by_cases h : looksLikeUtf16le raw = true
  · rw [if_pos h, h]
  · rw [if_neg h, Bool.eq_false_iff.2 h]

/-- The lines that are logged from a buffer, before any log of what is left of it and follows. -/
theorem logged_logLines (tail : List UInt8) (h : Logged ((logLines n pending).2 ++ tail) log) :
    Logged (pending ++ tail) ((logLines n pending).1 ++ log) := by
  induction n generalizing pending with
  | zero => exact h
  | succ n ih =>
    rw [logLines] at h ⊢
    cases ht : takeLine pending with
    | none =>
      rw [ht] at h
      exact h
    | some p =>
      obtain ⟨raw, rest⟩ := p
      obtain ⟨hraw, rfl⟩ := takeLine_some ht
      rw [ht] at h
      dsimp only at h ⊢
      have text : (decodeWorkerStderrLine raw).1 ++ '\n' :: (logLines n
          (if (decodeWorkerStderrLine raw).2 && rest.head? == some 0 then rest.tail else rest)).1 ++
            log
          = shown false raw ++ ((logLines n
          (if (decodeWorkerStderrLine raw).2 && rest.head? == some 0 then rest.tail else rest)).1 ++
            log) := by
        unfold shown
        simp
      rw [text, List.append_assoc, List.cons_append]
      by_cases hd : ((decodeWorkerStderrLine raw).2 && rest.head? == some 0) = true
      · rw [if_pos hd] at h ⊢
        rw [Bool.and_eq_true, snd_decodeWorkerStderrLine, beq_iff_eq] at hd
        obtain ⟨rest, rfl⟩ : ∃ rest', rest = 0 :: rest' := List.head?_eq_some_iff.1 hd.2
        exact .dropped hraw hd.1 (ih h)
      · rw [if_neg hd] at h ⊢
        exact .line hraw (ih h)

theorem notMem_logLines (hn : pending.length ≤ n) : 0x0A ∉ (logLines n pending).2 := by
  induction n generalizing pending with
  | zero =>
    rw [List.length_eq_zero_iff.1 (Nat.le_zero.1 hn)]
    simp [logLines]
  | succ n ih =>
    rw [logLines]
    cases ht : takeLine pending with
    | none => exact takeLine_none ht
    | some p =>
      obtain ⟨raw, rest⟩ := p
      obtain ⟨-, rfl⟩ := takeLine_some ht
      rw [List.length_append, List.length_cons] at hn
      dsimp only
      refine ih ?_
      split_ifs
      · rw [List.length_tail]
        omega
      · omega

theorem forward_end (pending : List UInt8) : forward pending [] = shown true pending := by
  unfold forward shown
  cases pending <;> rfl

/-- Whatever is read at a time, the log is one of those that the stream may have. -/
theorem logged_forward (h : 0x0A ∉ pending) (hc : [] ∉ chunks) :
    Logged (pending ++ chunks.flatten) (forward pending chunks) := by
  induction chunks generalizing pending with
  | nil =>
    rw [forward_end, List.flatten_nil, List.append_nil]
    exact .last h
  | cons chunk chunks ih =>
    have hne : chunk ≠ [] := fun e => hc (e ▸ List.mem_cons_self)
    rw [forward, if_neg hne, List.flatten_cons, ← List.append_assoc]
    exact logged_logLines _ (ih (notMem_logLines le_rfl) fun hm =>
      hc (List.mem_cons_of_mem chunk hm))

/-! ## Steady streams -/

/-- A zero byte that a line read as UTF-16LE leaves behind makes no difference to the next piece. -/
def Steady : List (List UInt8) → Prop
  | segment :: next :: segments =>
    (looksLikeUtf16le segment = true → ∀ kept, next = 0 :: kept →
      shown segments.isEmpty next = shown segments.isEmpty kept) ∧ Steady (next :: segments)
  | _ => True

theorem looksLikeUtf16le_zero (h : looksLikeUtf16le raw = true) :
    looksLikeUtf16le (0 :: raw) = true := by
  unfold looksLikeUtf16le at h ⊢
  rw [Bool.and_eq_true, decide_eq_true_eq, decide_eq_true_eq] at h ⊢
  rw [List.length_cons, List.count_cons_self]
  omega

theorem Steady.of_zero {kept : List UInt8} {segments : List (List UInt8)}
    (h : Steady ((0 :: kept) :: segments)) : Steady (kept :: segments) := by
  cases segments with
  | nil => trivial
  | cons next segments =>
    exact ⟨fun hl => h.1 (looksLikeUtf16le_zero hl), h.2⟩

/-- A steady stream has only the log of its pieces as they are. -/
theorem Logged.eq_shownAll (h : Logged stream log) (hs : Steady (segments stream)) :
    log = shownAll (segments stream) := by
  induction h with
  | last h =>
    rw [segments_of_notMem h]
    exact (List.append_nil _).symm
  | @line raw rest log h _ ih =>
    rw [segments_line h] at hs ⊢
    obtain ⟨y, ys, hrest⟩ := List.exists_cons_of_ne_nil (segments_ne_nil rest)
    rw [hrest] at hs ih ⊢
    rw [ih hs.2]
    rfl
  | @dropped raw rest log h hl _ ih =>
    obtain ⟨y, ys, hrest, hzero⟩ := segments_zero rest
    rw [segments_line h, hzero] at hs ⊢
    rw [hrest] at ih
    rw [ih hs.2.of_zero]
    show _ = shown false raw ++ (shown ys.isEmpty (0 :: y) ++ shownAll ys)
    rw [hs.1 hl y rfl]
    rfl

/-! ## Ways to read a stream -/

/-- The chunks that a stream is read in. -/
def Splits (stream : List UInt8) (chunks : List (List UInt8)) : Prop :=
  chunks.flatten = stream ∧ [] ∉ chunks

/-- A read for each line. -/
def lineChunks : List (List UInt8) → List (List UInt8)
  | [] => []
  | [last] => if last = [] then [] else [last]
  | segment :: next :: segments => (segment ++ [0x0A]) :: lineChunks (next :: segments)

theorem logLines_nil (n : ℕ) : logLines n [] = ([], []) := by
  cases n <;> rfl

theorem logLines_of_notMem (h : 0x0A ∉ raw) (n : ℕ) : logLines n raw = ([], raw) := by
  cases n with
  | zero => rfl
  | succ n => rw [logLines, takeLine_of_notMem h]

theorem logLines_line (h : 0x0A ∉ raw) (n : ℕ) :
    logLines (n + 1) (raw ++ [0x0A]) = (shown false raw, []) := by
  rw [logLines, takeLine_line h]
  dsimp only
  rw [if_neg (by simp), logLines_nil]
  rfl

theorem logLines_dropped (h : 0x0A ∉ raw) (hl : looksLikeUtf16le raw = true) (n : ℕ)
    (rest : List UInt8) : logLines (n + 1) (raw ++ 0x0A :: 0 :: rest) =
      (shown false raw ++ (logLines n rest).1, (logLines n rest).2) := by
  rw [logLines, takeLine_line h]
  dsimp only
  rw [snd_decodeWorkerStderrLine, hl]
  show ((decodeWorkerStderrLine raw).1 ++ '\n' :: (logLines n rest).1, (logLines n rest).2) = _
  unfold shown
  simp

theorem forward_chunk {chunk : List UInt8} (hne : chunk ≠ []) :
    forward [] (chunk :: chunks) =
      (logLines chunk.length chunk).1 ++ forward (logLines chunk.length chunk).2 chunks := by
  rw [forward, if_neg hne]
  rfl

theorem forward_line (h : 0x0A ∉ raw) :
    forward [] ((raw ++ [0x0A]) :: chunks) = shown false raw ++ forward [] chunks := by
  rw [forward_chunk (by simp), List.length_append, List.length_singleton, logLines_line h]

theorem forward_lineChunks : ∀ {segments : List (List UInt8)}, (∀ s ∈ segments, 0x0A ∉ s) →
    forward [] (lineChunks segments) = shownAll segments
  | [], _ => rfl
  | [last], h => by
    unfold lineChunks shownAll
    by_cases hl : last = []
    · rw [if_pos hl, hl]
      rfl
    · rw [if_neg hl, forward_chunk hl, logLines_of_notMem (h last List.mem_cons_self),
        forward_end]
      exact (List.append_nil _).symm
  | segment :: next :: segments, h => by
    rw [lineChunks, forward_line (h segment List.mem_cons_self),
      forward_lineChunks fun s hs => h s (List.mem_cons_of_mem segment hs)]
    rfl

theorem splits_lineChunks : ∀ {segments : List (List UInt8)}, segments ≠ [] →
    Splits ([0x0A].intercalate segments) (lineChunks segments)
  | [last], _ => by
    unfold lineChunks Splits
    by_cases hl : last = []
    · rw [if_pos hl, hl]
      simp
    · rw [if_neg hl]
      exact ⟨by simp, fun hm => hl (List.mem_singleton.1 hm).symm⟩
  | segment :: next :: segments, _ => by
    obtain ⟨hflat, hne⟩ := splits_lineChunks (List.cons_ne_nil next segments)
    refine ⟨?_, fun hm => ?_⟩
    · rw [lineChunks, List.flatten_cons, hflat, List.intercalate_cons_cons]
    · rcases List.mem_cons.1 hm with he | hm
      · exact absurd he.symm (by simp)
      · exact hne hm

/-- A read for the first two lines, of which the second is the last. -/
theorem forward_lastDropped {kept : List UInt8} (h : 0x0A ∉ raw)
    (hl : looksLikeUtf16le raw = true) (hk : 0x0A ∉ kept) :
    forward [] [raw ++ 0x0A :: 0 :: kept] = shown false raw ++ shown true kept := by
  rw [forward_chunk (by simp), List.length_append, List.length_cons, ← Nat.add_assoc,
    logLines_dropped h hl, logLines_of_notMem hk]
  dsimp only
  rw [forward_end, List.append_nil]

/-- A read for the first two lines. -/
theorem forward_dropped {kept : List UInt8} (h : 0x0A ∉ raw)
    (hl : looksLikeUtf16le raw = true) (hk : 0x0A ∉ kept) :
    forward [] ((raw ++ 0x0A :: 0 :: (kept ++ [0x0A])) :: chunks) =
      shown false raw ++ (shown false kept ++ forward [] chunks) := by
  rw [forward_chunk (by simp), List.length_append, List.length_cons, ← Nat.add_assoc,
    logLines_dropped h hl, List.length_cons, ← Nat.add_assoc, logLines_line hk]
  dsimp only
  rw [List.append_assoc]

theorem steady_of_forward : ∀ {segments : List (List UInt8)}, (∀ s ∈ segments, 0x0A ∉ s) →
    (∀ chunks, Splits ([0x0A].intercalate segments) chunks →
      forward [] chunks = shownAll segments) → Steady segments
  | [], _, _ => trivial
  | [_], _, _ => trivial
  | segment :: next :: segments, h, hlog => by
    have hsegment : 0x0A ∉ segment := h segment List.mem_cons_self
    have hrest : ∀ s ∈ next :: segments, 0x0A ∉ s := fun s hs =>
      h s (List.mem_cons_of_mem segment hs)
    have all : shownAll (segment :: next :: segments) =
        shown false segment ++ (shown segments.isEmpty next ++ shownAll segments) := rfl
    refine ⟨fun hl kept hkept => ?_, steady_of_forward hrest fun chunks hc => ?_⟩
    · have hk : 0x0A ∉ kept := fun hm =>
        hrest next List.mem_cons_self (hkept ▸ List.mem_cons_of_mem 0 hm)
      cases segments with
      | nil =>
        have := hlog [segment ++ 0x0A :: 0 :: kept] ⟨by simp [hkept], by simp⟩
        rw [forward_lastDropped hsegment hl hk, all, List.append_cancel_left_eq] at this
        exact (this.trans (List.append_nil _)).symm
      | cons third segments =>
        obtain ⟨hflat, hne⟩ := splits_lineChunks (List.cons_ne_nil third segments)
        have := hlog ((segment ++ 0x0A :: 0 :: (kept ++ [0x0A])) :: lineChunks (third :: segments))
          ⟨by simp [hkept, hflat, List.intercalate_cons_cons], by simp [hne]⟩
        rw [forward_dropped hsegment hl hk, forward_lineChunks fun s hs =>
          hrest s (List.mem_cons_of_mem next hs), all, List.append_cancel_left_eq,
          List.append_cancel_right_eq] at this
        exact this.symm
    · have := hlog ((segment ++ [0x0A]) :: chunks)
        ⟨by rw [List.flatten_cons, hc.1, List.intercalate_cons_cons], by simp [hc.2]⟩
      rw [forward_line hsegment, all, List.append_cancel_left_eq] at this
      exact this

theorem notMem_segments (stream : List UInt8) : ∀ s ∈ segments stream, 0x0A ∉ s := by
  induction stream using stream_induction with
  | last raw h =>
    rw [segments_of_notMem h]
    exact fun s hs => List.mem_singleton.1 hs ▸ h
  | line raw rest h ih =>
    rw [segments_line h]
    intro s hs
    rcases List.mem_cons.1 hs with rfl | hs
    · exact h
    · exact ih s hs

/-- A stream has one log if and only if it is steady. -/
theorem steady_iff (stream : List UInt8) :
    (∀ chunks, Splits stream chunks → forward [] chunks = shownAll (segments stream)) ↔
      Steady (segments stream) := by
  constructor
  · intro h
    refine steady_of_forward (notMem_segments stream) fun chunks hc => h chunks ?_
    rwa [segments, List.intercalate_splitOn] at hc
  · intro h chunks hc
    have logged : Logged ([] ++ chunks.flatten) (forward [] chunks) :=
      logged_forward (by simp) hc.2
    rw [List.nil_append, hc.1] at logged
    exact logged.eq_shownAll h

/-! ## Lines -/

/-- The bytes of a character in UTF-16LE. -/
def utf16le (c : Char) : List UInt8 :=
  let unit (u : ℕ) : List UInt8 := [UInt8.ofNat (u % 256), UInt8.ofNat (u / 256)]
  if c.toNat < 0x10000 then unit c.toNat
  else unit (0xD800 + (c.toNat - 0x10000) / 0x400) ++ unit (0xDC00 + (c.toNat - 0x10000) % 0x400)

/-- A line that a worker writes, with its line break. -/
structure StderrLine where
  text : List Char
  isUtf16le : Bool
  hasReturn : Bool
  oneLine : '\n' ∉ text
  ascii : isUtf16le = true → 2 ≤ text.countP fun c => c.toNat < 0x80

namespace StderrLine

variable (l : StderrLine)

/-- The text of the line and the carriage return of its line break, if it has one. -/
def content : List Char := l.text ++ if l.hasReturn then ['\r'] else []

def encoded : List UInt8 :=
  if l.isUtf16le then l.content.flatMap utf16le else l.content.flatMap String.utf8EncodeChar

/-- What follows the line feed of the line. -/
def leftover : List UInt8 := if l.isUtf16le then [0] else []

def bytes : List UInt8 := l.encoded ++ 0x0A :: l.leftover

end StderrLine

def streamOf (lines : List StderrLine) : List UInt8 := lines.flatMap StderrLine.bytes

/-- The log of the lines. -/
def logOf (lines : List StderrLine) : List Char := lines.flatMap fun l => l.text ++ ['\n']

/-- Lines that are read back after some bytes are left over, which may be dropped: no text holds the
byte of a line feed, every line decodes to its text with what is left over before it, and without a
zero byte before it that may be dropped, and nothing is left over at the end. -/
def ReadBack : List UInt8 → Bool → List StderrLine → Prop
  | leftover, _, [] => leftover = []
  | leftover, dropped, l :: lines =>
    0x0A ∉ l.encoded ∧ (decodeWorkerStderrLine (leftover ++ l.encoded)).1 = l.text ∧
      (dropped = true → ∀ kept, leftover ++ l.encoded = 0 :: kept →
        (decodeWorkerStderrLine kept).1 = l.text) ∧
      ReadBack l.leftover (looksLikeUtf16le (leftover ++ l.encoded)) lines

theorem segments_streamOf {l : StderrLine} {leftover : List UInt8} (h : 0x0A ∉ leftover)
    (hl : 0x0A ∉ l.encoded) (lines : List StderrLine) :
    segments (leftover ++ streamOf (l :: lines)) =
      (leftover ++ l.encoded) :: segments (l.leftover ++ streamOf lines) := by
  have piece : 0x0A ∉ leftover ++ l.encoded := fun hm => (List.mem_append.1 hm).elim h hl
  rw [← segments_line piece]
  unfold streamOf StderrLine.bytes
  simp

theorem notMem_leftover (l : StderrLine) : 0x0A ∉ l.leftover := by
  unfold StderrLine.leftover
  split_ifs <;> decide

/-- Lines that are read back are logged as they are, and steadily. -/
theorem ReadBack.logged {leftover : List UInt8} {dropped : Bool} {lines : List StderrLine}
    (h : ReadBack leftover dropped lines) (hn : 0x0A ∉ leftover) :
    shownAll (segments (leftover ++ streamOf lines)) = logOf lines ∧
      Steady (segments (leftover ++ streamOf lines)) ∧
      ∃ next segments', segments (leftover ++ streamOf lines) = next :: segments' ∧
        (dropped = true → ∀ kept, next = 0 :: kept →
          shown segments'.isEmpty next = shown segments'.isEmpty kept) := by
  induction lines generalizing leftover dropped with
  | nil =>
    obtain rfl : leftover = [] := h
    exact ⟨rfl, trivial, [], [], rfl, fun _ kept hk => nomatch hk⟩
  | cons l lines ih =>
    obtain ⟨hl, htext, hkept, hlines⟩ := h
    obtain ⟨hall, hsteady, next, segments', hseg, hpair⟩ := ih hlines (notMem_leftover l)
    rw [hseg] at hall hsteady
    rw [segments_streamOf hn hl, hseg]
    refine ⟨?_, ⟨hpair, hsteady⟩, _, _, rfl, fun hd kept hk => ?_⟩
    · show (decodeWorkerStderrLine (leftover ++ l.encoded)).1 ++ ['\n'] ++
        shownAll (next :: segments') =
        l.text ++ ['\n'] ++ logOf lines
      rw [htext, hall]
    · show (decodeWorkerStderrLine (leftover ++ l.encoded)).1 ++ ['\n'] =
        (decodeWorkerStderrLine kept).1 ++ ['\n']
      rw [htext, hkept hd kept hk]

theorem eq_ten_of_ofNat {u : ℕ} (h : Char.ofNat u = '\n') : u = 10 := by
  by_cases hv : u.isValidChar
  · have := congrArg Char.toNat h
    rwa [Text.toNat_ofNat hv] at this
  · unfold Char.ofNat at h
    rw [dif_neg hv] at h
    exact absurd (congrArg Char.toNat h) (by decide)

theorem eq_ten_of_unitChar {u : ℕ} (h : unitChar u = '\n') : u = 10 := by
  unfold unitChar at h
  by_cases hl : isLowSurrogate u = true
  · rw [if_pos hl] at h
    exact absurd h (by decide)
  · rw [if_neg hl] at h
    exact eq_ten_of_ofNat h

theorem surrogateChar_ne (high low : ℕ) : surrogateChar high low ≠ '\n' := by
  intro h
  have := eq_ten_of_ofNat h
  omega

/-- A line feed in decoded code units is a byte of the stream. -/
theorem mem_decodeUtf16le {prev : Option ℕ} {bs : List ℕ} (h : '\n' ∈ decodeUtf16le prev bs) :
    10 ∈ bs := by
  induction prev, bs using decodeUtf16le.induct with
  | case1 => cases h
  | case2 | case3 | case4 => exact absurd (List.mem_singleton.1 h) (by decide)
  | case5 a b bs hu ih =>
    rw [decodeUtf16le, if_pos hu] at h
    exact List.mem_cons_of_mem a (List.mem_cons_of_mem b (ih h))
  | case6 a b bs hu ih =>
    rw [decodeUtf16le, if_neg hu] at h
    rcases List.mem_cons.1 h with h | h
    · have := eq_ten_of_unitChar h.symm
      obtain rfl : a = 10 := by omega
      exact List.mem_cons_self
    · exact List.mem_cons_of_mem a (List.mem_cons_of_mem b (ih h))
  | case7 high a b bs hl ih =>
    rw [decodeUtf16le, if_pos hl] at h
    rcases List.mem_cons.1 h with h | h
    · exact absurd h.symm (surrogateChar_ne high _)
    · exact List.mem_cons_of_mem a (List.mem_cons_of_mem b (ih h))
  | case8 high a b bs hl hu ih =>
    rw [decodeUtf16le, if_neg hl, if_pos hu] at h
    rcases List.mem_cons.1 h with h | h
    · exact absurd h (by decide)
    · exact List.mem_cons_of_mem a (List.mem_cons_of_mem b (ih h))
  | case9 high a b bs hl hu ih =>
    rw [decodeUtf16le, if_neg hl, if_neg hu] at h
    rcases List.mem_cons.1 h with h | h
    · exact absurd h (by decide)
    rcases List.mem_cons.1 h with h | h
    · have := eq_ten_of_unitChar h.symm
      obtain rfl : a = 10 := by omega
      exact List.mem_cons_self
    · exact List.mem_cons_of_mem a (List.mem_cons_of_mem b (ih h))

/-- A piece without a line feed is decoded to a text without one. -/
theorem notMem_decodeWorkerStderrLine (h : 0x0A ∉ raw) : '\n' ∉ (decodeWorkerStderrLine raw).1 := by
  have byte {bs : List UInt8} (hs : bs <:+ raw) : 10 ∉ bs.map UInt8.toNat := by
    intro hm
    obtain ⟨b, hb, hten⟩ := List.mem_map.1 hm
    obtain rfl : b = 0x0A := UInt8.toNat_inj.1 hten
    exact h (hs.subset hb)
  unfold decodeWorkerStderrLine
  split_ifs
  · intro hm
    exact byte (List.dropWhile_suffix _) (mem_decodeUtf16le
      ((List.rdropWhile_prefix _ _).subset hm))
  · intro hm
    rcases Text.mem_decodeFrom (by decide) ((List.rdropWhile_prefix _ _).subset hm) with hm | hm
    · exact absurd hm (by decide)
    · exact byte List.suffix_rfl hm

/-- A log has a line feed at least for each one of the stream. -/
theorem count_shownAll (stream : List UInt8) :
    stream.count 0x0A ≤ (shownAll (segments stream)).count '\n' := by
  induction stream using stream_induction with
  | last raw h =>
    rw [List.count_eq_zero.2 h]
    exact Nat.zero_le _
  | line raw rest h ih =>
    obtain ⟨y, ys, hrest⟩ := List.exists_cons_of_ne_nil (segments_ne_nil rest)
    rw [segments_line h, List.count_append, List.count_eq_zero.2 h, List.count_cons_self]
    have text : shownAll (raw :: segments rest) =
        (decodeWorkerStderrLine raw).1 ++ ('\n' :: shownAll (segments rest)) := by
      rw [hrest]
      show ((decodeWorkerStderrLine raw).1 ++ ['\n']) ++ shownAll (y :: ys) = _
      simp
    rw [text, List.count_append, List.count_cons_self]
    omega

theorem count_logOf (lines : List StderrLine) : (logOf lines).count '\n' = lines.length := by
  induction lines with
  | nil => rfl
  | cons l lines ih =>
    have text : logOf (l :: lines) = l.text ++ ('\n' :: logOf lines) := by
      unfold logOf
      simp
    rw [text, List.count_append, List.count_eq_zero.2 l.oneLine, List.count_cons_self, ih,
      List.length_cons]
    omega

theorem count_streamOf (lines : List StderrLine) : (streamOf lines).count 0x0A =
    lines.length + (lines.map fun l => l.encoded.count 0x0A).sum := by
  induction lines with
  | nil => rfl
  | cons l lines ih =>
    have bytes : streamOf (l :: lines) = l.encoded ++ 0x0A :: (l.leftover ++ streamOf lines) := by
      unfold streamOf StderrLine.bytes
      simp
    rw [bytes, List.count_append, List.count_cons_self, List.count_append,
      List.count_eq_zero.2 (notMem_leftover l), ih, List.map_cons, List.sum_cons, List.length_cons]
    omega

theorem line_inj {a b x y : List Char} (ha : '\n' ∉ a) (hb : '\n' ∉ b)
    (h : a ++ '\n' :: x = b ++ '\n' :: y) : a = b ∧ x = y := by
  have first : (a ++ '\n' :: x).takeWhile (· != '\n') = a ∧
      (b ++ '\n' :: y).takeWhile (· != '\n') = b := by
    constructor
    · rw [List.takeWhile_append_of_pos fun c hc => by simpa using fun e : c = '\n' => ha (e ▸ hc)]
      simp
    · rw [List.takeWhile_append_of_pos fun c hc => by simpa using fun e : c = '\n' => hb (e ▸ hc)]
      simp
  obtain rfl : a = b := by rw [← first.1, h, first.2]
  rw [List.append_cancel_left_eq] at h
  exact ⟨rfl, (List.cons.inj h).2⟩

/-- Lines that are logged as they are, and steadily, are read back. -/
theorem ReadBack.of_logged {leftover : List UInt8} {dropped : Bool} {lines : List StderrLine}
    (hn : 0x0A ∉ leftover) (hl : ∀ l ∈ lines, 0x0A ∉ l.encoded)
    (hall : shownAll (segments (leftover ++ streamOf lines)) = logOf lines)
    (hsteady : Steady (segments (leftover ++ streamOf lines)))
    (hpair : dropped = true → ∀ next segments' kept,
      segments (leftover ++ streamOf lines) = next :: segments' → next = 0 :: kept →
        shown segments'.isEmpty next = shown segments'.isEmpty kept) :
    ReadBack leftover dropped lines := by
  induction lines generalizing leftover dropped with
  | nil =>
    rw [streamOf, List.flatMap_nil, List.append_nil, segments_of_notMem hn] at hall
    cases leftover with
    | nil => rfl
    | cons b leftover =>
      have := congrArg List.length hall
      simp [shownAll, shown, logOf] at this
  | cons l lines ih =>
    have hfirst := hl l List.mem_cons_self
    have hrest := fun l' hl' => hl l' (List.mem_cons_of_mem l hl')
    have piece : 0x0A ∉ leftover ++ l.encoded := fun hm => (List.mem_append.1 hm).elim hn hfirst
    obtain ⟨next, segments', hseg⟩ := List.exists_cons_of_ne_nil
      (segments_ne_nil (l.leftover ++ streamOf lines))
    rw [segments_streamOf hn hfirst, hseg] at hall hsteady hpair
    have split : (decodeWorkerStderrLine (leftover ++ l.encoded)).1 ++
        '\n' :: shownAll (next :: segments') = l.text ++ '\n' :: logOf lines := by
      have := hall
      unfold logOf at this ⊢
      rw [List.flatMap_cons, List.append_assoc] at this
      refine Eq.trans ?_ this
      show _ = ((decodeWorkerStderrLine (leftover ++ l.encoded)).1 ++ ['\n']) ++ _
      rw [List.append_assoc]
      rfl
    obtain ⟨htext, hlog⟩ := line_inj (notMem_decodeWorkerStderrLine piece) l.oneLine split
    refine ⟨hfirst, htext, fun hd kept hk => ?_, ?_⟩
    · have same : (decodeWorkerStderrLine (leftover ++ l.encoded)).1 ++ ['\n'] =
          (decodeWorkerStderrLine kept).1 ++ ['\n'] := hpair hd _ _ kept rfl hk
      rw [← List.append_cancel_right same, htext]
    · rw [← hseg] at hlog hsteady
      refine ih (notMem_leftover l) hrest hlog ?_ fun hlooks next' segs kept hs hk => ?_
      · rw [hseg] at hsteady ⊢
        exact hsteady.2
      · rw [hseg] at hs hsteady
        obtain ⟨rfl, rfl⟩ := List.cons.inj hs
        exact hsteady.1 hlooks kept hk

/-- The log of lines is the lines, however they are read, if and only if they are read back. -/
theorem readBack_iff (lines : List StderrLine) :
    (∀ chunks, Splits (streamOf lines) chunks → forward [] chunks = logOf lines) ↔
      ReadBack [] false lines := by
  constructor
  · intro h
    have own : shownAll (segments (streamOf lines)) = logOf lines := by
      have hs := splits_lineChunks (segments_ne_nil (streamOf lines))
      rw [segments, List.intercalate_splitOn] at hs
      rw [← h _ hs]
      exact (forward_lineChunks (notMem_segments (streamOf lines))).symm
    have steady := (steady_iff (streamOf lines)).1 fun chunks hc => (h chunks hc).trans own.symm
    have counts := count_shownAll (streamOf lines)
    rw [own, count_logOf, count_streamOf] at counts
    have free : ∀ l ∈ lines, 0x0A ∉ l.encoded := by
      intro l hl hm
      have pos := List.count_pos_iff.2 hm
      have := List.single_le_sum (fun _ _ => Nat.zero_le _) _
        (List.mem_map_of_mem (f := fun l : StderrLine => l.encoded.count 0x0A) hl)
      omega
    exact @ReadBack.of_logged [] false lines (by simp) free own steady fun hd => nomatch hd
  · intro h chunks hc
    obtain ⟨hall, hsteady, -⟩ := h.logged (by simp)
    exact ((steady_iff (streamOf lines)).2 hsteady chunks hc).trans hall

theorem notMem_encoded {l : StderrLine} {b : UInt8} (hutf8 : l.isUtf16le = false)
    (hb : b.toNat < 0x80) (h : ∀ c ∈ l.content, c.toNat ≠ b.toNat) : b ∉ l.encoded := by
  unfold StderrLine.encoded
  rw [hutf8, if_neg Bool.false_ne_true]
  intro hm
  obtain ⟨c, hc, hbc⟩ := List.mem_flatMap.1 hm
  exact h c hc (Text.mem_utf8 hb (List.mem_map_of_mem hbc))

/-- A line of UTF-8 without a zero byte, which ends in no carriage return of its own, decodes to its
text. -/
theorem decode_utf8 {l : StderrLine} (hutf8 : l.isUtf16le = false) (hzero : '\x00' ∉ l.text)
    (hreturn : l.text.getLast? ≠ some '\r') :
    decodeWorkerStderrLine l.encoded = (l.text, false) := by
  have zero : 0 ∉ l.encoded := notMem_encoded hutf8 (by decide) fun c hc he => by
    obtain rfl : c = '\x00' := Char.toNat_inj.1 he
    rcases List.mem_append.1 hc with hc | hc
    · exact hzero hc
    · revert hc
      split_ifs <;> decide
  have plain : looksLikeUtf16le l.encoded = false := by
    unfold looksLikeUtf16le
    rw [List.count_eq_zero.2 zero, Bool.and_eq_false_iff, decide_eq_false_iff_not]
    right
    rw [decide_eq_false_iff_not]
    omega
  have bytes : l.encoded.map UInt8.toNat = l.content.flatMap Text.utf8 := by
    unfold StderrLine.encoded
    rw [hutf8, if_neg Bool.false_ne_true, List.map_flatMap]
    rfl
  have enough : l.content.length ≤ l.encoded.length := by
    have size := Text.length_le_byteSize l.content
    rwa [← Text.length_flatMap_utf8, ← bytes, List.length_map] at size
  unfold decodeWorkerStderrLine
  rw [plain, if_neg Bool.false_ne_true, bytes, Text.decodeFrom_flatMap _ enough]
  have trimmed : l.text.rdropWhile (· == '\r') = l.text := by
    refine List.rdropWhile_eq_self_iff.2 fun hne he => hreturn ?_
    rw [List.getLast?_eq_some_getLast hne, beq_iff_eq.1 he]
  unfold StderrLine.content
  cases l.hasReturn with
  | false => rw [if_neg Bool.false_ne_true, List.append_nil, trimmed]
  | true => rw [if_pos rfl, List.rdropWhile_concat_pos _ _ _ rfl, trimmed]

/-- Lines of UTF-8 without zero bytes, which end in no carriage return of their own, are read back.
-/
theorem readBack_utf8 {lines : List StderrLine} (hutf8 : ∀ l ∈ lines, l.isUtf16le = false)
    (hzero : ∀ l ∈ lines, '\x00' ∉ l.text) (hreturn : ∀ l ∈ lines, l.text.getLast? ≠ some '\r') :
    ReadBack [] false lines := by
  induction lines with
  | nil => rfl
  | cons l lines ih =>
    have decoded := decode_utf8 (hutf8 l List.mem_cons_self) (hzero l List.mem_cons_self)
      (hreturn l List.mem_cons_self)
    have plain : looksLikeUtf16le l.encoded = false := by
      rw [← snd_decodeWorkerStderrLine, decoded]
    have none : l.leftover = [] := by
      unfold StderrLine.leftover
      rw [hutf8 l List.mem_cons_self, if_neg Bool.false_ne_true]
    refine ⟨notMem_encoded (hutf8 l List.mem_cons_self) (by decide) fun c hc he => ?_, ?_,
      (fun hd => nomatch hd), ?_⟩
    · obtain rfl : c = '\n' := Char.toNat_inj.1 he
      rcases List.mem_append.1 hc with hc | hc
      · exact l.oneLine hc
      · revert hc
        split_ifs <;> decide
    · rw [List.nil_append, decoded]
    · rw [List.nil_append, plain, none]
      exact ih (fun l' h => hutf8 l' (List.mem_cons_of_mem l h))
        (fun l' h => hzero l' (List.mem_cons_of_mem l h))
        (fun l' h => hreturn l' (List.mem_cons_of_mem l h))

/-- A stream is logged in the same way however it is read if and only if it is steady, and as its
lines if and only if they are read back. -/
theorem forward_independent (stream : List UInt8) (lines : List StderrLine) :
    ((∀ chunks chunks', Splits stream chunks → Splits stream chunks' →
        forward [] chunks = forward [] chunks') ↔ Steady (segments stream)) ∧
    ((∀ chunks, Splits (streamOf lines) chunks → forward [] chunks = logOf lines) ↔
      ReadBack [] false lines) := by
  refine ⟨?_, readBack_iff lines⟩
  rw [← steady_iff]
  constructor
  · intro h chunks hc
    have hs := splits_lineChunks (segments_ne_nil stream)
    rw [segments, List.intercalate_splitOn] at hs
    rw [h _ _ hc hs]
    exact forward_lineChunks (notMem_segments stream)
  · intro h chunks chunks' hc hc'
    rw [h chunks hc, h chunks' hc']

/-- The line `ab` as a Windows tool or as the worker itself writes it. -/
def sampleLine (isUtf16le hasReturn : Bool) : StderrLine where
  text := ['a', 'b']
  isUtf16le
  hasReturn
  oneLine := by decide +kernel
  ascii _ := by decide +kernel

example : streamOf [sampleLine true true, sampleLine false false] =
    [0x61, 0, 0x62, 0, 0x0D, 0, 0x0A, 0, 0x61, 0x62, 0x0A] := by
  decide +kernel

example : ReadBack [] false [sampleLine false true, sampleLine false false] :=
  readBack_utf8 (by decide +kernel) (by decide +kernel) (by decide +kernel)

/-- A read that ends between the two bytes of a UTF-16LE line break. -/
theorem cut_lineBreak_logged : ¬ ∀ stream chunks chunks', Splits stream chunks →
    Splits stream chunks' → forward [] chunks = forward [] chunks' := by
  intro h
  have same := h [0x61, 0, 0x62, 0, 0x0A, 0] [[0x61, 0, 0x62, 0, 0x0A], [0]]
    [[0x61, 0, 0x62, 0, 0x0A, 0]] ⟨rfl, by decide⟩ ⟨rfl, by decide⟩
  exact absurd same (by decide +kernel)

end LoggingUtils

end CodemcpBridge

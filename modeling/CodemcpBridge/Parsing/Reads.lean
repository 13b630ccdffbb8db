import Mathlib.Data.List.TakeWhile

/-!
# Parses and texts that go on

A parser reads a value off the front of a text.  `Consumes ok p` says that what it reads is a piece
of the text, of characters in `ok`; `Reads ok p p'` says besides that `p'` reads the same where the
text goes on with a new line.  A parser made of parts reads if its parts do.
-/

namespace Parsing

/-- A parser: the value at the front of a text, and the rest. -/
def Parse (α : Type) : Type := List Char → Option (α × List Char)

namespace Parse

variable {α β : Type}

instance : Monad Parse where
  pure a := fun s => some (a, s)
  bind p f := fun s => (p s).bind fun r => f r.1 r.2

def fail : Parse α := fun _ => none

/-- What the parser reads, if it reads anything. -/
def attempt (p : Parse α) : Parse (Option α) := fun s =>
  match p s with
  | some (a, r) => some (some a, r)
  | none => some (none, s)

/-- The first of two parsers that reads anything. -/
def orElse (p q : Parse α) : Parse α := do
  match ← attempt p with
  | some a => pure a
  | none => q

/-- A character of some kind. -/
def satisfy (p : Char → Bool) : Parse Char
  | [] => none
  | c :: s => if p c then some (c, s) else none

def char (c : Char) : Parse Unit := do
  let _ ← satisfy (· == c)
  pure ()

/-- As many characters of some kind as there are. -/
def many (p : Char → Bool) : Parse (List Char) := fun s => some (s.takeWhile p, s.dropWhile p)

/-- These characters. -/
def word : List Char → Parse Unit
  | [] => pure ()
  | c :: cs => do
    char c
    word cs

def skip (p : Char → Bool) : Parse Unit := do
  let _ ← many p
  pure ()

/-- The next character, which is not read. -/
def first : Parse (Option Char) := fun s => some (s.head?, s)

/-- Whether the text starts so; nothing is read. -/
def starts (start : List Char) : Parse Bool := fun s => some (start.isPrefixOf s, s)

/-- A parser that sees the current line only. -/
def line (p : Parse α) : Parse α := fun s =>
  (p (s.takeWhile (· != '\n'))).map fun r => (r.1, r.2 ++ s.dropWhile (· != '\n'))

/-- Read characters from state to state until there is no next state, and put together what each of
them stands for. -/
def scan {σ : Type} (step : σ → Char → Option (List Char × Option σ)) : σ → Parse (List Char)
  | _, [] => none
  | x, c :: s => match step x c with
    | none => none
    | some (out, none) => some (out, s)
    | some (out, some y) => (scan step y s).map fun r => (out ++ r.1, r.2)

/-- Where a scanner is after some characters that do not end it, and what they stand for. -/
def run {σ : Type} (step : σ → Char → Option (List Char × Option σ)) :
    σ → List Char → Option (List Char × σ)
  | x, [] => some ([], x)
  | x, c :: s => match step x c with
    | some (out, some y) => (run step y s).map fun r => (out ++ r.1, r.2)
    | _ => none

theorem satisfy_cons (p : Char → Bool) (c : Char) (s : List Char) :
    satisfy p (c :: s) = if p c then some (c, s) else none := rfl

section Scan

variable {σ : Type} {step : σ → Char → Option (List Char × Option σ)} {x y : σ} {c : Char}
  {s out : List Char}

theorem scan_stuck (h : step x c = none) : scan step x (c :: s) = none := by
  simp only [scan, h]

theorem scan_end (h : step x c = some (out, none)) : scan step x (c :: s) = some (out, s) := by
  simp only [scan, h]

theorem scan_go (h : step x c = some (out, some y)) :
    scan step x (c :: s) = (scan step y s).map fun r => (out ++ r.1, r.2) := by
  simp only [scan, h]

theorem scan_append : ∀ {x : σ} {u out : List Char} {y : σ}, run step x u = some (out, y) →
    scan step x (u ++ s) = (scan step y s).map fun r => (out ++ r.1, r.2)
  | x, [], out, y, h => by
      cases h
      simp
  | x, c :: u, out, y, h => by
      unfold run at h
      split at h
      · next out' z hz =>
        obtain ⟨⟨out'', y'⟩, hr, he⟩ := Option.map_eq_some_iff.1 h
        cases he
        rw [List.cons_append, scan_go hz, scan_append hr, Option.map_map]
        simp [Function.comp_def]
      · cases h

end Scan

theorem bind_apply (p : Parse α) (f : α → Parse β) (s : List Char) :
    (p >>= f) s = (p s).bind fun r => f r.1 r.2 := rfl

theorem bind_eq_some {p : Parse α} {f : α → Parse β} {s r : List Char} {b : β} :
    (p >>= f) s = some (b, r) ↔ ∃ a s', p s = some (a, s') ∧ f a s' = some (b, r) := by
  simp only [bind_apply, Option.bind_eq_some_iff, Prod.exists]

end Parse

open Parse

variable {α β : Type} {ok : Char → Prop}

/-! ## What is read -/

/-- What the parser reads is a piece of the text, of characters in `ok`. -/
def Consumes (ok : Char → Prop) (p : Parse α) : Prop :=
  ∀ s a r, p s = some (a, r) → ∃ u, s = u ++ r ∧ ∀ c ∈ u, ok c

namespace Consumes

theorem pure (a : α) : Consumes ok (Pure.pure a : Parse α) := by
  intro s b r h
  cases h
  exact ⟨[], rfl, fun _ hc => (by cases hc)⟩

theorem fail : Consumes ok (Parse.fail : Parse α) := fun _ _ _ h => by cases h

theorem bind {p : Parse α} {f : α → Parse β} (hp : Consumes ok p) (hf : ∀ a, Consumes ok (f a)) :
    Consumes ok (p >>= f) := by
  intro s b r h
  obtain ⟨a, s', ha, hb⟩ := bind_eq_some.1 h
  obtain ⟨u, rfl, hu⟩ := hp s a s' ha
  obtain ⟨v, rfl, hv⟩ := hf a s' b r hb
  refine ⟨u ++ v, (List.append_assoc u v r).symm, fun c hc => ?_⟩
  rcases List.mem_append.1 hc with hc | hc
  · exact hu c hc
  · exact hv c hc

theorem attempt {p : Parse α} (hp : Consumes ok p) : Consumes ok p.attempt := by
  intro s a r h
  unfold Parse.attempt at h
  split at h
  · next heq =>
    cases h
    exact hp s _ r heq
  · cases h
    exact ⟨[], rfl, fun _ hc => (by cases hc)⟩

theorem orElse {p q : Parse α} (hp : Consumes ok p) (hq : Consumes ok q) :
    Consumes ok (p.orElse q) :=
  bind hp.attempt fun
    | some a => pure a
    | none => hq

theorem satisfy {p : Char → Bool} (h : ∀ c, p c = true → ok c) :
    Consumes ok (Parse.satisfy p) := by
  intro s a r hs
  cases s with
  | nil => cases hs
  | cons c s =>
    rw [satisfy_cons] at hs
    split_ifs at hs with hc
    cases hs
    exact ⟨[a], rfl, fun d hd => List.mem_singleton.1 hd ▸ h a hc⟩

theorem char {c : Char} (h : ok c) : Consumes ok (Parse.char c) :=
  bind (satisfy fun _ hd => eq_of_beq hd ▸ h) fun _ => pure ()

theorem word {cs : List Char} (h : ∀ c ∈ cs, ok c) : Consumes ok (Parse.word cs) := by
  induction cs with
  | nil => exact pure ()
  | cons c cs ih =>
    exact bind (char (h c List.mem_cons_self)) fun _ => ih fun d hd =>
      h d (List.mem_cons_of_mem _ hd)

theorem many {p : Char → Bool} (h : ∀ c, p c = true → ok c) : Consumes ok (Parse.many p) := by
  intro s a r hs
  cases hs
  exact ⟨s.takeWhile p, List.takeWhile_append_dropWhile.symm,
    fun c hc => h c (List.mem_takeWhile_imp hc)⟩

theorem skip {p : Char → Bool} (h : ∀ c, p c = true → ok c) : Consumes ok (Parse.skip p) :=
  bind (many h) fun _ => pure ()

theorem first : Consumes ok Parse.first := by
  intro s a r h
  cases h
  exact ⟨[], rfl, fun _ hc => (by cases hc)⟩

theorem starts (start : List Char) : Consumes ok (Parse.starts start) := by
  intro s a r h
  cases h
  exact ⟨[], rfl, fun _ hc => (by cases hc)⟩

theorem scan {σ : Type} {step : σ → Char → Option (List Char × Option σ)}
    (h : ∀ x c out, step x c = some out → ok c) (x : σ) : Consumes ok (Parse.scan step x) := by
  intro s
  induction s generalizing x with
  | nil => exact fun a r hs => by cases hs
  | cons c s ih =>
    intro a r hs
    rcases heq : step x c with _ | ⟨out, _ | y⟩
    · rw [scan_stuck heq] at hs
      cases hs
    · rw [scan_end heq] at hs
      cases hs
      exact ⟨[c], rfl, fun d hd => List.mem_singleton.1 hd ▸ h x c _ heq⟩
    · rw [scan_go heq] at hs
      obtain ⟨⟨b, r'⟩, hb, hr⟩ := Option.map_eq_some_iff.1 hs
      cases hr
      obtain ⟨u, rfl, hu⟩ := ih y b r' hb
      refine ⟨c :: u, rfl, fun d hd => ?_⟩
      rcases List.mem_cons.1 hd with rfl | hd
      · exact h x d _ heq
      · exact hu d hd

end Consumes

/-! ## Texts that go on -/

section Lines

variable {p : Char → Bool} {t : List Char}

theorem takeWhile_append_line (s : List Char) (hline : p '\n' = false) :
    (s ++ '\n' :: t).takeWhile p = s.takeWhile p := by
  induction s with
  | nil => exact List.takeWhile_cons_of_neg (by simp [hline])
  | cons c s ih =>
    by_cases hc : p c
    · rw [List.cons_append, List.takeWhile_cons_of_pos hc, List.takeWhile_cons_of_pos hc, ih]
    · rw [List.cons_append, List.takeWhile_cons_of_neg hc, List.takeWhile_cons_of_neg hc]

theorem dropWhile_append_line (s : List Char) (hline : p '\n' = false) :
    (s ++ '\n' :: t).dropWhile p = s.dropWhile p ++ '\n' :: t := by
  induction s with
  | nil => exact List.dropWhile_cons_of_neg (by simp [hline])
  | cons c s ih =>
    by_cases hc : p c
    · rw [List.cons_append, List.dropWhile_cons_of_pos hc, List.dropWhile_cons_of_pos hc, ih]
    · rw [List.cons_append, List.dropWhile_cons_of_neg hc, List.dropWhile_cons_of_neg hc]
      rfl

theorem isPrefixOf_append_line {start : List Char} (s : List Char) (h : '\n' ∉ start) :
    start.isPrefixOf (s ++ '\n' :: t) = start.isPrefixOf s := by
  induction start generalizing s with
  | nil => simp
  | cons c start ih =>
    cases s with
    | nil =>
      have : c ≠ '\n' := fun hc => h (by simp [hc])
      simp [List.isPrefixOf, this]
    | cons d s => simp [List.isPrefixOf, ih s fun hc => h (List.mem_cons_of_mem _ hc)]

end Lines

/-- What `p` reads is a piece of the text, of characters in `ok`, and `p'` reads the same where the
text goes on with a new line. -/
def Reads (ok : Char → Prop) (p p' : Parse α) : Prop :=
  ∀ s a r, p s = some (a, r) → ∃ u, s = u ++ r ∧ (∀ c ∈ u, ok c) ∧
    ∀ t, p' (s ++ '\n' :: t) = some (a, r ++ '\n' :: t)

/-- The same of what `p` reads short of the end of the text. -/
def ReadsWithin (ok : Char → Prop) (p p' : Parse α) : Prop :=
  ∀ s a r, p s = some (a, r) → r ≠ [] → ∃ u, s = u ++ r ∧ (∀ c ∈ u, ok c) ∧
    ∀ t, p' (s ++ '\n' :: t) = some (a, r ++ '\n' :: t)

namespace Reads

theorem pure (a : α) : Reads ok (Pure.pure a) (Pure.pure a) := by
  intro s b r h
  cases h
  exact ⟨[], rfl, fun _ hc => (by cases hc), fun _ => rfl⟩

theorem fail {p' : Parse α} : Reads ok Parse.fail p' := fun _ _ _ h => by cases h

theorem within {p p' : Parse α} (h : Reads ok p p') : ReadsWithin ok p p' :=
  fun s a r hs _ => h s a r hs

theorem bind {p p' : Parse α} {f f' : α → Parse β} (hp : Reads ok p p')
    (hf : ∀ a, Reads ok (f a) (f' a)) : Reads ok (p >>= f) (p' >>= f') := by
  intro s b r h
  obtain ⟨a, s', ha, hb⟩ := bind_eq_some.1 h
  obtain ⟨u, rfl, hu, hgo⟩ := hp s a s' ha
  obtain ⟨v, rfl, hv, hgo'⟩ := hf a s' b r hb
  refine ⟨u ++ v, (List.append_assoc u v r).symm, fun c hc => ?_, fun t => ?_⟩
  · rcases List.mem_append.1 hc with hc | hc
    · exact hu c hc
    · exact hv c hc
  · exact bind_eq_some.2 ⟨a, _, hgo t, hgo' t⟩

theorem satisfy {p : Char → Bool} (h : ∀ c, p c = true → ok c) :
    Reads ok (Parse.satisfy p) (Parse.satisfy p) := by
  intro s a r hs
  obtain ⟨u, hu, hok⟩ := Consumes.satisfy h s a r hs
  refine ⟨u, hu, hok, fun t => ?_⟩
  cases s with
  | nil => cases hs
  | cons c s =>
    rw [satisfy_cons] at hs
    split_ifs at hs with hc
    cases hs
    exact if_pos hc

theorem char {c : Char} (h : ok c) : Reads ok (Parse.char c) (Parse.char c) :=
  bind (satisfy fun _ hd => eq_of_beq hd ▸ h) fun _ => pure ()

theorem many {p : Char → Bool} (h : ∀ c, p c = true → ok c) (hline : p '\n' = false) :
    Reads ok (Parse.many p) (Parse.many p) := by
  intro s a r hs
  obtain ⟨u, hu, hok⟩ := Consumes.many h s a r hs
  refine ⟨u, hu, hok, fun t => ?_⟩
  cases hs
  exact congrArg₂ (fun a r => some (a, r)) (takeWhile_append_line s hline)
    (dropWhile_append_line s hline)

theorem skip {p : Char → Bool} (h : ∀ c, p c = true → ok c) (hline : p '\n' = false) :
    Reads ok (Parse.skip p) (Parse.skip p) :=
  bind (many h hline) fun _ => pure ()

theorem starts {start : List Char} (h : '\n' ∉ start) :
    Reads ok (Parse.starts start) (Parse.starts start) := by
  intro s a r hs
  cases hs
  refine ⟨[], rfl, fun _ hc => (by cases hc), fun t => ?_⟩
  unfold Parse.starts
  rw [isPrefixOf_append_line s h]

/-- A parser that looks at the next character first, and fails where there is none. -/
theorem first {f f' : Option Char → Parse α} (hend : f none [] = none)
    (hf : ∀ c, Reads ok (f (some c)) (f' (some c))) :
    Reads ok (Parse.first >>= f) (Parse.first >>= f') := by
  intro s a r h
  cases s with
  | nil =>
    have : f none [] = some (a, r) := h
    rw [hend] at this
    cases this
  | cons c s => exact hf c (c :: s) a r h

theorem scan {σ : Type} {step : σ → Char → Option (List Char × Option σ)}
    (h : ∀ x c out, step x c = some out → ok c) (x : σ) :
    Reads ok (Parse.scan step x) (Parse.scan step x) := by
  intro s a r hs
  obtain ⟨u, hu, hok⟩ := Consumes.scan h x s a r hs
  refine ⟨u, hu, hok, fun t => ?_⟩
  clear hu hok u
  induction s generalizing x a r with
  | nil => cases hs
  | cons c s ih =>
    rcases heq : step x c with _ | ⟨out, _ | y⟩
    · rw [scan_stuck heq] at hs
      cases hs
    · rw [scan_end heq] at hs
      cases hs
      exact scan_end heq
    · rw [scan_go heq] at hs
      obtain ⟨⟨b, r'⟩, hb, hr⟩ := Option.map_eq_some_iff.1 hs
      cases hr
      rw [List.cons_append, scan_go heq, ih y b r' hb]
      rfl

/-- A parser that sees one line reads. -/
theorem line {p : Parse α} (hp : Consumes ok p) : Reads ok (Parse.line p) (Parse.line p) := by
  intro s a r h
  obtain ⟨⟨b, r'⟩, hb, hr⟩ := Option.map_eq_some_iff.1 h
  cases hr
  obtain ⟨u, hu, hok⟩ := hp _ _ _ hb
  refine ⟨u, ?_, hok, fun t => ?_⟩
  · rw [← List.append_assoc, ← hu, List.takeWhile_append_dropWhile]
  · unfold Parse.line
    rw [takeWhile_append_line s rfl, dropWhile_append_line s rfl, hb, Option.map_some,
      List.append_assoc]

end Reads

end Parsing

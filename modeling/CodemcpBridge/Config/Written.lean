import CodemcpBridge.Config.Tomllib
import CodemcpBridge.Encoding.Texts

/-!
# Lines that are written as TOML

A string that is quoted the way of JSON is a TOML string with the same value, unless it holds the
one control character that JSON does not escape and TOML does not take.  A line that is made of bare
keys and of such strings is read as what it says.
-/

namespace CodemcpBridge

namespace Tomllib

open Parsing Parse Encoding

section Strings

variable {c : Char} {s rest : List Char}

/-- The character `DEL`, which JSON leaves as it is. -/
def delete : Char := '\x7f'

/-! ## Strings -/

theorem run_control : ∀ n < 32, run basicStep .plain (escapeChar (Char.ofNat n)) =
    some ([Char.ofNat n], .plain) := by
  decide +kernel

/-- The written form of a character is read as the character. -/
theorem run_escapeChar (h : c ≠ delete) :
    run basicStep .plain (escapeChar c) = some ([c], .plain) := by
  by_cases control : c.toNat < 32
  · have := run_control c.toNat control
    rwa [Char.ofNat_toNat] at this
  by_cases quote : c = '"'
  · rw [quote]
    rfl
  by_cases backslash : c = '\\'
  · rw [backslash]
    rfl
  have legal : illegal c = false := by
    have : c.toNat ≠ 127 := fun he => h (by rw [← Char.ofNat_toNat c, he]; rfl)
    unfold illegal
    rw [decide_eq_false control, beq_false_of_ne this]
    rfl
  rw [escapeChar_of_le (by omega) quote backslash]
  have step : basicStep .plain c = some ([c], some .plain) := by
    show (if c = '"' then _ else _) = _
    rw [if_neg quote, if_neg backslash, legal]
    rfl
  unfold run
  rw [step]
  rfl

theorem scan_delete : scan basicStep .plain (escapeChar delete ++ rest) = none := rfl

/-- A quoted text ends where it should, unless it holds `DEL`. -/
theorem scan_quoted : ∀ s : List Char, scan basicStep .plain (s.flatMap escapeChar ++ '"' :: rest) =
    if delete ∈ s then none else some (s, rest)
  | [] => rfl
  | c :: s => by
      rw [List.flatMap_cons, List.append_assoc]
      by_cases hc : c = delete
      · rw [hc, scan_delete, if_pos List.mem_cons_self]
      · rw [scan_append (run_escapeChar hc), scan_quoted s]
        by_cases hs : delete ∈ s
        · rw [if_pos hs, if_pos (List.mem_cons_of_mem c hs)]
          rfl
        · rw [if_neg hs, if_neg]
          · rfl
          · rw [List.mem_cons, not_or]
            exact ⟨Ne.symm hc, hs⟩

theorem basicString_quote (s rest : List Char) :
    basicString (quote s ++ rest) = if delete ∈ s then none else some (s, rest) := by
  rw [← scan_quoted s]
  unfold quote
  rw [List.cons_append, List.append_assoc]
  rfl

end Strings

/-! ## Parts of a line -/

section Parts

variable {α β : Type} {c : Char} {s rest : List Char}

theorem run_bind {p : Parse α} {a : α} {s r : List Char} (h : p s = some (a, r))
    (f : α → Parse β) : (p >>= f) s = f a r := by
  rw [bind_apply, h]
  rfl

theorem run_bind_none {p : Parse α} {s : List Char} (h : p s = none) (f : α → Parse β) :
    (p >>= f) s = none := by
  rw [bind_apply, h]
  rfl

theorem char_cons : char c (c :: s) = some ((), s) := by
  unfold char
  rw [bind_apply, satisfy_cons, if_pos (beq_self_eq_true c)]
  rfl

theorem skip_eq (p : Char → Bool) (s : List Char) : skip p s = some ((), s.dropWhile p) := rfl

theorem skip_stop {p : Char → Bool} (h : ∀ d ∈ s.head?, p d = false) : skip p s = some ((), s) := by
  rw [skip_eq]
  cases s with
  | nil => rfl
  | cons d s => rw [List.dropWhile_cons_of_neg (by simp [h d (by simp)])]

theorem skip_cons {p : Char → Bool} (h : p c = true) : skip p (c :: s) = skip p s := by
  rw [skip_eq, skip_eq, List.dropWhile_cons_of_pos h]

theorem skip_space (h : ∀ d ∈ s.head?, isSpace d = false) :
    skip isSpace (' ' :: s) = some ((), s) := by
  rw [skip_cons (by decide), skip_stop h]

/-- A word of some kind, and what follows is of another kind. -/
theorem many_word {p : Char → Bool} {w : List Char} (hw : ∀ d ∈ w, p d = true)
    (h : ∀ d ∈ s.head?, p d = false) : many p (w ++ s) = some (w, s) := by
  unfold many
  rw [List.takeWhile_append_of_pos hw, List.dropWhile_append_of_pos hw]
  cases s with
  | nil => simp
  | cons d s => simp [h d (by simp)]

end Parts

/-! ## Keys -/

section Keys

variable {name rest : List Char}

/-- A name that needs no quotes. -/
def Bare (name : List Char) : Prop := name ≠ [] ∧ name.all isBareKeyChar = true

instance (name : List Char) : Decidable (Bare name) :=
  inferInstanceAs (Decidable (name ≠ [] ∧ name.all isBareKeyChar = true))

theorem Bare.chars (h : Bare name) : ∀ c ∈ name, isBareKeyChar c = true :=
  List.all_eq_true.1 h.2

theorem keyPart_bare (h : Bare name) (hr : ∀ d ∈ rest.head?, isBareKeyChar d = false) :
    keyPart (name ++ rest) = some (String.ofList name, rest) := by
  have hbare := h.chars
  have hne := h.1
  obtain ⟨c, cs, rfl⟩ := List.exists_cons_of_ne_nil hne
  have hc := hbare c List.mem_cons_self
  have hsingle : c ≠ '\'' := by
    rintro rfl
    exact absurd hc (by decide)
  have hdouble : c ≠ '"' := by
    rintro rfl
    exact absurd hc (by decide)
  have hread := many_word hbare hr
  unfold keyPart
  rw [run_bind (a := some c) (r := c :: cs ++ rest) rfl]
  generalize hf : some c = f
  split
  · exact absurd (Option.some.inj hf) hsingle
  · exact absurd (Option.some.inj hf) hdouble
  · rw [run_bind hread, if_neg hne]
    rfl

theorem keyPart_quote (t rest : List Char) : keyPart (quote t ++ rest) =
    if delete ∈ t then none else some (String.ofList t, rest) := by
  have hread := basicString_quote t rest
  unfold keyPart
  rw [run_bind (a := some '"') (r := quote t ++ rest) rfl]
  change (basicString >>= fun text => pure (String.ofList text)) _ = _
  rw [bind_apply, hread]
  by_cases h : delete ∈ t
  · rw [if_pos h, if_pos h]
    rfl
  · rw [if_neg h, if_neg h]
    rfl

theorem keyRest_end {n : ℕ} (h : ∀ d ∈ rest.head?, isSpace d = false)
    (hdot : rest.head? ≠ some '.') : keyRest (n + 1) rest = some ([], rest) := by
  unfold keyRest
  rw [run_bind (skip_stop h), run_bind (a := rest.head?) (r := rest) rfl]
  generalize rest.head? = f at hdot
  split
  · exact absurd rfl hdot
  · rfl

theorem keyRest_quote {n : ℕ} {t : List Char} (h : ∀ d ∈ rest.head?, isSpace d = false)
    (hdot : rest.head? ≠ some '.') : keyRest (n + 2) ('.' :: (quote t ++ rest)) =
      if delete ∈ t then none else some ([String.ofList t], rest) := by
  unfold keyRest
  rw [run_bind (skip_stop (by simp [isSpace])), run_bind (a := some '.')
    (r := '.' :: (quote t ++ rest)) rfl]
  change (char '.' >>= fun _ => skip isSpace >>= fun _ => keyPart >>= fun part =>
    keyRest (n + 1) >>= fun rest => pure (part :: rest)) _ = _
  rw [run_bind char_cons, run_bind (skip_stop (s := quote t ++ rest) (by simp [quote, isSpace])),
    bind_apply, keyPart_quote]
  by_cases hd : delete ∈ t
  · rw [if_pos hd, if_pos hd]
    rfl
  · rw [if_neg hd, if_neg hd]
    dsimp only [Option.bind_some]
    rw [run_bind (keyRest_end h hdot)]
    rfl

end Keys

/-! ## Values -/

/-- A value of a pair: a string, a list of strings, or a word that is read whatever line follows. -/
inductive Written
  | text (t : List Char)
  | texts (ts : List (List Char))
  | plain (word : List Char) (value : Toml)

namespace Written

def write : Written → List Char
  | text t => quote t
  | texts ts => '[' :: ([',', ' '].intercalate (ts.map quote) ++ [']'])
  | plain word _ => word

def value : Written → Toml
  | text t => .str (String.ofList t)
  | texts ts => .array (ts.map fun t => .str (String.ofList t))
  | plain _ v => v

/-- The texts that stand in quotes. -/
def quoted : Written → List (List Char)
  | text t => [t]
  | texts ts => ts
  | plain _ _ => []

def Plain : Written → Prop
  | plain word v => (∃ c cs, word = c :: cs ∧ isSpace c = false) ∧ '\r' ∉ word ∧
      ∀ rest, anyValue (word ++ '\n' :: rest) = some (v, '\n' :: rest)
  | _ => True

end Written

section Values

variable {n : ℕ} {rest : List Char}

theorem not_starts_quote (t : List Char) (h : ∀ d ∈ rest.head?, d ≠ '"') :
    ['"', '"', '"'].isPrefixOf (quote t ++ rest) = false := by
  cases t with
  | nil =>
    cases rest with
    | nil => rfl
    | cons d rest =>
      have hd : ('"' == d) = false := beq_false_of_ne (Ne.symm (h d (by simp)))
      simp [quote, List.isPrefixOf, hd]
  | cons c t =>
    obtain ⟨d, ds, he, hne⟩ := head_escapeChar c
    have hd : ('"' == d) = false := beq_false_of_ne hne.symm
    simp [quote, List.isPrefixOf, he, hd]

theorem value_quote (t rest : List Char) (h : ∀ d ∈ rest.head?, d ≠ '"') :
    value (n + 1) (quote t ++ rest) =
      if delete ∈ t then none else some (.str (String.ofList t), rest) := by
  change basicValue (quote t ++ rest) = _
  unfold basicValue
  rw [run_bind (a := false) (r := quote t ++ rest)
    (congrArg (fun b => some (b, quote t ++ rest)) (not_starts_quote t h)),
      if_neg Bool.false_ne_true]
  unfold stringValue
  rw [bind_apply, basicString_quote]
  by_cases hd : delete ∈ t
  · rw [if_pos hd, if_pos hd]
    rfl
  · rw [if_neg hd, if_neg hd]
    rfl

theorem skipCommentsAndArrayWs_stop (h : ∀ d ∈ rest.head?, isBlank d = false ∧ d ≠ '#') :
    skipCommentsAndArrayWs rest = some ((), rest) := by
  unfold skipCommentsAndArrayWs skipComments
  rw [run_bind (skip_stop fun d hd => (h d hd).1), run_bind (a := rest.head?) (r := rest) rfl]
  generalize hf : rest.head? = f at h
  split
  · exact absurd rfl (h '#' rfl).2
  · rfl

theorem skipCommentsAndArrayWs_space (h : ∀ d ∈ rest.head?, isBlank d = false ∧ d ≠ '#') :
    skipCommentsAndArrayWs (' ' :: rest) = some ((), rest) := by
  have hskip : skip isBlank (' ' :: rest) = some ((), rest) := by
    rw [skip_cons (by decide), skip_stop fun d hd => (h d hd).1]
  unfold skipCommentsAndArrayWs skipComments
  rw [run_bind hskip, run_bind (a := rest.head?) (r := rest) rfl]
  generalize hf : rest.head? = f at h
  split
  · exact absurd rfl (h '#' rfl).2
  · rfl

theorem quote_head (t rest : List Char) :
    ∀ d ∈ (quote t ++ rest).head?, isBlank d = false ∧ d ≠ '#' := by
  intro d hd
  obtain rfl : '"' = d := Option.some.inj hd
  decide

theorem arrayItems_none {p : Parse Toml} {k : ℕ} {s : List Char} (h : p s = none) :
    arrayItems p (k + 1) s = none := by
  unfold arrayItems
  rw [run_bind_none h]

theorem arrayItems_last {p : Parse Toml} {k : ℕ} {s : List Char} {v : Toml}
    (h : p s = some (v, ']' :: rest)) : arrayItems p (k + 1) s = some ([v], rest) := by
  unfold arrayItems
  rw [run_bind h, run_bind (skipCommentsAndArrayWs_stop (by simp [isBlank, isSpace]))]
  rfl

theorem arrayItems_comma {p : Parse Toml} {k : ℕ} {s s' : List Char} {v : Toml}
    (h : p s = some (v, ',' :: ' ' :: s')) (hs : ∀ d ∈ s'.head?, isBlank d = false ∧ d ≠ '#')
    (hend : s'.head? ≠ some ']') :
    arrayItems p (k + 1) s = (arrayItems p k s').map fun r => (v :: r.1, r.2) := by
  conv_lhs => unfold arrayItems
  rw [run_bind h, run_bind (skipCommentsAndArrayWs_stop (by simp [isBlank, isSpace])),
    run_bind (a := some ',') (r := ',' :: ' ' :: s') rfl]
  change (char ',' >>= fun _ => skipCommentsAndArrayWs >>= fun _ => _) _ = _
  refine (run_bind char_cons _).trans ((run_bind (skipCommentsAndArrayWs_space hs) _).trans ?_)
  rw [run_bind (a := s'.head?) (r := s') rfl]
  generalize s'.head? = f at hend
  split
  · exact absurd rfl hend
  · rw [bind_apply]
    rcases arrayItems p k s' with _ | r <;> rfl

theorem intercalate_quote_cons (t : List Char) (ts : List (List Char)) (rest : List Char) :
    ∃ more, [',', ' '].intercalate ((t :: ts).map quote) ++ rest = quote t ++ more := by
  cases ts with
  | nil => exact ⟨rest, by simp⟩
  | cons v ts =>
    refine ⟨[',', ' '] ++ ([',', ' '].intercalate ((v :: ts).map quote) ++ rest), ?_⟩
    rw [List.map_cons, List.map_cons, List.intercalate_cons_cons]
    simp

theorem length_le_intercalate_quote (ts : List (List Char)) :
    ts.length ≤ ([',', ' '].intercalate (ts.map quote)).length := by
  induction ts with
  | nil => simp
  | cons t ts ih =>
    cases ts with
    | nil => simp [quote]
    | cons u ts =>
      rw [List.map_cons, List.map_cons, List.intercalate_cons_cons]
      simp only [List.map_cons, List.length_append, List.length_cons, List.length_nil] at ih ⊢
      omega

/-- The quoted texts of a list, behind its bracket. -/
theorem arrayItems_quote (t : List Char) (ts : List (List Char)) (k : ℕ) (hk : ts.length < k) :
    arrayItems (value (n + 1)) k ([',', ' '].intercalate ((t :: ts).map quote) ++ ']' :: rest) =
      if ∃ u ∈ t :: ts, delete ∈ u then none
      else some ((t :: ts).map fun u => .str (String.ofList u), rest) := by
  induction ts generalizing t k with
  | nil =>
    obtain ⟨k, rfl⟩ : ∃ k', k = k' + 1 := ⟨k - 1, by omega⟩
    rw [List.map_cons, List.map_nil, List.intercalate_singleton]
    have hread := value_quote (n := n) t (']' :: rest) (by simp)
    by_cases hd : delete ∈ t
    · rw [if_pos hd] at hread
      rw [arrayItems_none hread, if_pos ⟨t, List.mem_cons_self, hd⟩]
    · rw [if_neg hd] at hread
      rw [arrayItems_last hread, if_neg (by simpa using hd)]
      rfl
  | cons u ts ih =>
    obtain ⟨k, rfl⟩ : ∃ k', k = k' + 1 := ⟨k - 1, by omega⟩
    set tail := [',', ' '].intercalate ((u :: ts).map quote) ++ ']' :: rest with htail
    have hsplit : [',', ' '].intercalate ((t :: u :: ts).map quote) ++ ']' :: rest =
        quote t ++ ',' :: ' ' :: tail := by
      rw [List.map_cons, List.map_cons, List.intercalate_cons_cons, htail]
      simp
    obtain ⟨more, hmore⟩ : ∃ more, tail = quote u ++ more := intercalate_quote_cons u ts _
    rw [hsplit]
    have hread := value_quote (n := n) t (',' :: ' ' :: tail) (by simp)
    by_cases hd : delete ∈ t
    · rw [if_pos hd] at hread
      rw [arrayItems_none hread, if_pos ⟨t, List.mem_cons_self, hd⟩]
    · rw [if_neg hd] at hread
      rw [arrayItems_comma hread (hmore ▸ quote_head u more) (by rw [hmore]; simp [quote]),
        ih u k (by simpa using hk)]
      by_cases hu : ∃ v ∈ u :: ts, delete ∈ v
      · obtain ⟨v, hv, hdv⟩ := hu
        rw [if_pos ⟨v, hv, hdv⟩, if_pos ⟨v, List.mem_cons_of_mem _ hv, hdv⟩]
        rfl
      · rw [if_neg hu, if_neg]
        · rfl
        · rintro ⟨v, hv, hdv⟩
          rcases List.mem_cons.1 hv with rfl | hv
          · exact hd hdv
          · exact hu ⟨v, hv, hdv⟩

theorem array_quote (ts : List (List Char)) (rest : List Char) :
    array (value (n + 1)) ('[' :: ([',', ' '].intercalate (ts.map quote) ++ ']' :: rest)) =
      if ∃ u ∈ ts, delete ∈ u then none
      else some (ts.map fun u => .str (String.ofList u), rest) := by
  unfold array
  rw [run_bind char_cons]
  cases ts with
  | nil =>
    rw [run_bind (skipCommentsAndArrayWs_stop (by simp [isBlank, isSpace])), if_neg (by simp)]
    rfl
  | cons t ts =>
    obtain ⟨more, hmore⟩ := intercalate_quote_cons t ts (']' :: rest)
    rw [run_bind (skipCommentsAndArrayWs_stop (hmore ▸ quote_head t more)),
      run_bind (a := some '"') (r := quote t ++ more) (by rw [hmore]; rfl), ← hmore]
    change arrayItems (value (n + 1)) (_ + 1) _ = _
    refine arrayItems_quote t ts _ ?_
    have := length_le_intercalate_quote (t :: ts)
    rw [List.length_cons] at this
    rw [List.length_append]
    omega

theorem anyValue_write (v : Written) (h : v.Plain) :
    anyValue (v.write ++ '\n' :: rest) =
      if ∃ t ∈ v.quoted, delete ∈ t then none else some (v.value, '\n' :: rest) := by
  cases v with
  | text t =>
    change value (_ + 1) (quote t ++ _) = _
    rw [value_quote t _ (by simp)]
    simp [Written.quoted, Written.value]
  | texts ts =>
    have hread := array_quote (n := (Written.texts ts).write.length + rest.length)
      ts ('\n' :: rest)
    have hfuel : anyValue ((Written.texts ts).write ++ '\n' :: rest) =
        value ((Written.texts ts).write.length + rest.length + 1 + 1)
          ((Written.texts ts).write ++ '\n' :: rest) := by
      unfold anyValue
      rw [List.length_append, List.length_cons]
      rfl
    rw [hfuel]
    have htext : (Written.texts ts).write ++ '\n' :: rest =
        '[' :: ([',', ' '].intercalate (ts.map quote) ++ ']' :: '\n' :: rest) := by
      simp [Written.write]
    rw [htext]
    change (array (value (_ + 1)) >>= fun items => pure (Toml.array items)) _ = _
    rw [bind_apply, hread]
    change _ = if ∃ t ∈ ts, delete ∈ t then none else _
    by_cases hd : ∃ t ∈ ts, delete ∈ t
    · rw [if_pos hd, if_pos hd]
      rfl
    · rw [if_neg hd, if_neg hd]
      rfl
  | plain word v =>
    rw [if_neg (by simp [Written.quoted])]
    exact h.2.2 rest

end Values

/-! ## Entries -/

/-- A line of a written document. -/
inductive Entry
  | comment (body : List Char)
  | blank
  /-- The header of a table, whose key may have a second part, in quotes. -/
  | table (name : List Char) (part : Option (List Char))
  | pair (name : List Char) (value : Written)

namespace Entry

def write : Entry → List Char
  | comment body => '#' :: body
  | blank => []
  | table name none => '[' :: (name ++ [']'])
  | table name (some part) => '[' :: (name ++ '.' :: (quote part ++ [']']))
  | pair name v => name ++ ' ' :: '=' :: ' ' :: v.write

def quoted : Entry → List (List Char)
  | table _ (some part) => [part]
  | pair _ v => v.quoted
  | _ => []

/-- What the line does to the tables that were read. -/
def apply (out : Output) (header : Key) : Entry → Option (Output × Key)
  | comment _ | blank => some (out, header)
  | table name part =>
    let k := String.ofList name :: (part.map String.ofList).toList
    (out.finalize.createDict k).map fun out => (out, k)
  | pair name v => (out.keyValue header [String.ofList name] v.value).map fun out => (out, header)

def Plain : Entry → Prop
  | comment body => ∀ c ∈ body, illegal c = false
  | blank => True
  | table name _ => Bare name
  | pair name v => Bare name ∧ v.Plain

end Entry

section Lines

variable {out : Output} {header : Key} {n : ℕ} {rest : List Char}

theorem statements_blank : statements (n + 1) out header ('\n' :: rest) =
    statements n out header rest := by
  conv_lhs => unfold statements
  rw [run_bind (skip_stop (by simp [isSpace])), run_bind (a := some '\n') (r := '\n' :: rest) rfl]
  change (char '\n' >>= fun _ => _) _ = _
  rw [run_bind char_cons]

theorem statements_none {c : Char} {s : List Char} (hc : isSpace c = false) (hn : c ≠ '\n')
    (h : statement out header c (c :: s) = none) :
    statements (n + 1) out header (c :: s) = none := by
  unfold statements
  rw [run_bind (skip_stop (by simp [hc])), run_bind (a := some c) (r := c :: s) rfl]
  generalize hf : some c = f
  split
  · cases hf
  · cases hf
    exact absurd rfl hn
  · cases hf
    rw [run_bind_none h]

theorem statements_line {c : Char} {s : List Char} {r : Output × Key} (hc : isSpace c = false)
    (hn : c ≠ '\n') (h : statement out header c (c :: s) = some (r, '\n' :: rest)) :
    statements (n + 1) out header (c :: s) = statements n r.1 r.2 rest := by
  conv_lhs => unfold statements
  rw [run_bind (skip_stop (by simp [hc])), run_bind (a := some c) (r := c :: s) rfl]
  generalize hf : some c = f
  split
  · cases hf
  · cases hf
    exact absurd rfl hn
  · cases hf
    rw [run_bind h]
    rfl

theorem statements_comment {body : List Char} (h : ∀ c ∈ body, illegal c = false) :
    statements (n + 1) out header ('#' :: (body ++ '\n' :: rest)) =
      statements n out header rest := by
  have hno : ∀ c ∈ '#' :: body, (c != '\n') = true := by
    intro c hc
    rcases List.mem_cons.1 hc with rfl | hc
    · rfl
    · rw [bne_iff_ne]
      rintro rfl
      exact absurd (h _ hc) (by decide)
  have hread : many (· != '\n') ('#' :: body ++ '\n' :: rest) =
      some ('#' :: body, '\n' :: rest) := many_word hno (by simp)
  have hlegal : ('#' :: body).any illegal = false := by
    rw [List.any_eq_false]
    intro c hc
    rcases List.mem_cons.1 hc with rfl | hc
    · decide
    · simp [h c hc]
  have hcomment : skipComment ('#' :: (body ++ '\n' :: rest)) = some ((), '\n' :: rest) := by
    unfold skipComment
    rw [run_bind (a := some '#') (r := '#' :: body ++ '\n' :: rest) rfl]
    change (many (· != '\n') >>= fun body => if body.any illegal then fail else pure ()) _ = _
    rw [run_bind hread, hlegal]
    rfl
  conv_lhs => unfold statements
  rw [run_bind (skip_stop (by simp [isSpace])), run_bind (a := some '#')
    (r := '#' :: (body ++ '\n' :: rest)) rfl]
  change (statement out header '#' >>= fun r => skipComment >>= fun _ => first >>= fun f => _) _ = _
  rw [run_bind (a := (out, header)) (r := '#' :: (body ++ '\n' :: rest)) rfl, run_bind hcomment,
    run_bind (a := some '\n') (r := '\n' :: rest) rfl]
  rfl

theorem orFail_bind {α β : Type} (x : Option α) (f : α → Parse β) (s : List Char) :
    (orFail x >>= f) s = x.bind fun a => f a s := by
  cases x <;> rfl

theorem key_eq {s r : List Char} {part : String} (h : keyPart s = some (part, r)) :
    key s = (keyRest (r.length + 1) r).map fun q => (part :: q.1, q.2) := by
  unfold key
  rw [run_bind h]
  change (keyRest (r.length + 1) r).bind _ = _
  rcases keyRest (r.length + 1) r with _ | q <;> rfl

theorem key_bare {name : List Char} (h : Bare name) (hspace : ∀ d ∈ rest.head?, isSpace d = false)
    (hbare : ∀ d ∈ rest.head?, isBareKeyChar d = false) (hdot : rest.head? ≠ some '.') :
    key (name ++ rest) = some ([String.ofList name], rest) := by
  rw [key_eq (keyPart_bare h hbare), keyRest_end hspace hdot]
  rfl

theorem key_bare_space {name : List Char} (h : Bare name)
    (hspace : ∀ d ∈ rest.head?, isSpace d = false) (hdot : rest.head? ≠ some '.') :
    key (name ++ ' ' :: rest) = some ([String.ofList name], rest) := by
  have hrest : keyRest ((' ' :: rest).length + 1) (' ' :: rest) = some ([], rest) := by
    unfold keyRest
    rw [run_bind (skip_space hspace), run_bind (a := rest.head?) (r := rest) rfl]
    generalize rest.head? = f at hdot
    split
    · exact absurd rfl hdot
    · rfl
  rw [key_eq (keyPart_bare h (by simp [isBareKeyChar])), hrest]
  rfl

theorem key_quote {name : List Char} (t rest : List Char) (h : Bare name)
    (hspace : ∀ d ∈ rest.head?, isSpace d = false) (hdot : rest.head? ≠ some '.') :
    key (name ++ '.' :: (quote t ++ rest)) =
      if delete ∈ t then none else some ([String.ofList name, String.ofList t], rest) := by
  rw [key_eq (keyPart_bare h (by simp [isBareKeyChar]))]
  have hfuel : ('.' :: (quote t ++ rest)).length + 1 = (quote t ++ rest).length + 2 := rfl
  rw [hfuel, keyRest_quote hspace hdot]
  by_cases hd : delete ∈ t
  · rw [if_pos hd, if_pos hd]
    rfl
  · rw [if_neg hd, if_neg hd]
    rfl

theorem Bare.head {name : List Char} (h : Bare name) : ∃ c cs, name = c :: cs ∧
    isBareKeyChar c = true := by
  obtain ⟨c, cs, rfl⟩ := List.exists_cons_of_ne_nil h.1
  exact ⟨c, cs, rfl, h.chars c List.mem_cons_self⟩

theorem bareKeyChar_ne {c : Char} (h : isBareKeyChar c = true) : c ≠ '[' ∧ c ≠ '\n' ∧
    isSpace c = false := by
  refine ⟨?_, ?_, ?_⟩
  · rintro rfl
    exact absurd h (by decide)
  · rintro rfl
    exact absurd h (by decide)
  · by_contra hs
    simp only [isSpace, Bool.not_eq_false, Bool.or_eq_true, beq_iff_eq] at hs
    rcases hs with rfl | rfl
    · exact absurd h (by decide)
    · exact absurd h (by decide)

/-- What stands in the brackets of a header, if it is read. -/
theorem tableHeader_of_key {name more : List Char} (h : Bare name) :
    tableHeader out ('[' :: (name ++ more)) = (key (name ++ more)).bind fun r =>
      (out.finalize.createDict r.1).bind fun out =>
        (char ']' r.2).map fun r' => ((out, r.1), r'.2) := by
  obtain ⟨c, cs, rfl, hc⟩ := h.head
  obtain ⟨hb, -, hs⟩ := bareKeyChar_ne hc
  have hone : (['[', '['].isPrefixOf ('[' :: (c :: cs ++ more))) = false := by
    have : ('[' == c) = false := beq_false_of_ne hb.symm
    simp [List.isPrefixOf, this]
  unfold tableHeader
  rw [run_bind (a := false) (r := '[' :: (c :: cs ++ more))
    (congrArg (fun b => some (b, '[' :: (c :: cs ++ more))) hone), if_neg Bool.false_ne_true,
    run_bind char_cons, run_bind (skip_stop (by simp [hs])), bind_apply]
  rcases key (c :: cs ++ more) with _ | ⟨k, r⟩
  · rfl
  · rw [Option.bind_some, Option.bind_some, orFail_bind]
    dsimp only
    rcases out.finalize.createDict k with _ | out'
    · rfl
    · rw [Option.bind_some, Option.bind_some, bind_apply]
      rcases char ']' r with _ | r' <;> rfl

theorem statement_bracket (out : Output) (header : Key) (s : List Char) :
    statement out header '[' ('[' :: s) = (tableHeader out ('[' :: s)).bind fun r =>
      some (r.1, r.2.dropWhile isSpace) := by
  change (tableHeader out >>= fun r => skip isSpace >>= fun _ => pure r) _ = _
  rw [bind_apply]
  rfl

theorem statements_table {name : List Char} {part : Option (List Char)} (h : Bare name) :
    statements (n + 1) out header ((Entry.table name part).write ++ '\n' :: rest) =
      if ∃ t ∈ (Entry.table name part).quoted, delete ∈ t then none
      else ((Entry.table name part).apply out header).bind fun r => statements n r.1 r.2 rest := by
  cases part with
  | none =>
    have htext : (Entry.table name none).write ++ '\n' :: rest =
        '[' :: (name ++ ']' :: '\n' :: rest) := by
      simp [Entry.write]
    rw [htext, if_neg (by simp [Entry.quoted])]
    have hkey : key (name ++ ']' :: '\n' :: rest) =
        some ([String.ofList name], ']' :: '\n' :: rest) :=
      key_bare h (by simp [isSpace]) (by simp [isBareKeyChar]) (by simp)
    have hst := statement_bracket out header (name ++ ']' :: '\n' :: rest)
    rw [tableHeader_of_key h, hkey, Option.bind_some, char_cons] at hst
    change _ = ((out.finalize.createDict [String.ofList name]).map _).bind _
    rcases hc : out.finalize.createDict [String.ofList name] with _ | out'
    · rw [hc] at hst
      exact statements_none (by decide) (by decide) hst
    · rw [hc] at hst
      exact statements_line (r := (out', [String.ofList name])) (by decide) (by decide) hst
  | some t =>
    have htext : (Entry.table name (some t)).write ++ '\n' :: rest =
        '[' :: (name ++ '.' :: (quote t ++ ']' :: '\n' :: rest)) := by
      simp [Entry.write]
    rw [htext]
    have hkey := key_quote t (']' :: '\n' :: rest) h (by simp [isSpace]) (by simp)
    have hst := statement_bracket out header
      (name ++ '.' :: (quote t ++ ']' :: '\n' :: rest))
    rw [tableHeader_of_key h, hkey] at hst
    change _ = if ∃ u ∈ [t], delete ∈ u then none else
      ((out.finalize.createDict [String.ofList name, String.ofList t]).map _).bind _
    by_cases hd : delete ∈ t
    · rw [if_pos hd] at hst
      rw [if_pos ⟨t, List.mem_singleton_self t, hd⟩]
      exact statements_none (by decide) (by decide) hst
    · rw [if_neg hd, Option.bind_some, char_cons] at hst
      rw [if_neg (by simpa using hd)]
      rcases hc : out.finalize.createDict [String.ofList name, String.ofList t] with _ | out'
      · rw [hc] at hst
        exact statements_none (by decide) (by decide) hst
      · rw [hc] at hst
        exact statements_line (r := (out', [String.ofList name, String.ofList t])) (by decide)
          (by decide) hst

theorem Written.head (v : Written) (h : v.Plain) :
    ∃ c cs, v.write = c :: cs ∧ isSpace c = false := by
  cases v with
  | text t => exact ⟨'"', _, rfl, by decide⟩
  | texts ts => exact ⟨'[', _, rfl, by decide⟩
  | plain word v => exact h.1

theorem keyValuePair_write {name : List Char} {v : Written} (h : Bare name) (hv : v.Plain)
    (rest : List Char) :
    keyValuePair anyValue ((Entry.pair name v).write ++ '\n' :: rest) =
      if ∃ t ∈ v.quoted, delete ∈ t then none
      else some (([String.ofList name], v.value), '\n' :: rest) := by
  have htext : (Entry.pair name v).write ++ '\n' :: rest =
      name ++ ' ' :: '=' :: ' ' :: (v.write ++ '\n' :: rest) := by
    simp [Entry.write]
  have hhead : ∀ d ∈ (v.write ++ '\n' :: rest).head?, isSpace d = false := by
    obtain ⟨c, cs, hc, hs⟩ := v.head hv
    rw [hc]
    simp [hs]
  rw [htext]
  unfold keyValuePair
  rw [run_bind (key_bare_space h (by simp [isSpace]) (by simp)), run_bind char_cons,
    run_bind (skip_space hhead), bind_apply, anyValue_write v hv]
  by_cases hd : ∃ t ∈ v.quoted, delete ∈ t
  · rw [if_pos hd, if_pos hd]
    rfl
  · rw [if_neg hd, if_neg hd]
    rfl

theorem statements_pair {name : List Char} {v : Written} (h : Bare name) (hv : v.Plain) :
    statements (n + 1) out header ((Entry.pair name v).write ++ '\n' :: rest) =
      if ∃ t ∈ v.quoted, delete ∈ t then none
      else ((Entry.pair name v).apply out header).bind fun r => statements n r.1 r.2 rest := by
  have hpair := keyValuePair_write h hv rest
  obtain ⟨c, cs, hname, hc⟩ := h.head
  obtain ⟨-, hn, hs⟩ := bareKeyChar_ne hc
  obtain ⟨text, htext⟩ : ∃ text, (Entry.pair name v).write ++ '\n' :: rest = c :: text := by
    rw [hname]
    exact ⟨_, rfl⟩
  have hst : statement out header c (c :: text) = (keyValuePair anyValue (c :: text)).bind fun r =>
      (out.keyValue header r.1.1 r.1.2).bind fun out =>
        some ((out, header), r.2.dropWhile isSpace) := by
    unfold statement
    rw [hc, Bool.true_or, Bool.true_or, if_pos rfl, bind_apply]
    rcases keyValuePair anyValue (c :: text) with _ | ⟨⟨k, v⟩, r⟩
    · rfl
    · dsimp only [Option.bind_some]
      rw [orFail_bind]
      rcases out.keyValue header k v with _ | out' <;> rfl
  rw [htext] at hpair ⊢
  rw [hpair] at hst
  by_cases hd : ∃ t ∈ v.quoted, delete ∈ t
  · rw [if_pos hd] at hst ⊢
    exact statements_none hs hn hst
  · rw [if_neg hd] at hst ⊢
    change _ = ((out.keyValue header [String.ofList name] v.value).map _).bind _
    rw [Option.bind_some] at hst
    dsimp only at hst
    rcases hk : out.keyValue header [String.ofList name] v.value with _ | out'
    · rw [hk] at hst
      exact statements_none hs hn hst
    · rw [hk] at hst
      exact statements_line (r := (out', header)) hs hn hst

/-- A line that is written is read as what it says, unless a text in it holds `DEL`. -/
theorem statements_entry (e : Entry) (h : e.Plain) :
    statements (n + 1) out header (e.write ++ '\n' :: rest) =
      if ∃ t ∈ e.quoted, delete ∈ t then none
      else (e.apply out header).bind fun r => statements n r.1 r.2 rest := by
  cases e with
  | comment body =>
    rw [if_neg (by simp [Entry.quoted])]
    exact statements_comment h
  | blank =>
    rw [if_neg (by simp [Entry.quoted])]
    exact statements_blank
  | table name part => exact statements_table h
  | pair name v => exact statements_pair h.1 h.2

end Lines

end Tomllib

end CodemcpBridge

import CodemcpBridge.Net.Urls
import Mathlib.Data.List.TakeWhile

/-!
# Authorities that are put together

A URL made of a scheme, a host and a port is split into them again, where the host is a name or an
address in brackets.
-/

namespace Net

variable {c d : Char} {text host netloc : List Char}

/-! ## Characters -/

/-- What holds of the first 128 characters. -/
theorem ascii_forall {P : Char → Prop} (h : ∀ n < 128, P (Char.ofNat n)) (c : Char)
    (hc : c.toNat < 128) : P c := by
  have := h c.toNat hc
  rwa [Char.ofNat_toNat] at this

theorem toLower_of_le (h : 128 ≤ c.toNat) : c.toLower = c := by
  unfold Char.toLower
  rw [dif_neg]
  intro hu
  have hz : c.val ≤ 'Z'.val := hu.2
  have : c.val.toNat ≤ 90 := hz
  have : c.toNat = c.val.toNat := rfl
  omega

theorem isAlpha_lt (h : c.isAlphanum = true) : c.toNat < 128 := by
  delta Char.isAlphanum Char.isAlpha Char.isUpper Char.isLower Char.isDigit at h
  simp only [Bool.or_eq_true, Bool.and_eq_true, decide_eq_true_eq, UInt32.le_iff_toNat_le,
    ge_iff_le] at h
  have : c.toNat = c.val.toNat := rfl
  have : 'Z'.val.toNat = 90 := rfl
  have : 'z'.val.toNat = 122 := rfl
  have : '9'.val.toNat = 57 := rfl
  omega

namespace SplitResult

/-- A letter is made of a character, or nothing is. -/
theorem lowerChar_spec (c : Char) : lowerChar c = c ∨ (lowerChar c).isAlpha = true := by
  by_cases h : c.toNat < 128
  · exact ascii_forall (P := fun c => lowerChar c = c ∨ (lowerChar c).isAlpha = true)
      (by decide +kernel) c h
  · unfold lowerChar
    by_cases hk : c = '\u212a'
    · rw [if_pos hk]
      exact .inr rfl
    · rw [if_neg hk]
      exact .inl (toLower_of_le (by omega))

theorem lowerChar_lowerChar (c : Char) : lowerChar (lowerChar c) = lowerChar c := by
  by_cases h : c.toNat < 128
  · exact ascii_forall (P := fun c => lowerChar (lowerChar c) = lowerChar c) (by decide +kernel) c h
  · unfold lowerChar
    by_cases hk : c = '\u212a'
    · rw [if_pos hk]
      rfl
    · rw [if_neg hk, toLower_of_le (by omega), if_neg hk, toLower_of_le (by omega)]

/-- A character that is no letter comes from itself only. -/
theorem eq_of_lowerChar (hd : d.isAlpha = false) (h : lowerChar c = d) : c = d := by
  rcases lowerChar_spec c with hc | hc
  · exact hc.symm.trans h
  · rw [h, hd] at hc
    cases hc

theorem lowerChar_of_isDigit (h : c.isDigit = true) : lowerChar c = c := by
  have lt : c.toNat < 128 := isAlpha_lt (by unfold Char.isAlphanum; rw [h, Bool.or_true])
  exact ascii_forall (P := fun c => c.isDigit = true → lowerChar c = c) (by decide +kernel) c lt h

theorem notMem_map_lowerChar (hd : d.isAlpha = false) (h : d ∉ text) : d ∉ text.map lowerChar := by
  intro hm
  obtain ⟨c, hc, he⟩ := List.mem_map.1 hm
  exact h (eq_of_lowerChar hd he ▸ hc)

end SplitResult

/-! ## Splitting -/

theorem rpartition_of_notMem {sep : Char} (h : sep ∉ text) :
    rpartition sep text = (none, text) := by
  unfold rpartition
  rw [Encoding.partition_of_notMem (mt List.mem_reverse.1 h)]

theorem splitScheme_subset {url : List Char} (h : c ∈ (splitScheme url).2) : c ∈ url := by
  unfold splitScheme at h
  split at h
  · rename_i d scheme rest hp
    split at h
    · exact Encoding.partition_subset.2 rest (congrArg Prod.snd hp) c h
    · exact h
  · exact h

/-- A character that stays in a URL and goes on with its authority. -/
def isNetlocChar (c : Char) : Bool := !endsNetloc c && c != '\t' && c != '\r' && c != '\n'

/-- What is read of `https://` and an authority. -/
def SplitResult.https (netloc : List Char) : SplitResult :=
  { scheme := "https".toList, netloc, path := [], query := [], fragment := [] }

theorem urlsplit_https (h : ∀ c ∈ netloc, isNetlocChar c = true) :
    urlsplit ("https://".toList ++ netloc) = (checkNetloc netloc).map fun _ => .https netloc := by
  have ends : ∀ c ∈ netloc, endsNetloc c = false := fun c hc => by
    have := h c hc
    simp only [isNetlocChar, Bool.and_eq_true, Bool.not_eq_true'] at this
    exact this.1.1.1
  have stays : netloc.filter (fun c => c != '\t' && c != '\r' && c != '\n') = netloc := by
    refine List.filter_eq_self.2 fun c hc => ?_
    have := h c hc
    simp only [isNetlocChar, Bool.and_eq_true] at this
    simp only [Bool.and_eq_true]
    exact ⟨⟨this.1.1.2, this.1.2⟩, this.2⟩
  have whole : ((("https://".toList ++ netloc).dropWhile fun c => c.toNat ≤ 32).filter
      fun c => c != '\t' && c != '\r' && c != '\n') = "https://".toList ++ netloc := by
    show ("https://".toList ++ netloc).filter _ = _
    rw [List.filter_append, stays]
    rfl
  have taken : (netloc.takeWhile fun c => !endsNetloc c) = netloc :=
    List.takeWhile_eq_self_iff.2 fun c hc => by rw [ends c hc]; rfl
  have dropped : (netloc.dropWhile fun c => !endsNetloc c) = [] :=
    List.dropWhile_eq_nil_iff.2 fun c hc => by rw [ends c hc]; rfl
  have scheme : splitScheme ("https://".toList ++ netloc) =
      ("https".toList, "//".toList ++ netloc) :=
    rfl
  have slashes : (['/', '/'].isPrefixOf ("//".toList ++ netloc)) = true := rfl
  have rest : ("//".toList ++ netloc).drop 2 = netloc := rfl
  unfold urlsplit
  simp only [whole, scheme, slashes, rest, taken, dropped, if_true]
  cases checkNetloc netloc <;> rfl

/-- A port as it is written, unless it is the one of the scheme. -/
def portText (standard port : ℕ) : List Char :=
  if port = standard then [] else ':' :: Nat.toDigits 10 port

/-- The port that is read back. -/
def portRead (standard port : ℕ) : Option ℕ := if port = standard then none else some port

variable {standard port : ℕ}

theorem portText_cases (standard port : ℕ) :
    (portText standard port = [] ∧ portRead standard port = none) ∨
      (portText standard port = ':' :: Nat.toDigits 10 port ∧
        portRead standard port = some port) := by
  unfold portText portRead
  by_cases h : port = standard
  · rw [if_pos h, if_pos h]
    exact .inl ⟨rfl, rfl⟩
  · rw [if_neg h, if_neg h]
    exact .inr ⟨rfl, rfl⟩

theorem mem_portText (h : c ∈ portText standard port) : c = ':' ∨ c.isDigit = true := by
  unfold portText at h
  split at h
  · exact absurd h List.not_mem_nil
  · rcases List.mem_cons.1 h with h | h
    · exact .inl h
    · exact .inr (Nat.isDigit_of_mem_toDigits (by decide) (by decide) h)

/-- The text of the port after its colon is read back. -/
theorem port_of_hostinfo {parsed : SplitResult} (hp : port ≤ 65535)
    (h : parsed.hostinfo.2 =
      (portRead standard port).map fun port => Nat.toDigits 10 port) :
    parsed.port = .ok (portRead standard port) := by
  unfold SplitResult.port
  rw [h]
  cases hr : portRead standard port with
  | none => rfl
  | some read =>
    have he : read = port := by
      unfold portRead at hr
      split at hr
      · cases hr
      · exact (Option.some.inj hr).symm
    subst he
    have digits : (Nat.toDigits 10 read).all Char.isDigit = true :=
      List.all_eq_true.2 fun c hc => Nat.isDigit_of_mem_toDigits (by decide) (by decide) hc
    have short : (Nat.toDigits 10 read).length ≤ 5 :=
      (Nat.length_toDigits_le_iff (by decide) (by decide)).2 (by omega)
    have value : valueOf 10 (Nat.toDigits 10 read) = read :=
      valueOf_toDigits (by decide) (by decide) _
    rw [Option.map_some]
    dsimp only
    rw [if_neg (not_not.2 digits), if_neg (by omega), value, if_neg (by omega)]

/-- A host without the characters that part an authority. -/
def PlainHost (host : List Char) : Prop := ∀ c ∈ host, c ≠ ':' ∧ c ≠ '@' ∧ c ≠ '[' ∧ c ≠ ']'

theorem notMem_portText (hd : d.isDigit = false) (hc : d ≠ ':') : d ∉ portText standard port := by
  intro h
  rcases mem_portText h with h | h
  · exact hc h
  · rw [hd] at h
    cases h

theorem notMem_plain (hh : PlainHost host) (hd : d ∈ ['@', '[', ']']) :
    d ∉ host ++ portText standard port := by
  rw [List.mem_append]
  rintro (h | h)
  · obtain ⟨-, h1, h2, h3⟩ := hh d h
    fin_cases hd
    · exact h1 rfl
    · exact h2 rfl
    · exact h3 rfl
  · fin_cases hd <;> exact notMem_portText (by decide) (by decide) h

/-- The host and the port of a plain authority. -/
theorem hostinfo_plain (hh : PlainHost host) :
    (SplitResult.https (host ++ portText standard port)).hostinfo =
      (host, (portRead standard port).map fun port => Nat.toDigits 10 port) := by
  have noColon : ':' ∉ host := fun h => (hh ':' h).1 rfl
  unfold SplitResult.hostinfo SplitResult.https
  dsimp only
  rw [rpartition_of_notMem (notMem_plain hh (by decide))]
  dsimp only
  rw [Encoding.partition_of_notMem (notMem_plain hh (by decide))]
  dsimp only
  rcases portText_cases standard port with ⟨ht, hr⟩ | ⟨ht, hr⟩
  · rw [ht, hr, List.append_nil, Encoding.partition_of_notMem noColon]
    rfl
  · rw [ht, hr, Encoding.partition_append _ noColon]
    simp [Nat.toDigits_ne_nil]

theorem standsForDelimiter_of_lt (h : c.toNat < 128) : standsForDelimiter c = false :=
  ascii_forall (P := fun c => standsForDelimiter c = false) (by decide +kernel) c h

theorem any_standsForDelimiter (safe : ∀ c ∈ host, standsForDelimiter c = false) :
    (host ++ portText standard port).any standsForDelimiter = false := by
  rw [List.any_eq_false]
  intro c hc
  rw [Bool.not_eq_true]
  rcases List.mem_append.1 hc with hc | hc
  · exact safe c hc
  · rcases mem_portText hc with rfl | hd
    · decide
    · refine standsForDelimiter_of_lt (isAlpha_lt ?_)
      unfold Char.isAlphanum
      rw [hd, Bool.or_true]

theorem checkNetloc_plain (hh : PlainHost host)
    (safe : ∀ c ∈ host, standsForDelimiter c = false) :
    checkNetloc (host ++ portText standard port) = .ok () := by
  have opening : '[' ∉ host ++ portText standard port := notMem_plain hh (by decide)
  have closing : ']' ∉ host ++ portText standard port := notMem_plain hh (by decide)
  unfold checkNetloc
  rw [if_neg (by simp only [opening, closing, false_and, or_false, not_false_eq_true]),
    if_neg opening, any_standsForDelimiter safe]
  rfl

theorem notMem_bracketed (h : d ∉ host) (hd : d.isDigit = false) (hc : d ≠ ':') (ho : d ≠ '[')
    (hc' : d ≠ ']') : d ∉ '[' :: host ++ ']' :: portText standard port := by
  simp only [List.cons_append, List.mem_cons, List.mem_append, not_or]
  exact ⟨ho, h, hc', notMem_portText hd hc⟩

/-- The host and the port of an authority with brackets. -/
theorem hostinfo_bracketed (no_at : '@' ∉ host) (closing : ']' ∉ host) :
    (SplitResult.https ('[' :: host ++ ']' :: portText standard port)).hostinfo =
      (host, (portRead standard port).map fun port => Nat.toDigits 10 port) := by
  have opened : Encoding.partition '[' ('[' :: host ++ ']' :: portText standard port) =
      ([], some (host ++ ']' :: portText standard port)) := by
    rw [List.cons_append, Encoding.partition, if_pos rfl]
  unfold SplitResult.hostinfo SplitResult.https
  simp only [rpartition_of_notMem
    (notMem_bracketed no_at (by decide) (by decide) (by decide) (by decide)), opened,
    Encoding.partition_append _ closing]
  rcases portText_cases standard port with ⟨ht, hr⟩ | ⟨ht, hr⟩
  · rw [ht, hr]
    rfl
  · rw [ht, hr]
    simp [Encoding.partition, Nat.toDigits_ne_nil]

theorem checkNetloc_bracketed (no_at : '@' ∉ host) (closing : ']' ∉ host)
    (safe : ∀ c ∈ host, standsForDelimiter c = false) :
    checkNetloc ('[' :: host ++ ']' :: portText standard port) = checkBracketedHost host := by
  have opened : Encoding.partition '[' ('[' :: host ++ ']' :: portText standard port) =
      ([], some (host ++ ']' :: portText standard port)) := by
    rw [List.cons_append, Encoding.partition, if_pos rfl]
  have both : '[' ∈ '[' :: host ++ ']' :: portText standard port ∧
      ']' ∈ '[' :: host ++ ']' :: portText standard port := by simp
  have colon : ¬ (portText standard port ≠ [] ∧ (portText standard port).head? ≠ some ':') := by
    rcases portText_cases standard port with ⟨ht, -⟩ | ⟨ht, -⟩
    · rw [ht]
      simp
    · rw [ht]
      simp
  have safe' : ('[' :: host ++ ']' :: portText standard port).any standsForDelimiter = false := by
    have : (host ++ portText standard port).any standsForDelimiter = false :=
      any_standsForDelimiter safe
    rw [List.any_append, Bool.or_eq_false_iff] at this
    rw [List.any_append, List.any_cons, List.any_cons, this.1, this.2]
    rfl
  have host_ : checkBracketedNetloc ('[' :: host ++ ']' :: portText standard port) =
      checkBracketedHost host := by
    unfold checkBracketedNetloc
    rw [rpartition_of_notMem
      (notMem_bracketed no_at (by decide) (by decide) (by decide) (by decide))]
    dsimp only
    rw [opened]
    dsimp only
    rw [if_neg (by simp), Encoding.partition_append _ closing]
    dsimp only
    rw [Option.getD_some, if_neg colon]
  unfold checkNetloc
  rw [if_neg (by simp only [both, not_true_eq_false, and_false, or_false, not_false_eq_true]),
    if_pos both.1, host_, safe']
  cases checkBracketedHost host <;> rfl

/-- What is written of an IPv6 address may stand in brackets. -/
theorem checkBracketedHost_text (a : V6) (scope : Option Scope) :
    checkBracketedHost (Address.v6 a scope).text = .ok () := by
  have ne : a.text ≠ [] := List.ne_nil_of_mem a.colon_mem
  have first : (Address.v6 a scope).text.head? = a.text.head? := by
    cases scope with
    | none => rfl
    | some scope => exact List.head?_append_of_ne_nil _ ne
  have notV : (Address.v6 a scope).text.head? ≠ some 'v' := by
    rw [first]
    exact fun h => a.notMem_text (by decide) (by decide) (List.mem_of_head? h)
  unfold checkBracketedHost
  rw [if_neg notV, ipAddress_text]

end Net

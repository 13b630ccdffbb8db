import CodemcpBridge.Net.Authorities
import CodemcpBridge.Properties.Admission
import Mathlib.Data.Bool.AllAny

/-!
# Canonical hosts and origins

An accepted origin denotes a host and a port, and its canonical form is these written down.  What is
written is read back, so canonical forms are equal just when hosts and ports are; whether the host
stood in brackets is not written down of a name.
-/

namespace CodemcpBridge

namespace NetworkTrust

open Net SplitResult

/-! ## Host names -/

section HostNames

variable {text value host : List Char} {c d : Char} {field : String}

def isHostChar (c : Char) : Bool := c.isAlphanum || c == '-' || c == '.'

/-- A host name made of labels. -/
def IsName (text : List Char) : Prop := (text.splitOn '.').all isLabel = true

theorem isHostChar_lt (h : isHostChar c = true) : c.toNat < 128 := by
  simp only [isHostChar, Bool.or_eq_true, beq_iff_eq] at h
  rcases h with (h | rfl) | rfl
  · exact isAlpha_lt h
  · decide
  · decide

/-- A character of a host name is no space, no control character and parts nothing. -/
structure Harmless (c : Char) : Prop where
  blank : isBlank c = false
  control : isControl c = false
  netloc : isNetlocChar c = true
  star : c ≠ '*'
  parts : c ∉ [':', '@', '[', ']', '%', '/', '?', '#']

theorem harmless_of_isHostChar (h : isHostChar c = true) : Harmless c := by
  have := ascii_forall (P := fun c => isHostChar c = true →
    isBlank c = false ∧ isControl c = false ∧
    isNetlocChar c = true ∧ c ≠ '*' ∧ c ∉ [':', '@', '[', ']', '%', '/', '?', '#'])
    (by decide +kernel) c (isHostChar_lt h) h
  exact ⟨this.1, this.2.1, this.2.2.1, this.2.2.2.1, this.2.2.2.2⟩

theorem isLabel_chars (h : isLabel text = true) : ∀ c ∈ text, isHostChar c = true ∧ c ≠ '.' := by
  simp only [isLabel, Bool.and_eq_true] at h
  intro c hc
  have := List.all_eq_true.1 h.1.1 c hc
  unfold isHostChar
  rw [this, Bool.true_or]
  refine ⟨rfl, ?_⟩
  rintro rfl
  exact absurd this (by decide)

theorem IsName.chars (h : IsName text) : ∀ c ∈ text, isHostChar c = true := by
  intro c hc
  have whole : ['.'].intercalate (text.splitOn '.') = text := List.intercalate_splitOn '.'
  rw [← whole] at hc
  rcases mem_intercalate hc with rfl | ⟨label, hl, hc⟩
  · decide
  · exact (isLabel_chars (List.all_eq_true.1 h label hl) c hc).1

theorem IsName.ne_nil (h : IsName text) : text ≠ [] := by
  rintro rfl
  unfold IsName at h
  exact absurd h (by decide)

theorem isAlphanum_lowerChar (h : c.isAlphanum = true) : (lowerChar c).isAlphanum = true :=
  ascii_forall (P := fun c => c.isAlphanum = true → (lowerChar c).isAlphanum = true)
    (by decide +kernel) c (isAlpha_lt h) h

theorem isLabel_map_lowerChar (h : isLabel text = true) : isLabel (text.map lowerChar) = true := by
  simp only [isLabel, Bool.and_eq_true, decide_eq_true_eq] at h ⊢
  obtain ⟨⟨inner, first, last⟩, short⟩ := h
  refine ⟨⟨?_, ?_, ?_⟩, by rw [List.length_map]; exact short⟩
  · rw [List.all_map]
    refine List.all_eq_true.2 fun c hc => ?_
    have := List.all_eq_true.1 inner c hc
    simp only [Function.comp, Bool.or_eq_true, beq_iff_eq] at this ⊢
    rcases this with ha | rfl
    · exact .inl (isAlphanum_lowerChar ha)
    · exact .inr rfl
  · rw [List.head?_map]
    cases ht : text.head? with
    | none => rw [ht] at first; exact first
    | some c => rw [ht] at first; exact isAlphanum_lowerChar first
  · rw [List.getLast?_map]
    cases ht : text.getLast? with
    | none => rw [ht] at last; exact last
    | some c => rw [ht] at last; exact isAlphanum_lowerChar last

theorem splitOn_map_lowerChar (text : List Char) :
    (text.map lowerChar).splitOn '.' = (text.splitOn '.').map (List.map lowerChar) := by
  induction text with
  | nil => rfl
  | cons c text ih =>
    have dot : (lowerChar c == '.') = (c == '.') := by
      rw [Bool.eq_iff_iff, beq_iff_eq, beq_iff_eq]
      exact ⟨eq_of_lowerChar (by decide), fun h => by rw [h]; rfl⟩
    rw [List.map_cons, List.splitOn_cons_eq_if_modifyHead,
      List.splitOn_cons_eq_if_modifyHead, dot, ih]
    split
    · rfl
    · cases text.splitOn '.' <;> rfl

theorem IsName.map_lowerChar (h : IsName text) : IsName (text.map lowerChar) := by
  unfold IsName at *
  rw [splitOn_map_lowerChar, List.all_map]
  refine List.all_eq_true.2 fun label hl => ?_
  exact isLabel_map_lowerChar (List.all_eq_true.1 h label hl)

/-- What `_require_text` lets through. -/
structure PlainText (text : List Char) : Prop where
  ne_nil : text ≠ []
  strip : strip text = text
  control : ∀ c ∈ text, isControl c = false

theorem requireText_iff : requireText value field = .ok text ↔ text = value ∧ PlainText value :=
  requireText_ok.trans ⟨fun ⟨he, ne, hs, hc⟩ => ⟨he, ne, hs, hc⟩,
    fun ⟨he, ne, hs, hc⟩ => ⟨he, ne, hs, hc⟩⟩

theorem plainText_of_harmless (ne : text ≠ []) (h : ∀ c ∈ text, Harmless c) : PlainText text where
  ne_nil := ne
  strip := strip_eq_self (fun c hc => (h c (List.mem_of_head? hc)).blank)
    fun c hc => (h c (List.mem_of_getLast? hc)).blank
  control := fun c hc => (h c hc).control

theorem IsName.harmless (h : IsName text) : ∀ c ∈ text, Harmless c :=
  fun c hc => harmless_of_isHostChar (h.chars c hc)

theorem IsName.notMem (h : IsName text) (hd : d ∈ [':', '@', '[', ']', '%', '/', '?', '#']) :
    d ∉ text :=
  fun hm => (h.harmless d hm).parts hd

/-- A name is no address but an IPv4 address. -/
theorem IsName.ipAddress (h : IsName text) : ipAddress text = (parseV4 text).map .v4 := by
  have noColon : ':' ∉ text := h.notMem (by decide)
  have unscoped : parseScoped text = none := by
    unfold parseScoped
    rw [Encoding.partition_of_notMem (h.notMem (by decide))]
    dsimp only
    rw [parseV6_of_notMem noColon]
    rfl
  unfold Net.ipAddress
  rw [if_neg (h.notMem (by decide)), unscoped]
  cases parseV4 text <;> rfl

theorem not_isAlpha_of_isDigit (h : c.isDigit = true) : c.isAlpha = false := by
  have lt : c.toNat < 128 := isAlpha_lt (by unfold Char.isAlphanum; rw [h, Bool.or_true])
  exact ascii_forall (P := fun c => c.isDigit = true → c.isAlpha = false) (by decide +kernel) c lt h

/-- What reads as digits and dots reads so in any case. -/
theorem eq_of_parseV4_map {a : V4} (h : parseV4 (text.map lowerChar) = some a) :
    text.map lowerChar = text := by
  have fixed : ∀ c ∈ text, lowerChar c = c := by
    intro c hc
    rcases lowerChar_spec c with hl | ha
    · exact hl
    · rcases digit_or_dot_of_parseV4 h _ (List.mem_map_of_mem hc) with hd | hd
      · rw [eq_of_lowerChar (not_isAlpha_of_isDigit hd) rfl]
        exact lowerChar_lowerChar _
      · rw [hd] at ha
        exact absurd ha (by decide)
  rw [List.map_congr_left fixed, List.map_id']

theorem IsName.ipAddress_map (h : IsName text) (hn : Net.ipAddress text = none) :
    Net.ipAddress (text.map lowerChar) = none := by
  rw [h.map_lowerChar.ipAddress]
  cases hp : parseV4 (text.map lowerChar) with
  | none => rfl
  | some a =>
    rw [eq_of_parseV4_map hp] at hp
    rw [h.ipAddress, hp] at hn
    cases hn

/-- What becomes of a host name: an address is written anew, a name in small letters. -/
theorem canonicalizeHostname_iff {allowIp : Bool} :
    canonicalizeHostname value field allowIp = .ok text ↔
      PlainText value ∧ '*' ∉ value ∧ value.length ≤ 253 ∧
        ((∃ a, Net.ipAddress value = some a ∧ allowIp = true ∧ text = a.text) ∨
          (Net.ipAddress value = none ∧ IsName value ∧ text = value.map lowerChar)) := by
  unfold canonicalizeHostname
  simp only [bind_eq_ok, requireText_iff, refuseIf_ok, exists_const, and_assoc,
    exists_eq_left, not_lt]
  refine and_congr_right fun _ => and_congr_right fun _ => and_congr_right fun _ => ?_
  cases ha : Net.ipAddress value with
  | none =>
    simp only [bind_eq_ok, refuseIf_ok, not_not, exists_const, pure, Except.pure, Except.ok.injEq,
      reduceCtorEq, false_and, exists_false, false_or, true_and]
    exact and_congr_right fun _ => eq_comm
  | some a =>
    simp only [bind_eq_ok, refuseIf_ok, exists_const, pure, Except.pure, Except.ok.injEq,
      Option.some.injEq, exists_eq_left', reduceCtorEq, false_and, or_false, Bool.not_eq_true',
      Bool.not_eq_false]
    exact and_congr_right fun _ => eq_comm

/-- What becomes of an allowed host. -/
theorem canonicalizeAllowedHost_iff : canonicalizeAllowedHost value = .ok host ↔
    PlainText value ∧ '*' ∉ value ∧ value.length ≤ 253 ∧ Net.ipAddress value = none ∧ IsName value ∧
      host = value.map lowerChar := by
  unfold canonicalizeAllowedHost
  simp only [bind_eq_ok, requireText_iff, refuseIf_ok, exists_const, and_assoc, exists_eq_left,
    canonicalizeHostname_iff, Bool.false_eq_true, false_and, and_false, exists_false, false_or]
  constructor
  · rintro ⟨plain, -, -, star, short, noIp, name, he⟩
    exact ⟨plain, star, short, noIp, name, he⟩
  · rintro ⟨plain, star, short, noIp, name, he⟩
    refine ⟨plain, ?_, plain, star, short, noIp, name, he⟩
    intro h
    obtain ⟨c, hc, hp⟩ := List.any_eq_true.1 h
    refine (name.harmless c hc).parts ?_
    simp only [List.contains_eq_mem, decide_eq_true_eq] at hp
    simp only [List.mem_cons, List.not_mem_nil, or_false] at hp ⊢
    tauto

/-- The canonical form of a host is its own. -/
theorem canonicalizeAllowedHost_idem (h : canonicalizeAllowedHost value = .ok host) :
    canonicalizeAllowedHost host = .ok host := by
  obtain ⟨-, -, short, noIp, name, rfl⟩ := canonicalizeAllowedHost_iff.1 h
  have name' := name.map_lowerChar
  refine canonicalizeAllowedHost_iff.2 ⟨plainText_of_harmless name'.ne_nil name'.harmless, ?_, ?_,
    name.ipAddress_map noIp, name', ?_⟩
  · exact fun hm => (name'.harmless '*' hm).star rfl
  · rw [List.length_map]
    exact short
  · rw [List.map_map]
    exact List.map_congr_left fun c _ => (lowerChar_lowerChar c).symm

end HostNames

/-! ## What an origin denotes -/

/-- A host: a name in small letters, or an address. -/
inductive Host
  | name (text : List Char)
  | address (a : Address)
  deriving DecidableEq

/-- The host of an origin, whether it stands in brackets, and the port that is meant. -/
@[ext]
structure Denotation where
  bracketed : Bool
  host : Host
  port : ℕ
  deriving DecidableEq

def hostOf (hostname : List Char) : Host :=
  match Net.ipAddress hostname with
  | some a => .address a
  | none => .name hostname

/-- What a URL denotes, by the parts that `urlsplit` gives of it. -/
def denoted (origin : List Char) : Option Denotation :=
  match urlsplit origin with
  | .error _ => none
  | .ok parsed => match parsed.hostname, parsed.port with
    | some hostname, .ok port =>
      some { bracketed := '[' ∈ parsed.netloc, host := hostOf hostname, port := port.getD 443 }
    | _, _ => none

def Host.bare : Host → List Char
  | .name text => text
  | .address a => a.text

def Host.isV6 : Host → Bool
  | .address (.v6 _ _) => true
  | _ => false

/-- The host as it stands in an origin. -/
def Host.part (host : Host) : List Char :=
  if host.isV6 then '[' :: host.bare ++ [']'] else host.bare

/-- An origin written down. -/
def render (host : Host) (port : ℕ) : List Char :=
  "https://".toList ++ (host.part ++ portText 443 port)

/-- A character of a scope that stays in an origin. -/
structure ScopeChar (c : Char) : Prop where
  control : isControl c = false
  netloc : isNetlocChar c = true
  safe : standsForDelimiter c = false
  parts : c ∉ ['*', '@', ']']

/-- A host that an accepted origin may have. -/
def Host.Valid : Host → Prop
  | .name text => IsName text ∧ text.map lowerChar = text ∧ Net.ipAddress text = none ∧
      text.length ≤ 253
  | .address (.v4 _) | .address (.v6 _ none) => True
  | .address (.v6 _ (some scope)) => (∀ c ∈ scope.1, ScopeChar c) ∧
      ∀ c, scope.1.getLast? = some c → isBlank c = false

variable {value origin : List Char} {port : ℕ} {host : Host} {parsed : SplitResult} {c : Char}
  {field : String}

/-! ## What is written is read back -/

theorem scopeChar_of_harmless (h : Harmless c) (lt : c.toNat < 128) : ScopeChar c where
  control := h.control
  netloc := h.netloc
  safe := standsForDelimiter_of_lt lt
  parts := by
    have star := h.star
    have parts := h.parts
    simp only [List.mem_cons, List.not_mem_nil, or_false, not_or] at parts ⊢
    exact ⟨star, parts.2.1, parts.2.2.2.1⟩

theorem isHostChar_of_mem_v4 {a : V4} (h : c ∈ a.text) : isHostChar c = true := by
  unfold isHostChar Char.isAlphanum
  rcases a.digit_or_dot c h with hd | rfl
  · rw [hd, Bool.or_true]
    rfl
  · rfl

/-- A digit or a colon of an IPv6 address. -/
theorem v6_char : ∀ n < 128, (isWrittenDigit (Char.ofNat n) = true ∨ Char.ofNat n = ':') →
    isBlank (Char.ofNat n) = false ∧ isControl (Char.ofNat n) = false ∧
      isNetlocChar (Char.ofNat n) = true ∧ lowerChar (Char.ofNat n) = Char.ofNat n ∧
      Char.ofNat n ∉ ['*', '@', ']', '%', 'v'] := by
  decide +kernel

theorem isWrittenDigit_lt (h : isWrittenDigit c = true) : c.toNat < 128 := by
  simp only [isWrittenDigit, Bool.or_eq_true, Bool.and_eq_true, decide_eq_true_eq] at h
  rcases h with h | ⟨-, h⟩
  · exact isAlpha_lt (by unfold Char.isAlphanum; rw [h, Bool.or_true])
  · have : c.val.toNat ≤ 102 := h
    have : c.toNat = c.val.toNat := rfl
    omega

theorem v6_char_of_mem {a : V6} (h : c ∈ a.text) : c.toNat < 128 ∧ isBlank c = false ∧
    isControl c = false ∧ isNetlocChar c = true ∧ lowerChar c = c ∧
      c ∉ ['*', '@', ']', '%', 'v'] := by
  have lt : c.toNat < 128 := by
    rcases a.digit_or_colon c h with hd | rfl
    · exact isWrittenDigit_lt hd
    · decide
  have := v6_char c.toNat lt
  rw [Char.ofNat_toNat] at this
  exact ⟨lt, this (a.digit_or_colon c h)⟩

theorem scopeChar_of_mem_v6 {a : V6} (h : c ∈ a.text) : ScopeChar c := by
  obtain ⟨lt, -, control, netloc, -, parts⟩ := v6_char_of_mem h
  refine ⟨control, netloc, standsForDelimiter_of_lt lt, fun hm => parts ?_⟩
  simp only [List.mem_cons, List.not_mem_nil, or_false] at hm ⊢
  tauto

/-- The characters of a host in an origin. -/
theorem Host.Valid.chars (h : host.Valid) : ∀ c ∈ host.bare, ScopeChar c := by
  intro c hc
  match host, h with
  | .name text, h =>
    have := h.1.chars c hc
    exact scopeChar_of_harmless (harmless_of_isHostChar this) (isHostChar_lt this)
  | .address (.v4 a), _ =>
    have := isHostChar_of_mem_v4 hc
    exact scopeChar_of_harmless (harmless_of_isHostChar this) (isHostChar_lt this)
  | .address (.v6 a none), _ => exact scopeChar_of_mem_v6 hc
  | .address (.v6 a (some scope)), h =>
    rcases List.mem_append.1 hc with hc | hc
    · exact scopeChar_of_mem_v6 hc
    · rcases List.mem_cons.1 hc with rfl | hc
      · exact ⟨by decide, by decide, by decide, by decide⟩
      · exact h.1 c hc

/-- The characters of a host that does not stand in brackets. -/
theorem Host.Valid.isHostChar (h : host.Valid) (hv : host.isV6 = false) :
    ∀ c ∈ host.bare, isHostChar c = true := by
  intro c hc
  match host, h with
  | .name text, h => exact h.1.chars c hc
  | .address (.v4 a), _ => exact isHostChar_of_mem_v4 hc
  | .address (.v6 _ _), _ => cases hv

theorem Host.Valid.plain (h : host.Valid) (hv : host.isV6 = false) : PlainHost host.bare := by
  intro c hc
  have := (harmless_of_isHostChar (h.isHostChar hv c hc)).parts
  simp only [List.mem_cons, List.not_mem_nil, or_false, not_or] at this
  exact ⟨this.1, this.2.1, this.2.2.1, this.2.2.2.1⟩

theorem Host.Valid.ne_nil (h : host.Valid) : host.bare ≠ [] := by
  intro he
  match host, h with
  | .name text, h => exact h.1.ne_nil he
  | .address (.v4 a), _ =>
    have := parseV4_text a
    rw [show a.text = [] from he] at this
    cases this
  | .address (.v6 a none), _ =>
    have := a.colon_mem
    rw [show a.text = [] from he] at this
    cases this
  | .address (.v6 a (some scope)), _ => exact absurd he (by simp [Host.bare, Address.text])

/-- The host name that is read of a valid host is that host. -/
theorem Host.Valid.hostname (h : host.Valid) (hi : parsed.hostinfo.1 = host.bare) :
    parsed.hostname = some host.bare := by
  have fixed {text : List Char} (percent : '%' ∉ text) (lower : ∀ c ∈ text, lowerChar c = c)
      (hi : parsed.hostinfo.1 = text) (ne : text ≠ []) : parsed.hostname = some text := by
    unfold SplitResult.hostname
    rw [hi, if_neg ne, Encoding.partition_of_notMem percent]
    dsimp only
    rw [List.map_congr_left lower, List.map_id']
  have ne := h.ne_nil
  match host, h with
  | .name text, h =>
    have lower : ∀ c ∈ text, lowerChar c = c :=
      List.map_inj_left.1 (h.2.1.trans (List.map_id text).symm)
    exact fixed (h.1.notMem (by decide)) lower hi ne
  | .address (.v4 a), _ =>
    have harmless : ∀ c ∈ a.text, Harmless c := fun c hc =>
      harmless_of_isHostChar (isHostChar_of_mem_v4 hc)
    refine fixed (fun hm => (harmless _ hm).parts (by decide)) (fun c hc => ?_) hi ne
    rcases a.digit_or_dot c hc with hd | rfl
    · exact lowerChar_of_isDigit hd
    · rfl
  | .address (.v6 a none), _ =>
    refine fixed (fun hm => (v6_char_of_mem hm).2.2.2.2.2 (by decide)) (fun c hc => ?_) hi ne
    exact (v6_char_of_mem hc).2.2.2.2.1
  | .address (.v6 a (some scope)), _ =>
    have percent : '%' ∉ a.text := fun hm => (v6_char_of_mem hm).2.2.2.2.2 (by decide)
    have lower : ∀ c ∈ a.text, lowerChar c = c := fun c hc => (v6_char_of_mem hc).2.2.2.2.1
    have he : (Host.address (.v6 a (some scope))).bare = a.text ++ '%' :: scope.1 := rfl
    unfold SplitResult.hostname
    rw [hi, if_neg ne, he, Encoding.partition_append _ percent]
    dsimp only
    rw [List.map_congr_left lower, List.map_id']

theorem Host.Valid.checkNetloc (h : host.Valid) :
    Net.checkNetloc (host.part ++ portText 443 port) = .ok () := by
  have safe : ∀ c ∈ host.bare, standsForDelimiter c = false := fun c hc => (h.chars c hc).safe
  unfold Host.part
  by_cases hv : host.isV6 = true
  · rw [if_pos hv]
    have no_at : '@' ∉ host.bare := fun hm => (h.chars _ hm).parts (by decide)
    have closing : ']' ∉ host.bare := fun hm => (h.chars _ hm).parts (by decide)
    rw [List.append_assoc, List.singleton_append, List.cons_append, ← List.cons_append,
      checkNetloc_bracketed no_at closing safe]
    match host, hv with
    | .address (.v6 a scope), _ => exact checkBracketedHost_text a scope
  · rw [if_neg hv]
    exact checkNetloc_plain (h.plain (Bool.eq_false_iff.2 hv)) safe

theorem Host.Valid.isNetlocChar (h : host.Valid) :
    ∀ c ∈ host.part ++ portText 443 port, isNetlocChar c = true := by
  intro c hc
  rcases List.mem_append.1 hc with hc | hc
  · unfold Host.part at hc
    split at hc
    · simp only [List.cons_append, List.mem_cons, List.mem_append, List.not_mem_nil, or_false] at hc
      rcases hc with rfl | hc | rfl
      · decide
      · exact (h.chars c hc).netloc
      · decide
    · exact (h.chars c hc).netloc
  · rcases mem_portText hc with rfl | hd
    · decide
    · refine (harmless_of_isHostChar ?_).netloc
      unfold NetworkTrust.isHostChar Char.isAlphanum
      rw [hd, Bool.or_true]
      rfl

theorem Host.Valid.hostinfo (h : host.Valid) :
    (SplitResult.https (host.part ++ portText 443 port)).hostinfo =
      (host.bare, (portRead 443 port).map fun port => Nat.toDigits 10 port) := by
  unfold Host.part
  by_cases hv : host.isV6 = true
  · rw [if_pos hv, List.append_assoc, List.singleton_append, List.cons_append, ← List.cons_append]
    exact hostinfo_bracketed (fun hm => (h.chars _ hm).parts (by decide))
      fun hm => (h.chars _ hm).parts (by decide)
  · rw [if_neg hv]
    exact hostinfo_plain (h.plain (Bool.eq_false_iff.2 hv))

/-- The parts of an origin that was written down. -/
theorem urlsplit_render (h : host.Valid) :
    urlsplit (render host port) = .ok (.https (host.part ++ portText 443 port)) := by
  unfold render
  rw [urlsplit_https h.isNetlocChar, h.checkNetloc]
  rfl

theorem Host.Valid.port_eq (h : host.Valid) (hp : port ≤ 65535) :
    (SplitResult.https (host.part ++ portText 443 port)).port = .ok (portRead 443 port) :=
  port_of_hostinfo hp (congrArg Prod.snd h.hostinfo)

theorem hostOf_bare (h : host.Valid) : hostOf host.bare = host := by
  unfold hostOf
  cases host with
  | name text => rw [show (Host.name text).bare = text from rfl, h.2.2.1]
  | address a => rw [show (Host.address a).bare = a.text from rfl, ipAddress_text]

theorem portRead_getD (port : ℕ) : (portRead 443 port).getD 443 = port := by
  unfold portRead
  split
  · exact (‹port = 443›).symm
  · rfl

theorem Host.Valid.opening_mem (h : host.Valid) :
    decide ('[' ∈ host.part ++ portText 443 port) = host.isV6 := by
  unfold Host.part
  by_cases hv : host.isV6 = true
  · rw [if_pos hv, hv]
    simp
  · rw [if_neg hv, Bool.eq_false_iff.2 hv]
    exact decide_eq_false (notMem_plain (h.plain (Bool.eq_false_iff.2 hv)) (by decide))

theorem denoted_render (h : host.Valid) (hp : port ≤ 65535) :
    denoted (render host port) = some { bracketed := host.isV6, host, port } := by
  unfold denoted
  rw [urlsplit_render h]
  dsimp only
  rw [h.hostname (congrArg Prod.fst h.hostinfo), h.port_eq hp]
  dsimp only
  rw [hostOf_bare h, portRead_getD]
  exact congrArg (fun b => some (⟨b, host, port⟩ : Denotation)) h.opening_mem

/-! ## Accepted origins -/

/-- What is checked of an origin. -/
structure Accepted (value : List Char) (parsed : SplitResult) (port : Option ℕ)
    (hostname canonical : List Char) : Prop where
  plain : PlainText value
  notNull : value.map lowerChar ≠ "null".toList
  star : '*' ∉ value
  split : urlsplit value = .ok parsed
  port_eq : parsed.port = .ok port
  scheme : parsed.scheme.map Char.toLower = "https".toList
  hostname_eq : parsed.hostname = some hostname
  credentials : parsed.hasCredentials = false
  path : parsed.path = []
  query : '?' ∉ value
  fragment : '#' ∉ value
  portRange : ∀ p, port = some p → 1 ≤ p ∧ p ≤ 65535
  canonical_eq : canonicalizeHostname hostname "allowed_origins hostname" true = .ok canonical

theorem orMalformed_ok {α : Type} {x : Except ValueError α} {a : α} :
    orMalformed x = .ok a ↔ x = .ok a := by
  cases x <;> simp [orMalformed, Except.mapError]

theorem canonicalizeAllowedOrigin_iff : canonicalizeAllowedOrigin value = .ok origin ↔
    ∃ parsed port hostname canonical, Accepted value parsed port hostname canonical ∧
      origin = "https://".toList ++ hostPart hostname canonical ++ portSuffix port := by
  unfold canonicalizeAllowedOrigin
  simp only [bind_eq_ok, requireText_iff, refuseIf_ok, exists_const, and_assoc, exists_eq_left,
    orMalformed_ok]
  constructor
  · rintro ⟨plain, null, star, parsed, hs, port, hp, scheme, h⟩
    cases hh : parsed.hostname with
    | none => rw [hh] at h; cases h
    | some hostname =>
      rw [hh] at h
      simp only [bind_eq_ok, refuseIf_ok, exists_const, pure, Except.pure, Except.ok.injEq,
        not_or, not_not] at h
      obtain ⟨credentials, ⟨path, query, fragment⟩, range, canonical, hc, he⟩ := h
      refine ⟨parsed, port, hostname, canonical, ⟨plain, null, star, hs, hp, not_not.1 scheme, hh,
        Bool.eq_false_iff.2 credentials, path, query, fragment, ?_, hc⟩, he.symm⟩
      rintro p rfl
      simp only [Option.any_some, decide_eq_true_eq, not_or, not_lt] at range
      omega
  · rintro ⟨parsed, port, hostname, canonical, h, he⟩
    refine ⟨h.plain, h.notNull, h.star, parsed, h.split, port, h.port_eq, not_not.2 h.scheme, ?_⟩
    rw [h.hostname_eq]
    simp only [bind_eq_ok, refuseIf_ok, exists_const, pure, Except.pure, Except.ok.injEq,
      not_or, not_not]
    refine ⟨Bool.eq_false_iff.1 h.credentials, ⟨h.path, h.query, h.fragment⟩, ?_, canonical,
      h.canonical_eq, he.symm⟩
    cases port with
    | none => exact Bool.false_ne_true
    | some p =>
      have := h.portRange p rfl
      simp only [Option.any_some, decide_eq_true_eq, not_or, not_lt]
      omega

theorem portSuffix_eq (port : Option ℕ) : portSuffix port = portText 443 (port.getD 443) := by
  cases port <;> rfl

/-- The canonical form is the host and the port, written down. -/
theorem canonical_eq_render {hostname canonical : List Char} {port : Option ℕ}
    (h : Accepted value parsed port hostname canonical) (valid : (hostOf hostname).Valid) :
    "https://".toList ++ hostPart hostname canonical ++ portSuffix port =
      render (hostOf hostname) (port.getD 443) := by
  obtain ⟨-, -, -, hc⟩ := canonicalizeHostname_iff.1 h.canonical_eq
  unfold render hostPart Host.part hostOf
  unfold hostOf at valid
  rw [portSuffix_eq, List.append_assoc]
  rcases hc with ⟨a, ha, -, rfl⟩ | ⟨hn, -, rfl⟩
  · rw [ha]
    cases a <;> rfl
  · rw [hn] at valid ⊢
    show _ = "https://".toList ++ (hostname ++ _)
    rw [valid.2.1]

theorem harmless_of_mem_portText (h : c ∈ portText 443 port) :
    isBlank c = false ∧ isControl c = false ∧ c ≠ '*' := by
  rcases mem_portText h with rfl | hd
  · decide
  · have : isHostChar c = true := by
      unfold isHostChar Char.isAlphanum
      rw [hd, Bool.or_true]
      rfl
    have := harmless_of_isHostChar this
    exact ⟨this.blank, this.control, this.star⟩

/-- There is no space around a host. -/
theorem Host.Valid.first_last (h : host.Valid) :
    (∀ c, host.bare.head? = some c → isBlank c = false) ∧
      ∀ c, host.bare.getLast? = some c → isBlank c = false := by
  by_cases hv : host.isV6 = true
  · match host, h with
    | .address (.v6 a none), _ =>
      exact ⟨fun c hc => (v6_char_of_mem (List.mem_of_head? hc)).2.1,
        fun c hc => (v6_char_of_mem (List.mem_of_getLast? hc)).2.1⟩
    | .address (.v6 a (some scope)), h =>
      have ne : a.text ≠ [] := List.ne_nil_of_mem a.colon_mem
      constructor
      · intro c hc
        have hc : (a.text ++ '%' :: scope.1).head? = some c := hc
        rw [List.head?_append_of_ne_nil _ ne] at hc
        exact (v6_char_of_mem (List.mem_of_head? hc)).2.1
      · intro c hc
        have hc : (a.text ++ '%' :: scope.1).getLast? = some c := hc
        rw [List.getLast?_append_of_ne_nil _ (List.cons_ne_nil _ _),
          List.getLast?_cons_of_ne_nil scope.2.1] at hc
        exact h.2 c hc
  · have harmless (c) (hc : c ∈ host.bare) : Harmless c :=
      harmless_of_isHostChar (h.isHostChar (Bool.eq_false_iff.2 hv) c hc)
    exact ⟨fun c hc => (harmless c (List.mem_of_head? hc)).blank,
      fun c hc => (harmless c (List.mem_of_getLast? hc)).blank⟩

theorem Host.Valid.plainText (h : host.Valid) : PlainText host.bare where
  ne_nil := h.ne_nil
  strip := strip_eq_self h.first_last.1 h.first_last.2
  control := fun c hc => (h.chars c hc).control

/-- The characters of a written origin. -/
theorem mem_render (hc : c ∈ render host port) : c ∈ "https://[]".toList ∨ c ∈ host.bare ∨
    c ∈ portText 443 port := by
  unfold render Host.part at hc
  have prefix_ : c ∈ "https://".toList → c ∈ "https://[]".toList := fun h =>
    List.mem_append_left "[]".toList h
  split at hc
  · simp only [List.mem_append, List.mem_cons, List.not_mem_nil, or_false] at hc
    rcases hc with hc | ((rfl | hc) | rfl) | hc
    · exact .inl (prefix_ hc)
    · exact .inl (by decide)
    · exact .inr (.inl hc)
    · exact .inl (by decide)
    · exact .inr (.inr hc)
  · simp only [List.mem_append] at hc
    rcases hc with hc | hc | hc
    · exact .inl (prefix_ hc)
    · exact .inr (.inl hc)
    · exact .inr (.inr hc)

theorem Host.Valid.plainText_render (h : host.Valid) : PlainText (render host port) where
  ne_nil := List.append_ne_nil_of_left_ne_nil (by decide) _
  strip := by
    refine strip_eq_self ?_ ?_
    · intro c hc
      unfold render at hc
      rw [List.head?_append_of_ne_nil _ (by decide)] at hc
      have : "https://".toList.head? = some 'h' := by decide
      rw [this] at hc
      cases hc
      decide
    · intro c hc
      have part_ne : host.part ≠ [] := by
        unfold Host.part
        split
        · simp
        · exact h.ne_nil
      unfold render at hc
      rw [List.getLast?_append_of_ne_nil _ (List.append_ne_nil_of_left_ne_nil part_ne _)] at hc
      by_cases hp : portText 443 port = []
      · rw [hp, List.append_nil] at hc
        unfold Host.part at hc
        split at hc
        · rw [List.getLast?_concat] at hc
          cases hc
          decide
        · exact h.first_last.2 c hc
      · rw [List.getLast?_append_of_ne_nil _ hp] at hc
        exact (harmless_of_mem_portText (List.mem_of_getLast? hc)).1
  control := by
    intro c hc
    rcases mem_render hc with hc | hc | hc
    · have all : ∀ c ∈ "https://[]".toList, isControl c = false :=
        List.all_iff_forall_prop.1 (by decide)
      exact all c hc
    · exact (h.chars c hc).control
    · exact (harmless_of_mem_portText hc).2.1

theorem Host.Valid.star_notMem (h : host.Valid) : '*' ∉ host.bare :=
  fun hm => (h.chars _ hm).parts (by decide)

theorem Host.Valid.notMem_render (h : host.Valid) (hc : c ∈ ['*', '?', '#']) :
    c ∉ render host port := by
  intro hm
  rcases mem_render hm with hm | hm | hm
  · have all : ∀ c ∈ ['*', '?', '#'], c ∉ "https://[]".toList :=
      List.all_iff_forall_prop.1 (by decide)
    exact all c hc hm
  · have hp := (h.chars c hm).parts
    have hn := (h.chars c hm).netloc
    fin_cases hc
    · exact hp (by decide)
    · exact absurd hn (by decide)
    · exact absurd hn (by decide)
  · rcases mem_portText hm with rfl | hd
    · exact absurd hc (by decide)
    · fin_cases hc <;> exact absurd hd (by decide)

theorem Host.Valid.noCredentials (h : host.Valid) :
    (SplitResult.https (host.part ++ portText 443 port)).hasCredentials = false := by
  have no_at : '@' ∉ host.part ++ portText 443 port := by
    rw [List.mem_append]
    rintro (hm | hm)
    · unfold Host.part at hm
      have bare : '@' ∉ host.bare := fun hm => (h.chars _ hm).parts (by decide)
      split at hm
      · simp only [List.cons_append, List.mem_cons, List.mem_append, List.not_mem_nil,
          or_false] at hm
        rcases hm with hm | hm | hm
        · exact absurd hm (by decide)
        · exact bare hm
        · exact absurd hm (by decide)
      · exact bare hm
    · exact notMem_portText (by decide) (by decide) hm
  unfold SplitResult.hasCredentials SplitResult.https
  dsimp only
  rw [rpartition_of_notMem no_at]
  rfl

/-- A written origin is accepted unless its host is too long, and is its own canonical form. -/
theorem canonicalize_render (h : host.Valid) (least : 1 ≤ port) (most : port ≤ 65535) :
    canonicalizeAllowedOrigin (render host port) = .ok (render host port) ↔
      host.bare.length ≤ 253 := by
  have name_eq : (SplitResult.https (host.part ++ portText 443 port)).hostname = some host.bare :=
    h.hostname (congrArg Prod.fst h.hostinfo)
  rw [canonicalizeAllowedOrigin_iff]
  constructor
  · rintro ⟨parsed, port', hostname, canonical, ha, -⟩
    have split := ha.split
    rw [urlsplit_render h] at split
    cases split
    have := ha.hostname_eq
    rw [name_eq] at this
    cases this
    exact (canonicalizeHostname_iff.1 ha.canonical_eq).2.2.1
  · intro short
    have canonical : canonicalizeHostname host.bare "allowed_origins hostname" true =
        .ok host.bare := by
      refine canonicalizeHostname_iff.2 ⟨h.plainText, h.star_notMem, short, ?_⟩
      match host, h with
      | .name text, h => exact .inr ⟨h.2.2.1, h.1, h.2.1.symm⟩
      | .address a, _ => exact .inl ⟨a, ipAddress_text a, rfl, rfl⟩
    have accepted : Accepted (render host port) (.https (host.part ++ portText 443 port))
        (portRead 443 port) host.bare host.bare :=
      { plain := h.plainText_render
        notNull := by
          intro hn
          have := congrArg List.length hn
          rw [List.length_map] at this
          unfold render at this
          rw [List.length_append] at this
          have : "https://".toList.length = 8 := by decide
          have : "null".toList.length = 4 := by decide
          omega
        star := h.notMem_render (by decide)
        split := urlsplit_render h
        port_eq := h.port_eq most
        scheme := by
          show "https".toList.map Char.toLower = _
          decide
        hostname_eq := name_eq
        credentials := h.noCredentials
        path := rfl
        query := h.notMem_render (by decide)
        fragment := h.notMem_render (by decide)
        portRange := by
          intro p hp
          unfold portRead at hp
          split at hp
          · cases hp
          · cases hp
            exact ⟨least, most⟩
        canonical_eq := canonical }
    refine ⟨_, _, _, _, accepted, ?_⟩
    rw [canonical_eq_render accepted (by rw [hostOf_bare h]; exact h), hostOf_bare h, portRead_getD]

/-- The authority of a URL. -/
theorem urlsplit_ok (h : urlsplit value = .ok parsed) :
    checkNetloc parsed.netloc = .ok () ∧
      ∀ c ∈ parsed.netloc, c ∈ value ∧ isNetlocChar c = true := by
  unfold urlsplit at h
  simp only [bind_eq_ok, pure, Except.pure, Except.ok.injEq] at h
  obtain ⟨_, check, rfl⟩ := h
  refine ⟨check, fun c hc => ?_⟩
  dsimp only at hc
  split at hc
  · have ends := List.mem_takeWhile_imp hc
    have hm := splitScheme_subset (List.mem_of_mem_drop ((List.takeWhile_subset _) hc))
    obtain ⟨hm, stays⟩ := List.mem_filter.1 hm
    refine ⟨(List.dropWhile_suffix _).subset hm, ?_⟩
    unfold isNetlocChar
    rw [ends, Bool.true_and]
    exact stays
  · exact absurd hc List.not_mem_nil

theorem mem_of_rpartition {sep : Char} {text : List Char} (h : c ∈ (rpartition sep text).2) :
    c ∈ text := by
  unfold rpartition at h
  cases hp : Encoding.partition sep text.reverse with
  | mk after before =>
    rw [hp] at h
    cases before with
    | none => exact h
    | some before =>
      have := Encoding.partition_subset.1 c (by rw [hp]; exact List.mem_reverse.1 h)
      exact List.mem_reverse.1 this

/-- Where the host of an authority is found. -/
theorem hostinfo_cases (parsed : SplitResult) :
    (∃ bracketed, (Encoding.partition '[' (rpartition '@' parsed.netloc).2).2 = some bracketed ∧
      parsed.hostinfo.1 = (Encoding.partition ']' bracketed).1) ∨
    parsed.hostinfo.1 = (Encoding.partition ':' (rpartition '@' parsed.netloc).2).1 := by
  unfold SplitResult.hostinfo
  dsimp only
  split
  · rename_i bracketed hp
    exact .inl ⟨bracketed, congrArg Prod.snd hp, rfl⟩
  · exact .inr rfl

theorem mem_of_hostinfo (h : c ∈ parsed.hostinfo.1) : c ∈ parsed.netloc := by
  rcases hostinfo_cases parsed with ⟨bracketed, hb, he⟩ | he
  · rw [he] at h
    exact mem_of_rpartition (Encoding.partition_subset.2 bracketed hb c
      (Encoding.partition_subset.1 c h))
  · rw [he] at h
    exact mem_of_rpartition (Encoding.partition_subset.1 c h)

/-- A host with a colon stood in brackets. -/
theorem closing_notMem_hostinfo (h : ':' ∈ parsed.hostinfo.1) : ']' ∉ parsed.hostinfo.1 := by
  rcases hostinfo_cases parsed with ⟨bracketed, -, he⟩ | he
  · rw [he]
    exact Encoding.notMem_partition_fst
  · rw [he] at h
    exact absurd h Encoding.notMem_partition_fst

/-- Without credentials there is no `@`. -/
theorem at_notMem_netloc (h : parsed.hasCredentials = false) : '@' ∉ parsed.netloc := by
  unfold SplitResult.hasCredentials rpartition at h
  intro hm
  cases hp : Encoding.partition '@' parsed.netloc.reverse with
  | mk after before =>
    rw [hp] at h
    cases before with
    | none =>
      exact Encoding.notMem_of_partition_none (congrArg Prod.snd hp) (List.mem_reverse.2 hm)
    | some before => cases h

/-- A host name is put together of what stood before its scope and the scope. -/
theorem hostname_cases {hostname : List Char} (h : parsed.hostname = some hostname) :
    ('%' ∉ hostname ∧ hostname = parsed.hostinfo.1.map lowerChar) ∨
      ∃ host zone, '%' ∉ host ∧ parsed.hostinfo.1 = host ++ '%' :: zone ∧
        hostname = host.map lowerChar ++ '%' :: zone := by
  unfold SplitResult.hostname at h
  split at h
  · cases h
  cases hp : Encoding.partition '%' parsed.hostinfo.1 with
  | mk host zone =>
    have absent : '%' ∉ host := by
      have : host = (Encoding.partition '%' parsed.hostinfo.1).1 := by rw [hp]
      rw [this]
      exact Encoding.notMem_partition_fst
    rw [hp] at h
    cases zone with
    | none =>
      have whole : '%' ∉ parsed.hostinfo.1 :=
        Encoding.notMem_of_partition_none (congrArg Prod.snd hp)
      rw [Encoding.partition_of_notMem whole] at hp
      cases hp
      cases h
      exact .inl ⟨notMem_map_lowerChar (by decide) whole, rfl⟩
    | some zone =>
      have whole := Encoding.eq_of_partition_some (congrArg Prod.snd hp)
      rw [hp] at whole
      cases h
      exact .inr ⟨host, zone, absent, whole, rfl⟩

/-- A colon of a host name was there before. -/
theorem colon_mem_hostinfo {hostname : List Char} (h : parsed.hostname = some hostname)
    (hc : ':' ∈ hostname) : ':' ∈ parsed.hostinfo.1 := by
  have lowered {text : List Char} (hm : ':' ∈ text.map lowerChar) : ':' ∈ text := by
    obtain ⟨c, hc, hl⟩ := List.mem_map.1 hm
    exact eq_of_lowerChar (by decide) hl ▸ hc
  rcases hostname_cases h with ⟨-, he⟩ | ⟨host, zone, -, whole, he⟩
  · rw [he] at hc
    exact lowered hc
  · rw [he, List.mem_append] at hc
    rw [whole, List.mem_append]
    exact hc.imp lowered id

/-- An IPv6 address holds a colon, and its scope is what stands after the first percent sign. -/
theorem v6_of_ipAddress {hostname : List Char} {a : V6} {scope : Option Net.Scope}
    (h : Net.ipAddress hostname = some (.v6 a scope)) :
    ':' ∈ hostname ∧ (Encoding.partition '%' hostname).2 = scope.map Subtype.val := by
  have colon {address : List Char} {a : V6} {zone : Option (List Char)}
      (hp : Encoding.partition '%' hostname = (address, zone)) (hv : parseV6 address = some a) :
      ':' ∈ hostname := by
    by_contra hn
    have : ':' ∉ address := fun hm => hn (Encoding.partition_subset.1 ':' (by rw [hp]; exact hm))
    rw [parseV6_of_notMem this] at hv
    cases hv
  unfold Net.ipAddress at h
  split at h
  · cases h
  split at h
  · cases h
  · obtain ⟨⟨a', scope'⟩, hs, he⟩ := Option.map_eq_some_iff.1 h
    cases he
    unfold parseScoped at hs
    split at hs
    · rename_i address hp
      obtain ⟨_, hv, he⟩ := Option.map_eq_some_iff.1 hs
      cases he
      exact ⟨colon hp hv, congrArg Prod.snd hp⟩
    · rename_i address zone hp
      split at hs
      · obtain ⟨_, hv, he⟩ := Option.map_eq_some_iff.1 hs
        cases he
        exact ⟨colon hp hv, congrArg Prod.snd hp⟩
      · cases hs

theorem safe_of_checkNetloc {netloc : List Char} (h : checkNetloc netloc = .ok ()) :
    ∀ c ∈ netloc, standsForDelimiter c = false := by
  unfold checkNetloc at h
  split at h
  · cases h
  obtain ⟨_, -, h⟩ := bind_eq_ok.1 h
  split at h
  · cases h
  · rename_i hs
    intro c hc
    exact Bool.eq_false_iff.2 fun hb => hs (List.any_eq_true.2 ⟨c, hc, hb⟩)

/-- The host of an accepted origin. -/
theorem valid_of_accepted {hostname canonical : List Char} {port : Option ℕ}
    (h : Accepted value parsed port hostname canonical) : (hostOf hostname).Valid := by
  obtain ⟨plain, star, short, hc⟩ := canonicalizeHostname_iff.1 h.canonical_eq
  obtain ⟨check, chars⟩ := urlsplit_ok h.split
  unfold hostOf
  cases ha : Net.ipAddress hostname with
  | none =>
    rw [ha] at hc
    obtain ⟨-, name, -⟩ := hc.resolve_left fun ⟨_, h, _⟩ => nomatch h
    refine ⟨name, ?_, ha, short⟩
    rcases hostname_cases h.hostname_eq with ⟨-, he⟩ | ⟨host, zone, -, -, he⟩
    · rw [he, List.map_map]
      exact List.map_congr_left fun c _ => lowerChar_lowerChar c
    · exact absurd (by rw [he]; simp) (name.notMem (by decide : '%' ∈ _))
  | some a =>
    match a, ha with
    | .v4 _, _ => trivial
    | .v6 _ none, _ => trivial
    | .v6 a (some scope), ha =>
      obtain ⟨colon, after⟩ := v6_of_ipAddress ha
      rcases hostname_cases h.hostname_eq with ⟨absent, -⟩ | ⟨host, zone, absent, whole, he⟩
      · rw [Encoding.partition_of_notMem absent] at after
        cases after
      have lowered : '%' ∉ host.map lowerChar := notMem_map_lowerChar (by decide) absent
      rw [he, Encoding.partition_append _ lowered] at after
      have hz : zone = scope.1 := Option.some.inj after
      have mem_netloc (c) (hc : c ∈ scope.1) : c ∈ parsed.netloc :=
        mem_of_hostinfo (by
          rw [whole, hz]
          exact List.mem_append_right _ (List.mem_cons_of_mem _ hc))
      have mem_hostname (c) (hc : c ∈ scope.1) : c ∈ hostname := by
        rw [he, hz]
        exact List.mem_append_right _ (List.mem_cons_of_mem _ hc)
      have raw_colon : ':' ∈ parsed.hostinfo.1 := colon_mem_hostinfo h.hostname_eq colon
      refine ⟨fun c hc => ⟨plain.control c (mem_hostname c hc), (chars c (mem_netloc c hc)).2,
        safe_of_checkNetloc check c (mem_netloc c hc), ?_⟩, fun c hc => ?_⟩
      · intro hp
        fin_cases hp
        · exact star (mem_hostname _ hc)
        · exact at_notMem_netloc h.credentials (mem_netloc _ hc)
        · refine closing_notMem_hostinfo raw_colon ?_
          rw [whole, hz]
          exact List.mem_append_right _ (List.mem_cons_of_mem _ hc)
      · refine last_of_strip plain.strip c ?_
        rw [he, hz, List.getLast?_append_of_ne_nil _ (List.cons_ne_nil _ _),
          List.getLast?_cons_of_ne_nil scope.2.1, hc]

/-! ## Brackets -/

theorem v4_of_ipAddress {hostname : List Char} {a : V4}
    (h : Net.ipAddress hostname = some (.v4 a)) : parseV4 hostname = some a := by
  unfold Net.ipAddress at h
  split at h
  · cases h
  split at h
  · cases h
    assumption
  · obtain ⟨_, -, he⟩ := Option.map_eq_some_iff.1 h
    cases he

/-- What stands in brackets of an authority that is let through. -/
theorem opened_of_checkNetloc (check : checkNetloc parsed.netloc = .ok ())
    (no_at : '@' ∉ parsed.netloc) (opening : '[' ∈ parsed.netloc) :
    checkBracketedHost parsed.hostinfo.1 = .ok () := by
  unfold checkNetloc at check
  split at check
  · cases check
  obtain ⟨_, check, -⟩ := bind_eq_ok.1 check
  unfold checkBracketedNetloc at check
  unfold SplitResult.hostinfo
  rw [rpartition_of_notMem no_at] at check ⊢
  dsimp only at check ⊢
  cases hp : Encoding.partition '[' parsed.netloc with
  | mk before bracketed =>
    cases bracketed with
    | none => exact absurd opening (Encoding.notMem_of_partition_none (congrArg Prod.snd hp))
    | some bracketed =>
      rw [hp] at check
      dsimp only at check ⊢
      split at check
      · cases check
      split at check
      · cases check
      · exact check

/-- An address stands in brackets just when it is an IPv6 one. -/
theorem bracketed_of_accepted {hostname canonical : List Char} {port : Option ℕ} {a : Address}
    (h : Accepted value parsed port hostname canonical) (ha : Net.ipAddress hostname = some a) :
    decide ('[' ∈ parsed.netloc) = (Host.address a).isV6 := by
  cases a with
  | v4 a =>
    refine decide_eq_false fun opening => ?_
    have := opened_of_checkNetloc (urlsplit_ok h.split).1 (at_notMem_netloc h.credentials) opening
    have parsed4 := v4_of_ipAddress ha
    have digits := digit_or_dot_of_parseV4 parsed4
    rcases hostname_cases h.hostname_eq with ⟨-, he⟩ | ⟨host, zone, -, -, he⟩
    · rw [he] at parsed4
      rw [eq_of_parseV4_map parsed4] at he
      rw [← he] at this
      unfold checkBracketedHost at this
      rw [if_neg, ha] at this
      · cases this
      · exact fun hv => absurd (digits 'v' (List.mem_of_head? hv)) (by decide)
    · exact absurd (digits '%' (by rw [he]; simp)) (by decide)
  | v6 a scope =>
    refine decide_eq_true ?_
    have colon := colon_mem_hostinfo h.hostname_eq (v6_of_ipAddress ha).1
    rcases hostinfo_cases parsed with ⟨bracketed, hb, -⟩ | he
    · have : '[' ∈ (rpartition '@' parsed.netloc).2 := by
        rw [Encoding.eq_of_partition_some hb]
        simp
      exact mem_of_rpartition this
    · rw [he] at colon
      exact absurd colon Encoding.notMem_partition_fst

/-- An accepted origin denotes something, and its canonical form is that written down. -/
theorem denoted_of_accepted (h : canonicalizeAllowedOrigin value = .ok origin) :
    ∃ d, denoted value = some d ∧ d.host.Valid ∧ 1 ≤ d.port ∧ d.port ≤ 65535 ∧
      (∀ a, d.host = .address a → d.bracketed = d.host.isV6) ∧
      origin = render d.host d.port := by
  obtain ⟨parsed, port, hostname, canonical, ha, he⟩ := canonicalizeAllowedOrigin_iff.1 h
  have valid := valid_of_accepted ha
  refine ⟨{ bracketed := '[' ∈ parsed.netloc, host := hostOf hostname, port := port.getD 443 },
    ?_, valid, ?_⟩
  · unfold denoted
    rw [ha.split]
    dsimp only
    rw [ha.hostname_eq, ha.port_eq]
  · have range : 1 ≤ port.getD 443 ∧ port.getD 443 ≤ 65535 := by
      cases port with
      | none => decide
      | some p => exact ha.portRange p rfl
    refine ⟨range.1, range.2, fun a hh => ?_, he.trans (canonical_eq_render ha valid)⟩
    dsimp only at hh ⊢
    rw [hh]
    unfold hostOf at hh
    split at hh
    · rename_i a' hip
      rw [← Host.address.inj hh]
      exact bracketed_of_accepted ha hip
    · cases hh

/-! ## Canonical forms -/

/-- The host of an origin, with an address written anew, is not too long for a host name. -/
def Fits (value : List Char) : Prop := ∀ d, denoted value = some d → d.host.bare.length ≤ 253

/-- One is written with a name in brackets, as `[v1.a]`, and the other with that name. -/
def Confused (value value' : List Char) : Prop :=
  ∃ d d' text, denoted value = some d ∧ denoted value' = some d' ∧ d.port = d'.port ∧
    d.host = .name text ∧ d'.host = .name text ∧ d.bracketed ≠ d'.bracketed

theorem canonicalizeAllowedOrigin_idem (h : canonicalizeAllowedOrigin value = .ok origin) :
    canonicalizeAllowedOrigin origin = .ok origin ↔ Fits value := by
  obtain ⟨d, hd, valid, least, most, -, rfl⟩ := denoted_of_accepted h
  rw [canonicalize_render valid least most]
  refine ⟨fun short d' hd' => ?_, fun fits => fits d hd⟩
  rw [hd] at hd'
  cases hd'
  exact short

theorem render_inj {host' : Host} {port' : ℕ} (h : host.Valid) (h' : host'.Valid)
    (hp : port ≤ 65535) (hp' : port' ≤ 65535) :
    render host port = render host' port' ↔ host = host' ∧ port = port' := by
  constructor
  · intro he
    have := congrArg denoted he
    rw [denoted_render h hp, denoted_render h' hp'] at this
    injection this with this
    injection this with _ hh hp
    exact ⟨hh, hp⟩
  · rintro ⟨rfl, rfl⟩
    rfl

/-- Two canonical forms are equal just when the same is denoted, but for a name in brackets. -/
theorem canonical_eq_iff {value' origin' : List Char}
    (h : canonicalizeAllowedOrigin value = .ok origin)
    (h' : canonicalizeAllowedOrigin value' = .ok origin') :
    (origin = origin' ↔ denoted value = denoted value') ↔ ¬ Confused value value' := by
  obtain ⟨d, hd, valid, -, most, brackets, rfl⟩ := denoted_of_accepted h
  obtain ⟨d', hd', valid', -, most', brackets', rfl⟩ := denoted_of_accepted h'
  have confused : Confused value value' ↔ d.port = d'.port ∧
      ∃ text, d.host = .name text ∧ d'.host = .name text ∧ d.bracketed ≠ d'.bracketed := by
    unfold Confused
    rw [hd, hd']
    constructor
    · rintro ⟨_, _, text, ⟨⟩, ⟨⟩, hp, h⟩
      exact ⟨hp, text, h⟩
    · rintro ⟨hp, text, h⟩
      exact ⟨d, d', text, rfl, rfl, hp, h⟩
  have eq_iff : d = d' ↔ (d.host = d'.host ∧ d.port = d'.port) ∧ d.bracketed = d'.bracketed := by
    refine Denotation.ext_iff.trans ?_
    tauto
  rw [render_inj valid valid' most most', hd, hd', Option.some.injEq, confused, eq_iff]
  by_cases same : d.host = d'.host ∧ d.port = d'.port
  · rw [iff_true_left same, and_iff_right same]
    cases hh : d.host with
    | name text =>
      rw [same.1] at hh
      rw [hh]
      simp [same.2]
    | address a =>
      have hb := brackets a hh
      have hb' := brackets' a (same.1 ▸ hh)
      rw [hb, hb', same.1]
      simp
  · refine iff_of_true ⟨fun h => absurd h same, And.left⟩ ?_
    rintro ⟨hp, text, h, h', -⟩
    exact same ⟨h.trans h'.symm, hp⟩

/-! ## Configurations -/

theorem exists_of_forall₂ {α β : Type} {R : α → β → Prop} {l : List α} {l' : List β}
    (h : List.Forall₂ R l l') : ∀ b ∈ l', ∃ a, R a b := by
  induction h with
  | nil => exact fun _ h => absurd h List.not_mem_nil
  | cons hr _ ih =>
    intro b hb
    rcases List.mem_cons.1 hb with rfl | hb
    · exact ⟨_, hr⟩
    · exact ih b hb

/-- What `_canonicalize_entries` makes of an array. -/
theorem canonicalizeEach_ok {canonicalizer : List Char → Except TrustError (List Char)} :
    ∀ {entries : List Toml} {canonical result : List (List Char)}, canonical.Nodup →
      (canonicalizeEach field canonicalizer canonical entries = .ok result ↔
        ∃ forms, List.Forall₂ (fun entry form => canonicalizer (entryText entry) = .ok form)
          entries forms ∧ result = canonical ++ forms ∧ result.Nodup)
  | [], canonical, result, nodup => by
    unfold canonicalizeEach
    rw [Except.ok.injEq]
    constructor
    · rintro rfl
      exact ⟨[], .nil, (List.append_nil _).symm, nodup⟩
    · rintro ⟨forms, hf, rfl, -⟩
      cases hf
      exact (List.append_nil _).symm
  | entry :: entries, canonical, result, nodup => by
    unfold canonicalizeEach
    simp only [bind_eq_ok, refuseIf_ok, exists_const]
    constructor
    · rintro ⟨form, hc, new, h⟩
      have nodup' : (canonical ++ [form]).Nodup :=
        List.nodup_append.2 ⟨nodup, List.nodup_singleton _, by
          rintro x hx y hy rfl
          exact new (List.mem_singleton.1 hy ▸ hx)⟩
      obtain ⟨forms, hf, he, hn⟩ := (canonicalizeEach_ok nodup').1 h
      exact ⟨form :: forms, .cons hc hf, by rw [he, List.append_assoc]; rfl, hn⟩
    · rintro ⟨forms, hf, rfl, hn⟩
      obtain ⟨form, rest, hc, hrest, rfl⟩ := List.forall₂_cons_left_iff.1 hf
      have assoc : canonical ++ form :: rest = canonical ++ [form] ++ rest := by
        rw [List.append_assoc]
        rfl
      rw [assoc] at hn ⊢
      have nodup' := (List.nodup_append.1 hn).1
      refine ⟨form, hc, fun hm => ?_, (canonicalizeEach_ok nodup').2 ⟨rest, hrest, rfl, hn⟩⟩
      exact (List.nodup_append.1 nodup').2.2 form hm form (List.mem_singleton_self form) rfl

theorem canonicalizeEntries_ok {canonicalizer : List Char → Except TrustError (List Char)}
    {requireNonempty : Bool} {array : Toml} {forms : List (List Char)}
    (h : canonicalizeEntries array field canonicalizer requireNonempty = .ok forms) :
    (∀ form ∈ forms, ∃ text, canonicalizer text = .ok form) ∧ forms.Nodup ∧
      (requireNonempty = true → forms ≠ []) := by
  unfold canonicalizeEntries at h
  split at h
  · rename_i entries
    split at h
    · cases h
    rename_i nonempty
    obtain ⟨forms', hf, he, nodup⟩ := (canonicalizeEach_ok List.nodup_nil).1 h
    rw [List.nil_append] at he
    subst he
    refine ⟨fun form hm => ?_, nodup, ?_⟩
    · obtain ⟨entry, hc⟩ := exists_of_forall₂ hf form hm
      exact ⟨entryText entry, hc⟩
    · rintro required rfl
      cases hf
      rw [required] at nonempty
      exact nonempty rfl
  · cases h

/-- An array of texts. -/
def textsOf (entries : List (List Char)) : Toml :=
  .array (entries.map fun entry => .str (String.ofList entry))

/-- Entries are read back when each is its own canonical form. -/
theorem canonicalizeEntries_textsOf {canonicalizer : List Char → Except TrustError (List Char)}
    {requireNonempty : Bool} {forms : List (List Char)} (nodup : forms.Nodup)
    (nonempty : requireNonempty = true → forms ≠ []) :
    canonicalizeEntries (textsOf forms) field canonicalizer requireNonempty = .ok forms ↔
      ∀ form ∈ forms, canonicalizer form = .ok form := by
  have passes : ¬ (requireNonempty &&
      (forms.map fun entry => Toml.str (String.ofList entry)).isEmpty) = true := by
    rw [Bool.and_eq_true, List.isEmpty_iff, List.map_eq_nil_iff]
    exact fun h => nonempty h.1 h.2
  have text (entry : List Char) : entryText (.str (String.ofList entry)) = entry :=
    String.toList_ofList
  unfold canonicalizeEntries textsOf
  dsimp only
  rw [if_neg passes, canonicalizeEach_ok List.nodup_nil]
  constructor
  · rintro ⟨forms', hf, he, -⟩
    rw [List.nil_append] at he
    rw [← he, List.forall₂_map_left_iff] at hf
    simp only [text] at hf
    exact List.forall₂_same.1 hf
  · intro h
    refine ⟨forms, ?_, (List.nil_append _).symm, nodup⟩
    rw [List.forall₂_map_left_iff]
    simp only [text]
    exact List.forall₂_same.2 h

/-- A configuration that was made. -/
def NetworkTrustConfig.Valid (c : NetworkTrustConfig) : Prop :=
  ∃ mode hosts origins, NetworkTrustConfig.make mode hosts origins = .ok c

theorem NetworkTrustConfig.Valid.entries {c : NetworkTrustConfig} (h : c.Valid) :
    c.mode = "cloudflare-chatgpt" ∧ ∃ hosts origins,
      canonicalizeEntries hosts "allowed_hosts" canonicalizeAllowedHost true =
        .ok c.allowedHosts ∧
      canonicalizeEntries origins "allowed_origins" canonicalizeAllowedOrigin false =
        .ok c.allowedOrigins := by
  obtain ⟨mode, hosts, origins, h⟩ := h
  unfold NetworkTrustConfig.make at h
  split at h
  · obtain ⟨hs, hh, h⟩ := bind_eq_ok.1 h
    obtain ⟨os, ho, h⟩ := bind_eq_ok.1 h
    cases h
    exact ⟨rfl, hosts, origins, hh, ho⟩
  · cases h

theorem fits_iff (h : canonicalizeAllowedOrigin value = .ok origin) :
    canonicalizeAllowedOrigin origin = .ok origin ↔ Fits origin := by
  obtain ⟨d, -, valid, least, most, -, rfl⟩ := denoted_of_accepted h
  rw [canonicalize_render valid least most]
  have hd : denoted (render d.host d.port) =
      some { bracketed := d.host.isV6, host := d.host, port := d.port } :=
    denoted_render valid most
  constructor
  · intro short d' hd'
    rw [hd] at hd'
    cases hd'
    exact short
  · intro fits
    have := fits _ hd
    exact this

theorem fromMapping_asMapping {c : NetworkTrustConfig} (h : c.Valid) :
    NetworkTrustConfig.fromMapping c.asMapping = .ok c ↔
      ∀ origin ∈ c.allowedOrigins, Fits origin := by
  obtain ⟨hm, hosts, origins, hh, ho⟩ := h.entries
  obtain ⟨hostForms, hostNodup, hostNonempty⟩ := canonicalizeEntries_ok hh
  obtain ⟨originForms, originNodup, -⟩ := canonicalizeEntries_ok ho
  have read : NetworkTrustConfig.fromMapping c.asMapping =
      NetworkTrustConfig.make (some (.str "cloudflare-chatgpt")) (textsOf c.allowedHosts)
        (textsOf c.allowedOrigins) := by
    unfold NetworkTrustConfig.asMapping
    rw [hm]
    rfl
  have hostsRead : canonicalizeEntries (textsOf c.allowedHosts) "allowed_hosts"
      canonicalizeAllowedHost true = .ok c.allowedHosts := by
    refine (canonicalizeEntries_textsOf hostNodup hostNonempty).2 fun form hf => ?_
    obtain ⟨text, ht⟩ := hostForms form hf
    exact canonicalizeAllowedHost_idem ht
  have originsRead : canonicalizeEntries (textsOf c.allowedOrigins) "allowed_origins"
      canonicalizeAllowedOrigin false = .ok c.allowedOrigins ↔
        ∀ origin ∈ c.allowedOrigins, Fits origin := by
    rw [canonicalizeEntries_textsOf originNodup fun h => absurd h Bool.false_ne_true]
    refine forall₂_congr fun origin hf => ?_
    obtain ⟨text, ht⟩ := originForms origin hf
    exact fits_iff ht
  have whole : c = { mode := "cloudflare-chatgpt", allowedHosts := c.allowedHosts
                     allowedOrigins := c.allowedOrigins } := by
    rw [← hm]
  rw [read, ← originsRead]
  unfold NetworkTrustConfig.make
  rw [hostsRead]
  constructor
  · intro h
    obtain ⟨_, -, h⟩ := bind_eq_ok.1 h
    obtain ⟨origins, ho, h⟩ := bind_eq_ok.1 h
    rw [ho, ← Except.ok.inj h]
  · intro h
    rw [h, whole]
    rfl

/-- Canonical forms are normal forms, where they are: the form of a host is its own; that of an
origin is where it fits; two of them are equal just when the same is denoted, but for a name in
brackets; and a configuration is read back just when its origins fit. -/
theorem canonical_forms (value value' : List Char) (c : NetworkTrustConfig) :
    (∀ host, canonicalizeAllowedHost value = .ok host → canonicalizeAllowedHost host = .ok host) ∧
    (∀ origin, canonicalizeAllowedOrigin value = .ok origin →
      (canonicalizeAllowedOrigin origin = .ok origin ↔ Fits value)) ∧
    (∀ origin origin', canonicalizeAllowedOrigin value = .ok origin →
      canonicalizeAllowedOrigin value' = .ok origin' →
        ((origin = origin' ↔ denoted value = denoted value') ↔ ¬ Confused value value')) ∧
    (c.Valid →
      (NetworkTrustConfig.fromMapping c.asMapping = .ok c ↔
        ∀ origin ∈ c.allowedOrigins, Fits origin)) :=
  ⟨fun _ => canonicalizeAllowedHost_idem, fun _ => canonicalizeAllowedOrigin_idem,
    fun _ _ => canonical_eq_iff, fromMapping_asMapping⟩

/-- An origin whose host gets one character longer when it is written anew. -/
def longOrigin (hextets : String) : List Char :=
  "https://[".toList ++ hextets.toList ++ '%' :: List.replicate 238 'a' ++ [']']

/-- A name in brackets has the form of the bare name, and a form can be too long to be accepted. -/
theorem confused_and_unfit :
    (canonicalizeAllowedOrigin "https://[v1.a]".toList = .ok "https://v1.a".toList ∧
      canonicalizeAllowedOrigin "https://v1.a".toList = .ok "https://v1.a".toList ∧
      denoted "https://[v1.a]".toList ≠ denoted "https://v1.a".toList) ∧
    canonicalizeAllowedOrigin (longOrigin "1:2:3::5:6:7:8") = .ok (longOrigin "1:2:3:0:5:6:7:8") ∧
      ∀ origin, canonicalizeAllowedOrigin (longOrigin "1:2:3:0:5:6:7:8") ≠ .ok origin := by
  refine ⟨⟨?_, ?_, by decide +kernel⟩, ?_, ?_⟩
  · exact toOption_eq_some.1 (by decide +kernel)
  · exact toOption_eq_some.1 (by decide +kernel)
  · exact toOption_eq_some.1 (by decide +kernel)
  · intro origin h
    have none_ : (canonicalizeAllowedOrigin (longOrigin "1:2:3:0:5:6:7:8")).toOption = none := by
      decide +kernel
    rw [h] at none_
    cases none_

end NetworkTrust

end CodemcpBridge

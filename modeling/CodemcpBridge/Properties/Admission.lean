import CodemcpBridge.NetworkTrust

/-!
# Who passes the network-trust middleware

The values of a header are those under its name.  What passes is described by them alone, and the
helpers that read the headers are shown to come to the same.  An entry that is no pair counts as a
value of every header, and so nothing passes with one.
-/

namespace CodemcpBridge

namespace NetworkTrust

variable {scope : Scope} {config : NetworkTrustConfig} {value name text host : List Char}

/-! ## Texts without space around them -/

theorem dropWhile_eq_self {p : Char → Bool} (h : ∀ c, text.head? = some c → p c = false) :
    text.dropWhile p = text := by
  cases text with
  | nil => rfl
  | cons c cs => rw [List.dropWhile_cons, h c rfl, if_neg Bool.false_ne_true]

theorem strip_eq_self (first : ∀ c, text.head? = some c → isBlank c = false)
    (last : ∀ c, text.getLast? = some c → isBlank c = false) : strip text = text := by
  unfold strip
  rw [dropWhile_eq_self first, dropWhile_eq_self, List.reverse_reverse]
  intro c hc
  rw [List.head?_reverse] at hc
  exact last c hc

/-- A text that stays whole does not begin with what would be dropped. -/
theorem head_of_dropWhile {p : Char → Bool} (h : text.dropWhile p = text) :
    ∀ c, text.head? = some c → p c = false := by
  intro c hc
  cases text with
  | nil => cases hc
  | cons d cs =>
    cases hc
    by_contra hb
    rw [Bool.not_eq_false] at hb
    rw [List.dropWhile_cons, if_pos hb] at h
    have := congrArg List.length h
    have := (List.dropWhile_suffix p (l := cs)).length_le
    rw [List.length_cons] at *
    omega

/-- A stripped text stays whole at both ends. -/
theorem whole_of_strip (h : strip text = text) :
    text.dropWhile isBlank = text ∧ text.reverse.dropWhile isBlank = text.reverse := by
  have first : text.dropWhile isBlank = text := by
    refine (List.dropWhile_suffix isBlank).eq_of_length_le ?_
    calc text.length = (strip text).length := by rw [h]
      _ ≤ (text.dropWhile isBlank).length := by
        unfold strip
        rw [List.length_reverse]
        refine (List.dropWhile_suffix isBlank).length_le.trans ?_
        rw [List.length_reverse]
  unfold strip at h
  rw [first] at h
  exact ⟨first, by rw [← List.reverse_reverse (text.reverse.dropWhile isBlank), h]⟩

theorem head_of_strip (h : strip text = text) : ∀ c, text.head? = some c → isBlank c = false :=
  head_of_dropWhile (whole_of_strip h).1

theorem last_of_strip (h : strip text = text) :
    ∀ c, text.getLast? = some c → isBlank c = false := by
  intro c hc
  refine head_of_dropWhile (whole_of_strip h).2 c ?_
  rw [List.head?_reverse, hc]

/-! ## The specification -/

/-- The values under a name. -/
def valuesOf (scope : Scope) (name : String) : List (Option (List Char)) :=
  scope.headers.filterMap fun item => match item with
    | .pair rawName rawValue =>
      if (headerText rawName).any fun text => text.map Net.SplitResult.lowerChar = name.toList then
        some (headerText rawValue)
      else none
    | .malformed => none

/-- The value is a host name with the canonical form `host`, alone or with port 443. -/
def Denotes (value host : List Char) : Prop :=
  ∃ name, (value = name ∨ value = name ++ ":443".toList) ∧ canonicalizeAllowedHost name = .ok host

/-- A value that names a host. -/
def Names (host : List Char) (value : Option (List Char)) : Prop :=
  ∃ text, value = some text ∧ Denotes text host

/-- The values that name the host: there is one, at most one of either kind, and all denote one
allowed host. -/
def HostTrusted (config : NetworkTrustConfig) (scope : Scope) : Prop :=
  let hosts := valuesOf scope "host"
  let authorities := valuesOf scope ":authority" ++
    ((scope.authority.bind headerText).map some).toList
  hosts ++ authorities ≠ [] ∧ hosts.length ≤ 1 ∧ authorities.length ≤ 1 ∧
    ∃ host ∈ config.allowedHosts, ∀ value ∈ hosts ++ authorities, Names host value

/-- There is no origin, or one, and it is allowed. -/
def OriginTrusted (config : NetworkTrustConfig) (scope : Scope) : Prop :=
  valuesOf scope "origin" = [] ∨ ∃ text origin, valuesOf scope "origin" = [some text] ∧
    canonicalizeAllowedOrigin text = .ok origin ∧ origin ∈ config.allowedOrigins

/-- Every entry of the headers is a pair. -/
def WellFormed (scope : Scope) : Prop := HeaderItem.malformed ∉ scope.headers

/-! ## The helpers -/

theorem headerValues_eq (h : WellFormed scope) (name : String) :
    headerValues scope name = valuesOf scope name := by
  unfold headerValues valuesOf
  unfold WellFormed at h
  generalize scope.headers = items at h
  induction items with
  | nil => rfl
  | cons item items ih =>
    rw [List.mem_cons, not_or] at h
    rw [List.flatMap_cons, ih h.2]
    cases item with
    | malformed => exact absurd rfl h.1
    | pair rawName rawValue =>
      cases hn : headerText rawName with
      | none => simp [hn]
      | some text =>
        by_cases he : text.map Net.SplitResult.lowerChar = name.toList
        · simp [hn, he]
        · simp [hn, he]

theorem none_mem_headerValues (h : ¬ WellFormed scope) (name : String) :
    none ∈ headerValues scope name :=
  List.mem_flatMap.2 ⟨.malformed, not_not.1 h, List.mem_singleton_self none⟩

theorem refuseIf_ok {c : Prop} [Decidable c] {message : String} {u : Unit} :
    refuseIf c message = .ok u ↔ ¬ c := by
  unfold refuseIf refuse
  split <;> simp [*]

theorem requireText_ok {field : String} : requireText value field = .ok text ↔
    text = value ∧ value ≠ [] ∧ strip value = value ∧ ∀ c ∈ value, isControl c = false := by
  unfold requireText
  simp only [bind_eq_ok, refuseIf_ok, exists_const, not_not, List.any_eq_true, not_exists, not_and,
    Bool.not_eq_true, ne_eq, pure, Except.pure, Except.ok.injEq]
  exact ⟨fun ⟨ne, hs, hc, he⟩ => ⟨he.symm, ne, hs.symm, hc⟩,
    fun ⟨he, ne, hs, hc⟩ => ⟨ne, hs.symm, hc, he.symm⟩⟩

/-- A host name that is accepted. -/
theorem allowedHost_ok (h : canonicalizeAllowedHost name = .ok host) :
    name ≠ [] ∧ strip name = name ∧ ':' ∉ name := by
  unfold canonicalizeAllowedHost at h
  obtain ⟨hostname, hr, hc⟩ := bind_eq_ok.1 h
  obtain ⟨he, ne, hs, -⟩ := requireText_ok.1 hr
  obtain ⟨_, hc, -⟩ := bind_eq_ok.1 hc
  refine ⟨ne, hs, fun hm => refuseIf_ok.1 hc ?_⟩
  rw [he]
  exact List.any_eq_true.2 ⟨':', hm, by decide⟩

theorem toOption_eq_some {E α : Type} {x : Except E α} {a : α} :
    x.toOption = some a ↔ x = .ok a := by
  cases x <;> simp [Except.toOption]

theorem strip_append (ne : name ≠ []) (hs : strip name = name) :
    strip (name ++ ":443".toList) = name ++ ":443".toList := by
  apply strip_eq_self
  · rw [List.head?_append_of_ne_nil _ ne]
    exact head_of_strip hs
  · intro c hc
    rw [List.getLast?_append_of_ne_nil _ (by decide)] at hc
    cases hc
    decide

/-- The value of a header names the host that it denotes. -/
theorem canonicalizeRequestHost_eq_some :
    canonicalizeRequestHost (some value) = some host ↔ Denotes value host := by
  unfold canonicalizeRequestHost Denotes
  dsimp only
  constructor
  · intro h
    split at h
    · cases h
    split at h
    · exact ⟨value, .inl rfl, toOption_eq_some.1 h⟩
    · split at h
      · cases h
      · rename_i port
        rw [not_not] at port
        exact ⟨_, .inr (Encoding.eq_of_partition_some port), toOption_eq_some.1 h⟩
    · cases h
  · rintro ⟨name, hv, hn⟩
    obtain ⟨ne, hs, noColon⟩ := allowedHost_ok hn
    have none_ : name.count ':' = 0 := List.count_eq_zero.2 noColon
    rcases hv with rfl | rfl
    · rw [if_neg (by rw [not_or, not_not]; exact ⟨ne, hs.symm⟩), none_]
      exact toOption_eq_some.2 hn
    · have once : (name ++ ":443".toList).count ':' = 1 := by
        rw [List.count_append, none_]
        rfl
      have split : Encoding.partition ':' (name ++ ":443".toList) = (name, some "443".toList) :=
        Encoding.partition_append _ noColon
      rw [if_neg, once]
      · simp only [split, ne_eq, not_true_eq_false, if_false]
        exact toOption_eq_some.2 hn
      · rw [not_or, not_not, strip_append ne hs]
        exact ⟨List.append_ne_nil_of_left_ne_nil ne _, rfl⟩

theorem canonicalizeRequestHost_iff {value : Option (List Char)} :
    canonicalizeRequestHost value = some host ↔ Names host value := by
  cases value with
  | none => exact iff_of_false (fun h => nomatch h) fun ⟨_, h, _⟩ => nomatch h
  | some text =>
    rw [canonicalizeRequestHost_eq_some]
    exact ⟨fun h => ⟨text, rfl, h⟩, fun ⟨_, he, h⟩ => Option.some.inj he ▸ h⟩

theorem agreedHost_eq_some {hosts authorities : List (Option (List Char))} :
    agreedHost hosts authorities = some host ↔ hosts ++ authorities ≠ [] ∧ hosts.length ≤ 1 ∧
      authorities.length ≤ 1 ∧ ∀ value ∈ hosts ++ authorities, Names host value := by
  unfold agreedHost
  by_cases many : 1 < hosts.length ∨ 1 < authorities.length
  · rw [if_pos many]
    refine iff_of_false (fun h => nomatch h) fun ⟨_, h, h', _⟩ => ?_
    omega
  rw [if_neg many]
  have few : hosts.length ≤ 1 ∧ authorities.length ≤ 1 := by omega
  match hosts, authorities, few with
  | [], [], _ => simp
  | [value], [], _ =>
    show canonicalizeRequestHost value = _ ↔ _
    rw [canonicalizeRequestHost_iff]
    simp
  | [], [value], _ =>
    show canonicalizeRequestHost value = _ ↔ _
    rw [canonicalizeRequestHost_iff]
    simp
  | [value], [value'], _ =>
    simp only [List.singleton_append, List.mem_cons, List.not_mem_nil, or_false, forall_eq_or_imp,
      forall_eq, ne_eq, List.cons_ne_nil, not_false_eq_true, List.length_singleton,
      le_refl, true_and, ← canonicalizeRequestHost_iff]
    cases hv : canonicalizeRequestHost value with
    | none => simp
    | some host' =>
      cases hv' : canonicalizeRequestHost value' with
      | none => simp
      | some authority =>
        dsimp only
        by_cases he : host' = authority
        · rw [if_neg (not_not.2 he), he]
          simp
        · rw [if_pos he]
          refine iff_of_false (fun h => nomatch h) fun ⟨h, h'⟩ => he ?_
          exact (Option.some.inj h).trans (Option.some.inj h').symm

/-- With an entry that is no pair no host is named. -/
theorem requestHost_of_not_wellFormed (h : ¬ WellFormed scope) : requestHost scope = none := by
  by_contra hn
  obtain ⟨host, hh⟩ := Option.ne_none_iff_exists'.1 hn
  obtain ⟨-, -, -, all⟩ := agreedHost_eq_some.1 hh
  obtain ⟨_, he, -⟩ := all none (List.mem_append_left _ (none_mem_headerValues h "host"))
  cases he

theorem requestHost_eq_some (h : WellFormed scope) :
    (∃ host ∈ config.allowedHosts, requestHost scope = some host) ↔ HostTrusted config scope := by
  unfold HostTrusted requestHost
  simp only [agreedHost_eq_some, headerValues_eq h]
  constructor
  · rintro ⟨host, hm, ne, one, one', all⟩
    exact ⟨ne, one, one', host, hm, all⟩
  · rintro ⟨ne, one, one', host, hm, all⟩
    exact ⟨host, hm, ne, one, one', all⟩

theorem requestOriginAllowed_iff (h : WellFormed scope) :
    requestOriginAllowed scope config.allowedOrigins = true ↔ OriginTrusted config scope := by
  unfold requestOriginAllowed OriginTrusted
  rw [headerValues_eq h]
  split
  · rename_i hv
    exact iff_of_true rfl (.inl hv)
  · rename_i value hv
    rw [hv]
    split
    · rename_i canonical hc
      simp [hc]
    · rename_i hc
      simp [hc]
  · rename_i hnil hone
    refine iff_of_false Bool.false_ne_true ?_
    rintro (hv | ⟨text, origin, hv, -, -⟩)
    · exact hnil hv
    · exact hone text hv

/-! ## The middleware -/

/-- The scope that the wrapped application gets. -/
def admitted (resource : Option String) (scope : Scope) : Scope :=
  { scope with principal := some (.networkTrusted resource) }

/-- The request names an allowed host and no other origin than an allowed one. -/
def Trusted (config : NetworkTrustConfig) (scope : Scope) : Prop :=
  HostTrusted config scope ∧ OriginTrusted config scope

/-- A request passes if its headers are pairs and it is trusted; else there is one response. -/
theorem middleware_of_http (config : NetworkTrustConfig) (resource : Option String) (scope : Scope)
    (http : scope.type = "http") :
    (WellFormed scope ∧ Trusted config scope →
      middleware config resource scope = [.app (admitted resource scope)]) ∧
    (¬ (WellFormed scope ∧ Trusted config scope) →
      ∃ error, middleware config resource scope = [.respond 403 error]) := by
  unfold middleware
  rw [if_neg (not_not.2 http)]
  by_cases well : WellFormed scope
  · rw [Trusted, ← requestHost_eq_some well, ← requestOriginAllowed_iff well]
    cases hh : requestHost scope with
    | none => simp
    | some host =>
      dsimp only
      by_cases allowed : host ∈ config.allowedHosts
      · rw [if_neg (not_not.2 allowed)]
        cases ho : requestOriginAllowed scope config.allowedOrigins with
        | false => simp
        | true =>
          refine ⟨fun _ => rfl, fun h => absurd ⟨well, ?_, rfl⟩ h⟩
          exact ⟨host, allowed, rfl⟩
      · rw [if_pos allowed]
        refine ⟨?_, fun _ => ⟨_, rfl⟩⟩
        rintro ⟨-, ⟨other, hm, he⟩, -⟩
        exact absurd (Option.some.inj he ▸ hm) allowed
  · rw [requestHost_of_not_wellFormed well]
    exact ⟨fun h => absurd h.1 well, fun _ => ⟨_, rfl⟩⟩

/-- One host is allowed and no origin. -/
def sampleConfig : NetworkTrustConfig :=
  { mode := networkTrustProfile, allowedHosts := ["mcp.example.com".toList], allowedOrigins := [] }

/-- A request for that host, with these other entries among its headers. -/
def sampleScope (others : List HeaderItem) : Scope :=
  { type := "http", authority := none, principal := none
    headers := .pair (.text "Host".toList) (.text "MCP.example.com:443".toList) :: others }

theorem trusted_of_values (hosts : valuesOf scope "host" = [some "MCP.example.com:443".toList])
    (authorities : valuesOf scope ":authority" = []) (authority : scope.authority = none)
    (origins : valuesOf scope "origin" = []) : Trusted sampleConfig scope := by
  unfold Trusted HostTrusted OriginTrusted
  rw [hosts, authorities, authority, origins]
  refine ⟨⟨by decide, by decide, by decide, "mcp.example.com".toList, by decide, ?_⟩, .inl rfl⟩
  intro value hv
  rw [List.mem_singleton.1 hv]
  refine ⟨_, rfl, "MCP.example.com".toList, .inr (by decide), ?_⟩
  rw [← toOption_eq_some]
  decide +kernel

theorem middleware_sampleScope :
    middleware sampleConfig none (sampleScope []) = [.app (admitted none (sampleScope []))] := by
  refine (middleware_of_http sampleConfig none (sampleScope []) rfl).1 ⟨?_, ?_⟩
  · intro h
    cases List.mem_singleton.1 h
  · exact trusted_of_values (by decide +kernel) (by decide +kernel) rfl (by decide +kernel)

/-- A trusted request is turned away for an entry that is no pair. -/
theorem malformed_turned_away : Trusted sampleConfig (sampleScope [.malformed]) ∧
    middleware sampleConfig none (sampleScope [.malformed]) =
      [.respond 403 "host_not_allowed"] := by
  constructor
  · exact trusted_of_values (by decide +kernel) (by decide +kernel) rfl (by decide +kernel)
  · unfold middleware
    rw [if_neg (by decide), requestHost_of_not_wellFormed]
    exact not_not.2 (List.mem_cons_of_mem _ (List.mem_singleton_self _))

end NetworkTrust

end CodemcpBridge

import CodemcpBridge.Net.Authorities
import CodemcpBridge.Properties.Admission
import CodemcpBridge.ResourceServer
import Mathlib.Data.Bool.AllAny

/-!
# Who passes the OAuth gate

A request is let in, refused for its credential, or refused because the validation did not come to a
verdict.  Which of the three it is depends on the credential and the answer as the specification
below describes them.  One way out is missing: an answer whose body is too much for the JSON parser
raises an error that is not handled, as does a requester that raises something that is no
`Exception`.
-/

namespace CodemcpBridge

namespace ResourceServer

open Net NetworkTrust JsonText

/-! ## The specification -/

/-- The values of the `Authorization` headers. -/
def authorizations (headers : List RawHeader) : List (List Char) :=
  (headers.filter fun h =>
    (latin1 h.1).map SplitResult.lowerChar = "authorization".toList).map fun h => latin1 h.2

/-- There is one `Authorization` header, and it holds a well-formed bearer token. -/
def Bearer (headers : List RawHeader) (token : List Char) : Prop :=
  ∃ scheme, authorizations headers = [scheme ++ ' ' :: token] ∧
    scheme.map SplitResult.lowerChar = "bearer".toList ∧ token ≠ [] ∧ strip token = token ∧
    ∀ c ∈ token, 0x21 ≤ c.toNat ∧ c.toNat ≠ 0x7f

/-- The answer has the status and the headers of the contract. -/
structure Framed (r : ValidationHTTPResponse) : Prop where
  status : r.statusCode = 200
  json : r.contentType = "application/json".toList
  noStore : "no-store".toList ∈ r.directives

/-- The answer follows the contract and holds these members. -/
structure Contract (limits : Limits) (r : ValidationHTTPResponse) (payload : Payload) : Prop where
  framed : Framed r
  object : loads limits (r.body.map UInt8.toNat) = .ok (.obj payload)
  version : payload.get "contract_version" = some (.str (codes "1"))

/-- The members say that the token is active, and describe the principal. -/
structure Active (config : ResourceServerValidationConfig) (time : ℚ) (payload : Payload)
    (p : Principal) : Prop where
  active : payload.get "active" = some (.bool true)
  version : p.contractVersion = codes "1"
  issuer : p.issuer = config.issuer.map Char.toNat ∧ payload.get "issuer" = some (.str p.issuer)
  resource : p.resource = config.resource.map Char.toNat ∧
    payload.get "resource" = some (.str p.resource)
  subject : p.subject ≠ [] ∧ payload.get "subject" = some (.str p.subject)
  clientId : p.clientId ≠ [] ∧ payload.get "client_id" = some (.str p.clientId)
  scopes : [] ∉ p.scopes ∧ p.scopes.Nodup ∧
    payload.get "scopes" = some (.arr (p.scopes.map .str))
  issuedAt : payload.get "issued_at" = some (.int p.issuedAt)
  expiresAt : payload.get "expires_at" = some (.int p.expiresAt) ∧ truncate time < p.expiresAt

section Gate

variable (config : ResourceServerValidationConfig) (limits : Limits) (time : ℚ)
  (requester : ValidationRequest → RequestOutcome) (headers : List RawHeader)

/-- The answer to the token of the request. -/
def Answered (r : ValidationHTTPResponse) : Prop :=
  ∃ token, Bearer headers token ∧ requester (validationRequest config token) = .response r

/-- The request has an active token of this principal. -/
def Admits (p : Principal) : Prop :=
  ∃ r payload, Answered config requester headers r ∧ Contract limits r payload ∧
    Active config time payload p

/-- The credential is missing, malformed or inactive. -/
def Refuses : Prop :=
  (∀ token, ¬ Bearer headers token) ∨ ∃ r payload, Answered config requester headers r ∧
    Contract limits r payload ∧ payload.get "active" = some (.bool false)

/-- The gate does what it should: it admits the principal of the token, sends a 401 for a bad
credential, and a 503 in every other case. -/
structure Decides (outcome : Outcome) : Prop where
  admitted : ∀ p, outcome = .admitted p ↔ Admits config limits time requester headers p
  refused : (∃ r, outcome = .responded r ∧ r.status = 401) ↔
    Refuses config limits requester headers
  unavailable : (∃ r, outcome = .responded r ∧ r.status = 503) ↔
    (∀ p, ¬ Admits config limits time requester headers p) ∧
      ¬ Refuses config limits requester headers

/-- The token is well formed, and its validation runs into an error that nothing handles. -/
def Escapes : Prop :=
  ∃ token, Bearer headers token ∧
    (requester (validationRequest config token) = .baseException ∨
      ∃ r, requester (validationRequest config token) = .response r ∧ Framed r ∧
        loads limits (r.body.map UInt8.toNat) = .error .overrun)

end Gate

/-! ## The credential -/

theorem authorizations_eq (headers : List RawHeader) :
    (headers.filterMap fun h =>
      if (latin1 h.1).map SplitResult.lowerChar = "authorization".toList then some (latin1 h.2)
      else none) = authorizations headers := by
  unfold authorizations
  induction headers with
  | nil => rfl
  | cons h hs ih =>
    rw [List.filterMap_cons, List.filter_cons]
    by_cases hn : (latin1 h.1).map SplitResult.lowerChar = "authorization".toList
    · simp only [hn, if_true, decide_true, List.map_cons, ih]
    · simp only [hn, if_false, decide_false, Bool.false_eq_true, ih]

/-- A scheme holds no space, as its lower case holds none. -/
theorem space_notMem {scheme : List Char}
    (h : scheme.map SplitResult.lowerChar = "bearer".toList) : ' ' ∉ scheme := by
  intro hs
  have : ' ' ∈ scheme.map SplitResult.lowerChar := List.mem_map.2 ⟨' ', hs, by decide⟩
  rw [h] at this
  revert this
  decide

theorem extractBearer_eq_some {headers : List RawHeader} {token : List Char} :
    extractBearer headers = some token ↔ Bearer headers token := by
  unfold extractBearer
  rw [authorizations_eq]
  constructor
  · intro h
    dsimp only at h
    split at h
    · next value hv =>
      split at h
      · cases h
      · next scheme rest hp =>
        split_ifs at h with bad hidden
        · push Not at bad
          cases h
          have before : (Encoding.partition ' ' value).1 = scheme := by rw [hp]
          have split := Encoding.eq_of_partition_some (l := value) (r := token)
            (by rw [hp])
          rw [before] at split
          refine ⟨scheme, by rw [hv, split], bad.1, bad.2.1, bad.2.2, fun c hc => ?_⟩
          have := (not_exists.1 (mt List.any_eq_true.2 hidden)) c
          simp only [Bool.or_eq_true, decide_eq_true_eq, beq_iff_eq, not_and, not_or,
            not_lt] at this
          exact this hc
    · cases h
  · rintro ⟨scheme, ha, hs, ne, whole, visible⟩
    have all : ¬ (token.any fun c => c.toNat < 0x21 || c.toNat == 0x7f) = true := by
      rw [List.any_eq_true]
      rintro ⟨c, hc, bad⟩
      have := visible c hc
      simp only [Bool.or_eq_true, decide_eq_true_eq, beq_iff_eq] at bad
      omega
    rw [ha]
    dsimp only
    rw [Encoding.partition_append token (space_notMem hs)]
    dsimp only
    rw [if_neg (by push Not; exact ⟨hs, ne, whole⟩), if_neg all]

/-! ## The answer -/

/-- Every error of the check says that the service is unavailable. -/
def OnlyUnavailable {α : Type} (check : Except ValidationError α) : Prop :=
  ∀ e, check = .error e → ∃ message, e = .verificationServiceUnavailable message

theorem OnlyUnavailable.ok {α : Type} (a : α) :
    OnlyUnavailable (.ok a : Except ValidationError α) :=
  fun _ h => nomatch h

theorem OnlyUnavailable.unavailable {α : Type} (message : String) :
    OnlyUnavailable (ResourceServer.unavailable message : Except ValidationError α) := by
  rintro e ⟨⟩
  exact ⟨message, rfl⟩

theorem OnlyUnavailable.bind {α β : Type} {check : Except ValidationError α}
    {f : α → Except ValidationError β} (h : OnlyUnavailable check)
      (hf : ∀ a, OnlyUnavailable (f a)) :
    OnlyUnavailable (check >>= f) := by
  cases check with
  | error e =>
    rintro e' ⟨⟩
    exact h e rfl
  | ok a => exact hf a

theorem OnlyUnavailable.map {α β : Type} {check : Except ValidationError α} {f : α → β}
    (h : OnlyUnavailable check) : OnlyUnavailable (check.map f) := by
  cases check with
  | error e =>
    rintro e' ⟨⟩
    exact h e rfl
  | ok a => exact .ok (f a)

theorem onlyUnavailable_if (c : Prop) [Decidable c] (message : String) :
    OnlyUnavailable (unavailableIf c message) := by
  unfold unavailableIf
  split_ifs
  · exact .unavailable message
  · exact .ok ()

theorem unavailableIf_ok {c : Prop} [Decidable c] {message : String} {u : Unit} :
    unavailableIf c message = .ok u ↔ ¬ c := by
  unfold unavailableIf ResourceServer.unavailable
  split <;> simp [*]

section Payload

variable {payload : Payload} {key message : String} {s : Codes}

theorem text_eq_some : payload.text key = some s ↔ payload.get key = some (.str s) := by
  unfold Payload.text
  split
  · next t h => simp [h]
  · next h => exact ⟨fun he => (nomatch he), fun he => (h s he).elim⟩

theorem integer_eq_some {n : ℤ} : payload.integer key = some n ↔
    payload.get key = some (.int n) := by
  unfold Payload.integer
  split
  · next t h => simp [h]
  · next h => exact ⟨fun he => (nomatch he), fun he => (h n he).elim⟩

theorem requireText_ok : payload.requireText key message = .ok s ↔
    s ≠ [] ∧ payload.get key = some (.str s) := by
  rw [← text_eq_some]
  unfold Payload.requireText
  split
  · next c cs h =>
    rw [h]
    constructor
    · rintro ⟨⟩
      exact ⟨List.cons_ne_nil c cs, rfl⟩
    · rintro ⟨-, ⟨⟩⟩
      rfl
  · next h =>
    constructor
    · intro he
      cases he
    · rintro ⟨ne, ht⟩
      obtain ⟨c, cs, rfl⟩ := List.exists_cons_of_ne_nil ne
      exact (h c cs ht).elim

/-- A list of strings, where none is empty. -/
theorem mapM_eq_some {f : Value → Option Codes} (hf : ∀ x t, f x = some t ↔ t ≠ [] ∧ x = .str t) :
    ∀ {xs : List Value} {ts : List Codes}, xs.mapM f = some ts ↔ [] ∉ ts ∧ xs = ts.map .str
  | [], ts => by
      rw [List.mapM_nil]
      cases ts <;> simp
  | x :: xs, ts => by
      rw [List.mapM_cons]
      simp only [Option.bind_eq_bind, Option.bind_eq_some_iff, hf, mapM_eq_some hf, Option.pure_def,
        Option.some.injEq]
      constructor
      · rintro ⟨t, ⟨ne, rfl⟩, ts, ⟨nes, rfl⟩, rfl⟩
        exact ⟨by simp [Ne.symm ne, nes], rfl⟩
      · rintro ⟨ne, h⟩
        cases ts with
        | nil => cases h
        | cons t ts =>
          rw [List.mem_cons, not_or] at ne
          rw [List.map_cons, List.cons.injEq] at h
          exact ⟨t, ⟨Ne.symm ne.1, h.1⟩, ts, ⟨ne.2, h.2⟩, rfl⟩

theorem texts_eq_some {ts : List Codes} : payload.texts key = some ts ↔
    [] ∉ ts ∧ payload.get key = some (.arr (ts.map .str)) := by
  unfold Payload.texts
  split
  · next xs h =>
    rw [mapM_eq_some, h, Option.some.injEq, Value.arr.injEq]
    intro x t
    split
    · simp
    · next u hu =>
      constructor
      · rintro ⟨⟩
        exact ⟨hu, rfl⟩
      · rintro ⟨-, ⟨⟩⟩
        rfl
    · next hx =>
      constructor
      · intro he
        cases he
      · rintro ⟨ne, rfl⟩
        exact (hx t rfl).elim
  · next h => exact ⟨fun he => (nomatch he), fun he => (h _ he.2).elim⟩

end Payload

section Answer

variable {config : ResourceServerValidationConfig} {limits : Limits} {time : ℚ} {payload : Payload}
  {p : Principal} {response : ValidationHTTPResponse}

theorem onlyUnavailable_requireText (key message : String) :
    OnlyUnavailable (payload.requireText key message) := by
  unfold Payload.requireText
  split
  · exact .ok _
  · exact .unavailable message

theorem onlyUnavailable_readPrincipal : OnlyUnavailable (readPrincipal config time payload) := by
  unfold readPrincipal
  refine .bind (onlyUnavailable_if _ _) fun _ => .bind (onlyUnavailable_requireText _ _) fun _ =>
    .bind (onlyUnavailable_requireText _ _) fun _ => ?_
  split
  · exact .unavailable _
  · refine .bind (onlyUnavailable_if _ _) fun _ => ?_
    split
    · exact .bind (onlyUnavailable_if _ _) fun _ => .ok _
    · exact .unavailable _

theorem onlyUnavailable_readPayload : OnlyUnavailable (readPayload config time payload) := by
  unfold readPayload
  refine .bind (onlyUnavailable_if _ _) fun _ => ?_
  split
  · exact .ok none
  · exact .map onlyUnavailable_readPrincipal
  · exact .unavailable _

theorem readPrincipal_ok (active : payload.get "active" = some (.bool true)) :
    readPrincipal config time payload = .ok p ↔ Active config time payload p := by
  unfold readPrincipal
  simp only [bind_eq_ok, unavailableIf_ok, exists_const, not_or, not_not, text_eq_some, ne_eq,
    requireText_ok]
  constructor
  · rintro ⟨⟨issuer, resource⟩, subject, hs, clientId, hc, h⟩
    split at h
    · cases h
    · next scopes ht =>
      obtain ⟨u, nodup, h⟩ := bind_eq_ok.1 h
      split at h
      · next issuedAt expiresAt hi he =>
        obtain ⟨v, fresh, h⟩ := bind_eq_ok.1 h
        cases h
        have listed := texts_eq_some.1 ht
        exact {
          active
          version := rfl
          issuer := ⟨rfl, issuer⟩
          resource := ⟨rfl, resource⟩
          subject := hs
          clientId := hc
          scopes := ⟨listed.1, not_not.1 (unavailableIf_ok.1 nodup), listed.2⟩
          issuedAt := integer_eq_some.1 hi
          expiresAt := ⟨integer_eq_some.1 he, not_le.1 (unavailableIf_ok.1 fresh)⟩ }
      · cases h
  · intro h
    refine ⟨⟨h.issuer.1 ▸ h.issuer.2, h.resource.1 ▸ h.resource.2⟩, p.subject, h.subject,
      p.clientId, h.clientId, ?_⟩
    have listed : payload.texts "scopes" = some p.scopes :=
      texts_eq_some.2 ⟨h.scopes.1, h.scopes.2.2⟩
    have fresh : ¬ p.expiresAt ≤ truncate time := not_le.2 h.expiresAt.2
    simp only [listed, integer_eq_some.2 h.issuedAt, integer_eq_some.2 h.expiresAt.1, unavailableIf,
      if_neg (not_not.2 h.scopes.2.1), if_neg fresh]
    have whole : p = ⟨codes contractVersion, config.issuer.map Char.toNat,
        config.resource.map Char.toNat, p.subject, p.clientId, p.scopes, p.issuedAt,
        p.expiresAt⟩ := by
      rw [← h.issuer.1, ← h.resource.1]
      exact congrArg (Principal.mk · p.issuer p.resource p.subject p.clientId p.scopes p.issuedAt
        p.expiresAt) h.version
    exact congrArg Except.ok whole.symm

/-- No part of a described principal's identity is empty. -/
theorem Active.named (h : Active config time payload p) :
    [] ∉ [p.contractVersion, p.issuer, p.resource, p.subject, p.clientId] := by
  have issuer : config.issuer ≠ [] := fun he => by
    have := config.issuer_ok
    rw [he] at this
    exact absurd this (by decide)
  have resource : config.resource ≠ [] := fun he => by
    have := config.resource_ok
    rw [he] at this
    exact absurd this (by decide)
  intro hm
  simp only [List.mem_cons, List.not_mem_nil, or_false] at hm
  rcases hm with hm | hm | hm | hm | hm
  · rw [h.version] at hm
    exact absurd hm (by decide)
  · rw [h.issuer.1] at hm
    exact issuer (List.map_eq_nil_iff.1 hm.symm)
  · rw [h.resource.1] at hm
    exact resource (List.map_eq_nil_iff.1 hm.symm)
  · exact h.subject.1 hm.symm
  · exact h.clientId.1 hm.symm

/-- The members give a principal just where they describe it. -/
theorem readPayload_some : readPayload config time payload = .ok (some p) ↔
    payload.get "contract_version" = some (.str (codes "1")) ∧ Active config time payload p := by
  unfold readPayload
  simp only [bind_eq_ok, unavailableIf_ok, exists_const, not_not, text_eq_some, ne_eq]
  refine and_congr_right fun _ => ?_
  split
  · next h =>
    exact ⟨fun he => (nomatch he), fun he => by rw [he.active] at h; cases h⟩
  · next h =>
    rw [← readPrincipal_ok h]
    cases readPrincipal config time payload with
    | error e => exact ⟨fun he => (nomatch he), fun he => nomatch he⟩
    | ok q =>
      show Except.ok (some q) = .ok (some p) ↔ Except.ok q = .ok p
      simp
  · next h => exact ⟨fun he => (nomatch he), fun he => (h he.active).elim⟩

theorem readPayload_none : readPayload config time payload = .ok none ↔
    payload.get "contract_version" = some (.str (codes "1")) ∧
      payload.get "active" = some (.bool false) := by
  unfold readPayload
  simp only [bind_eq_ok, unavailableIf_ok, exists_const, not_not, text_eq_some, ne_eq]
  refine and_congr_right fun _ => ?_
  split
  · next h => exact ⟨fun _ => h, fun _ => rfl⟩
  · next h =>
    rw [h]
    cases readPrincipal config time payload with
    | error e => exact ⟨fun he => (nomatch he), fun he => nomatch he⟩
    | ok q => exact ⟨fun he => (nomatch he), fun he => nomatch he⟩
  · next inactive _ => exact ⟨fun he => (nomatch he), fun he => (inactive he).elim⟩

/-- How the checks of an answer end. -/
inductive Verdict (config : ResourceServerValidationConfig) (limits : Limits) (time : ℚ)
    (response : ValidationHTTPResponse) : Except ValidationError (Option Principal) → Prop
  | active {p : Principal} {payload : Payload} (contract : Contract limits response payload)
      (h : Active config time payload p) : Verdict config limits time response (.ok (some p))
  | inactive {payload : Payload} (contract : Contract limits response payload)
      (h : payload.get "active" = some (.bool false)) : Verdict config limits time
        response (.ok none)
  | unavailable {message : String}
      (h : ∀ payload, Contract limits response payload →
        payload.get "active" ≠ some (.bool false) ∧ ∀ p, ¬ Active config time payload p)
      (decided : ¬ (Framed response ∧ loads limits (response.body.map UInt8.toNat) =
        .error .overrun)) :
      Verdict config limits time response (.error (.verificationServiceUnavailable message))
  | overrun (framed : Framed response)
      (h : loads limits (response.body.map UInt8.toNat) = .error .overrun) :
      Verdict config limits time response (.error .other)

theorem validateResponse_verdict :
    Verdict config limits time response (validateResponse config limits time response) := by
  have unframed (message : String) (h : ¬ Framed response) : Verdict config limits time response
      (.error (.verificationServiceUnavailable message)) :=
    .unavailable (fun _ contract => absurd contract.framed h) fun both => h both.1
  unfold validateResponse
  by_cases status : response.statusCode = 200
  swap
  · rw [unavailableIf, if_pos status]
    exact unframed _ fun framed => status framed.status
  by_cases json : response.contentType = "application/json".toList
  swap
  · rw [unavailableIf, unavailableIf, if_neg (not_not.2 status), if_pos json]
    exact unframed _ fun framed => json framed.json
  by_cases noStore : "no-store".toList ∈ response.directives
  swap
  · rw [unavailableIf, unavailableIf, unavailableIf, if_neg (not_not.2 status),
      if_neg (not_not.2 json), if_pos noStore]
    exact unframed _ fun framed => noStore framed.noStore
  rw [unavailableIf, unavailableIf, unavailableIf, if_neg (not_not.2 status),
    if_neg (not_not.2 json), if_neg (not_not.2 noStore)]
  have framed : Framed response := ⟨status, json, noStore⟩
  simp only [bind, Except.bind]
  split
  · next h =>
    exact .unavailable (fun _ contract => by rw [contract.object] at h; cases h)
      fun both => by rw [both.2] at h; cases h
  · next h => exact .overrun framed h
  · next payload h =>
    have same : ∀ payload', Contract limits response payload' → payload' = payload := by
      intro payload' contract
      have := contract.object.symm.trans h
      cases this
      rfl
    cases hr : readPayload config time payload with
    | error e =>
      obtain ⟨message, rfl⟩ := onlyUnavailable_readPayload e hr
      refine .unavailable (fun payload' contract => ?_) fun both => by rw [both.2] at h; cases h
      cases same payload' contract
      refine ⟨fun inactive => ?_, fun p active => ?_⟩
      · rw [readPayload_none.2 ⟨contract.version, inactive⟩] at hr
        cases hr
      · rw [readPayload_some.2 ⟨contract.version, active⟩] at hr
        cases hr
    | ok verdict => cases verdict with
      | none =>
        obtain ⟨version, inactive⟩ := readPayload_none.1 hr
        exact .inactive ⟨framed, h, version⟩ inactive
      | some p =>
        obtain ⟨version, active⟩ := readPayload_some.1 hr
        exact .active ⟨framed, h, version⟩ active
  · next value h other =>
    refine .unavailable (fun payload contract => ?_) fun both => ?_
    · have := contract.object.symm.trans other
      cases this
      exact (h payload rfl).elim
    · rw [both.2] at other
      cases other

end Answer

/-! ## What is sent -/

/-- The parts of a URL are made of its characters. -/
theorem urlsplit_subset {url : List Char} {parsed : SplitResult} (h : urlsplit url = .ok parsed) :
    (∀ c ∈ parsed.netloc, c ∈ url) ∧ ∀ c ∈ parsed.path, c ∈ url := by
  unfold urlsplit at h
  simp only [bind_eq_ok, pure, Except.pure, Except.ok.injEq] at h
  obtain ⟨_, -, rfl⟩ := h
  have cleaned : ∀ c ∈ (splitScheme ((url.dropWhile fun c => c.toNat ≤ 32).filter
      fun c => c != '\t' && c != '\r' && c != '\n')).2, c ∈ url := fun c hc =>
    (List.dropWhile_suffix _).subset (List.mem_filter.1 (splitScheme_subset hc)).1
  refine ⟨fun c hc => ?_, fun c hc => ?_⟩
  · dsimp only at hc
    split at hc
    · exact cleaned c (List.mem_of_mem_drop (List.takeWhile_subset _ hc))
    · exact absurd hc List.not_mem_nil
  · have behind := Encoding.partition_subset.1 c (Encoding.partition_subset.1 c hc)
    split at behind
    · exact cleaned c (List.mem_of_mem_drop ((List.dropWhile_suffix _).subset behind))
    · exact cleaned c behind

/-- The URL in a challenge is there, and is an ASCII text. -/
theorem metadataUrl_ascii (config : ResourceServerValidationConfig) :
    ∃ url, protectedResourceMetadataUrl config.resource = some url ∧ ∀ c ∈ url, c.toNat < 128 := by
  have ok := config.resource_ok
  unfold protectedResourceMetadataUrl
  rw [ok, Bool.not_true, if_neg Bool.false_ne_true]
  unfold validateResource at ok
  cases hu : urlsplit config.resource with
  | error e =>
    rw [hu] at ok
    cases ok
  | ok parsed =>
    rw [hu] at ok
    simp only [Bool.and_eq_true, decide_eq_true_eq, List.all_eq_true] at ok
    obtain ⟨netloc, path⟩ := urlsplit_subset hu
    have ascii := ok.1.1.1.2
    have https : ∀ c ∈ parsed.scheme, c.toNat < 128 := by
      rw [ok.1.1.1.1.1.1.1.1.1]
      exact List.all_iff_forall_prop.1 (by decide)
    have wellKnown : ∀ c ∈ "/.well-known/oauth-protected-resource".toList, c.toNat < 128 :=
      List.all_iff_forall_prop.1 (by decide)
    have separator : ∀ c ∈ "://".toList, c.toNat < 128 := List.all_iff_forall_prop.1 (by decide)
    refine ⟨_, rfl, fun c hc => ?_⟩
    unfold urlunsplit at hc
    rw [if_neg (by simp)] at hc
    simp only [List.mem_append] at hc
    rcases hc with ((hc | hc) | hc) | hc | hc
    · exact https c hc
    · exact separator c hc
    · exact ascii c (netloc c hc)
    · exact wellKnown c hc
    · split_ifs at hc
      · exact absurd hc List.not_mem_nil
      · exact ascii c (path c hc)

theorem respond_unavailable (config : ResourceServerValidationConfig) :
    ∃ r, respond config 503 false = .responded r ∧ r.status = 503 := ⟨_, rfl, rfl⟩

theorem respond_unauthorized (config : ResourceServerValidationConfig) :
    ∃ r, respond config 401 true = .responded r ∧ r.status = 401 := by
  obtain ⟨url, hu, ascii⟩ := metadataUrl_ascii config
  have intro_ : ∀ c ∈ "Bearer resource_metadata=\"".toList, c.toNat < 128 :=
    List.all_iff_forall_prop.1 (by decide)
  have whole : ("Bearer resource_metadata=\"".toList ++ url ++ ['"']).all
      (·.toNat < 128) = true := by
    rw [List.all_eq_true]
    intro c hc
    simp only [List.mem_append, List.mem_singleton] at hc
    rw [decide_eq_true_eq]
    rcases hc with (hc | hc) | rfl
    · exact intro_ c hc
    · exact ascii c hc
    · decide
  unfold respond
  rw [if_pos rfl, hu]
  dsimp only [Option.map_some, Option.bind_some, sendAuthResponse]
  rw [if_pos whole]
  exact ⟨_, rfl, rfl⟩

/-! ## Every request is decided -/

section Gate

variable {config : ResourceServerValidationConfig} {limits : Limits} {time : ℚ}
  {requester : ValidationRequest → RequestOutcome} {headers : List RawHeader}

/-- A request has one token at most. -/
theorem Bearer.unique {token token' : List Char} (h : Bearer headers token)
    (h' : Bearer headers token') : token = token' :=
  Option.some.inj ((extractBearer_eq_some.2 h).symm.trans (extractBearer_eq_some.2 h'))

theorem responded_status {status other : ℕ} {challenge : Bool} {outcome : Outcome}
    (h : ∃ r, respond config status challenge = .responded r ∧ r.status = status)
    (ho : outcome = respond config status challenge) (ne : status ≠ other) :
    ¬ ∃ r, outcome = .responded r ∧ r.status = other := by
  rintro ⟨r', hr', hs'⟩
  obtain ⟨r, hr, hs⟩ := h
  rw [ho, hr] at hr'
  cases hr'
  omega

/-- The decisions for a request that is refused with a 401. -/
theorem decides_refused (h : Refuses config limits requester headers)
    (none_ : ∀ p, ¬ Admits config limits time requester headers p) :
    Decides config limits time requester headers (respond config 401 true) where
  admitted p := by
    obtain ⟨r, hr, -⟩ := respond_unauthorized config
    rw [hr]
    exact ⟨fun he => (nomatch he), fun admits => (none_ p admits).elim⟩
  refused := ⟨fun _ => h, fun _ => respond_unauthorized config⟩
  unavailable := ⟨fun he => (responded_status (respond_unauthorized config) rfl
    (by decide) he).elim, fun ⟨_, refuses⟩ => (refuses h).elim⟩

/-- The decisions for a request that is refused with a 503. -/
theorem decides_unavailable (h : ¬ Refuses config limits requester headers)
    (none_ : ∀ p, ¬ Admits config limits time requester headers p) :
    Decides config limits time requester headers (respond config 503 false) where
  admitted p := ⟨fun he => (nomatch he), fun admits => (none_ p admits).elim⟩
  refused := ⟨fun he => (responded_status (respond_unavailable config) rfl (by decide) he).elim,
    fun refuses => (h refuses).elim⟩
  unavailable := ⟨fun _ => ⟨none_, h⟩, fun _ => respond_unavailable config⟩

/-- No decision is taken where an exception goes out. -/
theorem not_decides_raised : ¬ Decides config limits time requester headers .raised := by
  intro decides
  have admits : ∀ p, ¬ Admits config limits time requester headers p := by
    intro p hp
    cases (decides.admitted p).2 hp
  have refuses : ¬ Refuses config limits requester headers := by
    intro h
    obtain ⟨r, hr, -⟩ := decides.refused.2 h
    cases hr
  obtain ⟨r, hr, -⟩ := decides.unavailable.2 ⟨admits, refuses⟩
  cases hr

section Token

variable {token : List Char} {response : ValidationHTTPResponse}

/-- Without an answer there is no verdict. -/
theorem undecided_of_unanswered (bearer : Bearer headers token)
    (h : ∀ r, requester (validationRequest config token) ≠ .response r) :
    ¬ Refuses config limits requester headers ∧
      ∀ p, ¬ Admits config limits time requester headers p := by
  have unanswered : ∀ r, ¬ Answered config requester headers r := by
    rintro r ⟨token', bearer', hr⟩
    rw [bearer'.unique bearer] at hr
    exact h r hr
  constructor
  · rintro (absent | ⟨r, payload, answered, -⟩)
    · exact absent token bearer
    · exact unanswered r answered
  · rintro p ⟨r, payload, answered, -⟩
    exact unanswered r answered

theorem answered_iff (bearer : Bearer headers token)
    (h : requester (validationRequest config token) = .response response)
    (r : ValidationHTTPResponse) : Answered config requester headers r ↔ r = response := by
  constructor
  · rintro ⟨token', bearer', hr⟩
    rw [bearer'.unique bearer, h] at hr
    cases hr
    rfl
  · rintro rfl
    exact ⟨token, bearer, h⟩

theorem admits_iff (bearer : Bearer headers token)
    (h : requester (validationRequest config token) = .response response) (p : Principal) :
    Admits config limits time requester headers p ↔
      ∃ payload, Contract limits response payload ∧ Active config time payload p := by
  simp only [Admits, answered_iff bearer h]
  exact ⟨fun ⟨r, payload, hr, rest⟩ => ⟨payload, hr ▸ rest⟩,
    fun ⟨payload, rest⟩ => ⟨response, payload, rfl, rest⟩⟩

theorem refuses_iff (bearer : Bearer headers token)
    (h : requester (validationRequest config token) = .response response) :
    Refuses config limits requester headers ↔
      ∃ payload, Contract limits response payload ∧ payload.get "active" = some (.bool false) := by
  simp only [Refuses, answered_iff bearer h]
  constructor
  · rintro (absent | ⟨r, payload, hr, rest⟩)
    · exact (absent token bearer).elim
    · exact ⟨payload, hr ▸ rest⟩
  · rintro ⟨payload, rest⟩
    exact .inr ⟨response, payload, rfl, rest⟩

theorem escapes_iff (bearer : Bearer headers token) : Escapes config limits requester headers ↔
    requester (validationRequest config token) = .baseException ∨
      ∃ r, requester (validationRequest config token) = .response r ∧ Framed r ∧
        loads limits (r.body.map UInt8.toNat) = .error .overrun := by
  constructor
  · rintro ⟨token', bearer', h⟩
    rw [bearer'.unique bearer] at h
    exact h
  · exact fun h => ⟨token, bearer, h⟩

theorem Contract.unique {payload payload' : Payload} (h : Contract limits response payload)
    (h' : Contract limits response payload') : payload = payload' := by
  have := h.object.symm.trans h'.object
  cases this
  rfl

/-- One answer describes one principal. -/
theorem Active.unique {payload : Payload} {p q : Principal} (hp : Active config time payload p)
    (hq : Active config time payload q) : p = q :=
  Except.ok.inj (((readPrincipal_ok hp.active).2 hp).symm.trans ((readPrincipal_ok hq.active).2 hq))

/-- The verdict on an answer is the decision on the request. -/
theorem decides_of_verdict (bearer : Bearer headers token)
    (h : requester (validationRequest config token) = .response response)
    {verdict : Except ValidationError (Option Principal)}
    (hv : Verdict config limits time response verdict) :
    Decides config limits time requester headers (conclude config verdict) ↔
      ¬ Escapes config limits requester headers := by
  have escapes : Escapes config limits requester headers ↔
      Framed response ∧ loads limits (response.body.map UInt8.toNat) = .error .overrun := by
    rw [escapes_iff bearer, h]
    simp
  have fine (payload : Payload) (contract : Contract limits response payload) :
      ¬ Escapes config limits requester headers := by
    rw [escapes]
    rintro ⟨-, overrun⟩
    rw [contract.object] at overrun
    cases overrun
  cases hv with
  | @active p payload contract active =>
    refine ⟨fun _ => fine payload contract, fun _ => ?_⟩
    have admits : Admits config limits time requester headers p :=
      (admits_iff bearer h p).2 ⟨payload, contract, active⟩
    have refuses : ¬ Refuses config limits requester headers := by
      rw [refuses_iff bearer h]
      rintro ⟨payload', contract', inactive⟩
      rw [contract'.unique contract, active.active] at inactive
      cases inactive
    refine ⟨fun q => ?_, ?_, ?_⟩
    · constructor
      · rintro ⟨⟩
        exact admits
      · intro hq
        obtain ⟨payload', contract', active'⟩ := (admits_iff bearer h q).1 hq
        rw [contract'.unique contract] at active'
        exact congrArg Outcome.admitted (active.unique active')
    · exact ⟨fun ⟨_, he, _⟩ => (nomatch he), fun hr => (refuses hr).elim⟩
    · exact ⟨fun ⟨_, he, _⟩ => (nomatch he), fun ⟨hp, _⟩ => (hp p admits).elim⟩
  | @inactive payload contract inactive =>
    refine ⟨fun _ => fine payload contract, fun _ => decides_refused ?_ fun p hp => ?_⟩
    · exact (refuses_iff bearer h).2 ⟨payload, contract, inactive⟩
    · obtain ⟨payload', contract', active'⟩ := (admits_iff bearer h p).1 hp
      rw [← contract.unique contract'] at active'
      rw [active'.active] at inactive
      cases inactive
  | unavailable nothing decided =>
    refine ⟨fun _ => mt escapes.1 decided, fun _ => decides_unavailable ?_ fun p hp => ?_⟩
    · rw [refuses_iff bearer h]
      rintro ⟨payload, contract, inactive⟩
      exact (nothing payload contract).1 inactive
    · obtain ⟨payload, contract, active⟩ := (admits_iff bearer h p).1 hp
      exact (nothing payload contract).2 p active
  | overrun framed overrun =>
    exact ⟨fun decides => (not_decides_raised decides).elim,
      fun fine => (fine (escapes.2 ⟨framed, overrun⟩)).elim⟩

end Token

/-- Every request is decided, and rightly, but for one whose validation runs into an error that
nothing handles. -/
theorem authenticate_decides (config : ResourceServerValidationConfig) (limits : Limits) (time : ℚ)
    (requester : ValidationRequest → RequestOutcome) (headers : List RawHeader) :
    Decides config limits time requester headers
        (authenticate config limits time requester headers) ↔
      ¬ Escapes config limits requester headers := by
  unfold authenticate
  cases hb : extractBearer headers with
  | none =>
    have absent : ∀ token, ¬ Bearer headers token := by
      intro token bearer
      rw [extractBearer_eq_some.2 bearer] at hb
      cases hb
    refine ⟨fun _ ⟨token, bearer, _⟩ => absent token bearer, fun _ => ?_⟩
    exact decides_refused (.inl absent)
      fun p ⟨r, payload, ⟨token, bearer, _⟩, _⟩ => absent token bearer
  | some token =>
    have bearer := extractBearer_eq_some.1 hb
    obtain ⟨scheme, -, -, ne, -⟩ := id bearer
    dsimp only
    unfold validate
    rw [if_neg ne]
    by_cases answered : ∃ r, requester (validationRequest config token) = .response r
    · obtain ⟨r, hr⟩ := answered
      rw [hr]
      exact decides_of_verdict bearer hr validateResponse_verdict
    have nothing : ¬ Refuses config limits requester headers ∧
        ∀ p, ¬ Admits config limits time requester headers p :=
      undecided_of_unanswered bearer (not_exists.1 answered)
    rw [escapes_iff bearer]
    cases hr : requester (validationRequest config token) with
    | response r => exact (answered ⟨r, hr⟩).elim
    | unavailable =>
      exact ⟨fun _ => by simp, fun _ => decides_unavailable nothing.1 nothing.2⟩
    | exception =>
      exact ⟨fun _ => by simp, fun _ => decides_unavailable nothing.1 nothing.2⟩
    | baseException =>
      exact ⟨fun decides => (not_decides_raised decides).elim,
        fun fine => (fine (.inl rfl)).elim⟩

/-- What escapes is no `Exception`, or the answer holds many digits in a row or many brackets. -/
theorem excess_of_escapes (h : Escapes config limits requester headers) :
    ∃ token, Bearer headers token ∧
      (requester (validationRequest config token) = .baseException ∨
        ∃ r text, requester (validationRequest config token) = .response r ∧
          decode (r.body.map UInt8.toNat) = some text ∧
            (LongRun limits.digits text ∨ limits.depth < text.countP isOpen)) := by
  obtain ⟨token, bearer, h⟩ := h
  refine ⟨token, bearer, h.imp_right ?_⟩
  rintro ⟨r, hr, -, overrun⟩
  obtain ⟨text, ht, excess⟩ := excess_of_overrun overrun
  exact ⟨r, text, hr, ht, excess⟩

end Gate

/-! ## An integer of too many digits -/

/-- The digits of an integer that is all ones. -/
def ones (n : ℕ) : List UInt8 := List.replicate n 49

theorem utf8_ones : ∀ n, utf8 none (List.replicate n 49) = some (List.replicate n 49)
  | 0 => rfl
  | n + 1 => by
      rw [List.replicate_succ]
      unfold utf8
      rw [if_pos (by decide), utf8_ones n]
      rfl

theorem loads_ones {limits : Limits} {n : ℕ} (h : limits.digits < n + 4) :
    loads limits ((ones (n + 4)).map UInt8.toNat) = .error .overrun := by
  have digits : (ones (n + 4)).map UInt8.toNat = List.replicate (n + 4) 49 := List.map_replicate
  have text : decode (List.replicate (n + 4) 49) = some (List.replicate (n + 4) 49) :=
    utf8_ones (n + 4)
  have all : ∀ c ∈ List.replicate (n + 4) 49, isDigit c = true := fun c hc =>
    (List.eq_of_mem_replicate hc) ▸ rfl
  have whole : whole (List.replicate (n + 4) 49) = (List.replicate (n + 4) 49, []) := by
    unfold JsonText.whole
    rw [if_neg (by simp [List.replicate_succ]), List.takeWhile_eq_self_iff.2 all,
      List.dropWhile_eq_nil_iff.2 all]
  have number : scanNumber limits.digits (List.replicate (n + 4) 49) = .error .overrun := by
    unfold scanNumber
    rw [show unsigned (List.replicate (n + 4) 49) = List.replicate (n + 4) 49 from rfl, whole]
    dsimp only
    rw [if_neg (by simp [List.replicate_succ]), show floatEnd [] = none from rfl]
    dsimp only
    rw [List.length_replicate, if_pos h]
  have atom : scanAtom limits.digits (List.replicate (n + 4) 49) = .error .overrun := by
    rw [← number]
    rfl
  unfold loads
  rw [digits, text]
  show (scanOnce limits.digits limits.depth (List.replicate (n + 4) 49) >>= _) = _
  have value : scanOnce limits.digits limits.depth (List.replicate (n + 4) 49) =
      .error .overrun := by
    cases limits.depth with
    | zero => exact atom
    | succ depth => exact atom
  rw [value]
  rfl

def sampleConfig : ResourceServerValidationConfig where
  issuer := "https://auth.example".toList
  resource := "https://mcp.example/mcp".toList
  validationResourceId := "rs".toList
  validationSecret := "secret".toList
  issuer_ok := by decide +kernel
  resource_ok := by decide +kernel
  id_ok := ⟨by decide, by decide, List.all_iff_forall_prop.1 (by decide)⟩
  secret_ok := ⟨by decide, List.all_iff_forall_prop.1 (by decide)⟩

/-- The bytes of an ASCII text. -/
def bytesOf (text : String) : List UInt8 := text.toList.map fun c => UInt8.ofNat c.toNat

def sampleHeaders : List RawHeader := [(bytesOf "Authorization", bytesOf "Bearer t")]

/-- An answer of the contract but for its body, which is one long integer. -/
def longAnswer : ValidationHTTPResponse where
  statusCode := 200
  headers := [("content-type", "application/json".toList), ("cache-control", "no-store".toList)]
  body := ones 4301

/-- No decision is taken where the answer is an integer of 4301 digits. -/
theorem long_answer_escapes :
    authenticate sampleConfig ⟨4300, 10000⟩ 0
      (fun _ => .response longAnswer) sampleHeaders = .raised ∧
      ¬ Decides sampleConfig ⟨4300, 10000⟩ 0 (fun _ => .response longAnswer) sampleHeaders
        (authenticate sampleConfig ⟨4300, 10000⟩ 0
          (fun _ => .response longAnswer) sampleHeaders) := by
  have extracted : extractBearer sampleHeaders = some ['t'] := by decide +kernel
  have framed : Framed longAnswer := ⟨rfl, by decide +kernel, by decide +kernel⟩
  have overrun : loads ⟨4300, 10000⟩ (longAnswer.body.map UInt8.toNat) = .error .overrun :=
    loads_ones (n := 4297) (by decide)
  have checked : validateResponse sampleConfig ⟨4300, 10000⟩ 0 longAnswer = .error .other := by
    unfold validateResponse
    rw [unavailableIf, unavailableIf, unavailableIf, if_neg (not_not.2 framed.status),
      if_neg (not_not.2 framed.json), if_neg (not_not.2 framed.noStore), overrun]
    rfl
  have raised : authenticate sampleConfig ⟨4300, 10000⟩ 0 (fun _ => .response longAnswer)
      sampleHeaders = .raised := by
    unfold authenticate
    rw [extracted]
    show conclude sampleConfig (validateResponse sampleConfig ⟨4300, 10000⟩ 0 longAnswer) = _
    rw [checked]
    rfl
  exact ⟨raised, raised ▸ not_decides_raised⟩

end ResourceServer

end CodemcpBridge

import CodemcpBridge.Properties.Replay
import CodemcpBridge.ReplayKeys

/-!
# Replay and identity

A replayed payload is the payload of a row whose recorded identity is the caller's.  The identity is
read back from what the store keeps of a context, and neither it nor the text of a replay key
confuses two callers.
-/

namespace CodemcpBridge

variable {settings : PolicySettings} {d : Discretion} {t : ℕ} {w w' : World}
  {principal : Option AuthContext} {r : StartRequest} {res : Except Exn OperationStart}
  {sha256 : String → String} {c c' : AuthContext}

/-! ## What the store keeps of a context -/

theorem Dict.get?_cons (x : String × Json) (d : Dict) (key : String) :
    Dict.get? (x :: d) key = if x.1 = key then some x.2 else Dict.get? d key := by
  by_cases h : x.1 = key <;> simp [Dict.get?, h]

theorem Dict.get?_insertKey {x : String × Json} (key : String) : ∀ {d : Dict},
    x.1 ∉ d.map Prod.fst → Dict.get? (Json.insertKey x d) key = Dict.get? (x :: d) key
  | [], _ => rfl
  | y :: ys, h => by
      rw [List.map_cons, List.mem_cons, not_or] at h
      unfold Json.insertKey
      split_ifs with hle
      · rfl
      · rw [Dict.get?_cons, Dict.get?_insertKey key h.2]
        simp only [Dict.get?_cons]
        split_ifs with hy hx
        · exact absurd (hx.trans hy.symm) h.1
        all_goals rfl

theorem Json.mem_sortKeys {k : String} : ∀ {d : Dict},
    k ∈ (Json.sortKeys d).map Prod.fst ↔ k ∈ d.map Prod.fst
  | [] => Iff.rfl
  | x :: xs => by
      have insert : ∀ d : Dict, k ∈ (Json.insertKey x d).map Prod.fst ↔
          k = x.1 ∨ k ∈ d.map Prod.fst := by
        intro d
        induction d with
        | nil => simp [Json.insertKey]
        | cons y ys ih =>
          unfold Json.insertKey
          split_ifs with hle
          · simp
          · simp only [List.map_cons, List.mem_cons, ih]
            tauto
      rw [Json.sortKeys, insert, Json.mem_sortKeys, List.map_cons, List.mem_cons]

/-- The order in which the keys are written changes no lookup. -/
theorem Dict.get?_sortKeys (key : String) : ∀ {d : Dict}, (d.map Prod.fst).Nodup →
    Dict.get? (Json.sortKeys d) key = Dict.get? d key
  | [], _ => rfl
  | x :: xs, h => by
      rw [List.map_cons, List.nodup_cons] at h
      rw [Json.sortKeys, Dict.get?_insertKey key (fun hmem => h.1 (Json.mem_sortKeys.1 hmem)),
        Dict.get?_cons, Dict.get?_cons, Dict.get?_sortKeys key h.2]

theorem identityStrings_congr {d d' : Dict} (h : ∀ key, Dict.get? d key = Dict.get? d' key) :
    ∀ keys, identityStrings d keys = identityStrings d' keys
  | [] => rfl
  | key :: keys => by simp only [identityStrings, h, identityStrings_congr h keys]

/-- The identity depends on what is found under the keys only. -/
theorem authContextIdentity_congr {d d' : Dict} (h : ∀ key, Dict.get? d key = Dict.get? d' key) :
    authContextIdentity d = authContextIdentity d' := by
  simp only [authContextIdentity, h, identityStrings_congr h]

/-- The details as `json_dumps` writes them and `json.loads` reads them: with sorted keys. -/
def persisted (details : Dict) : Dict := Json.sortKeys (Json.canonicalFields details)

theorem canonicalFields_authAuditDetails (c : AuthContext) :
    Json.canonicalFields (authAuditDetails c) = authAuditDetails c := by
  have strings : ∀ xs : List String, Json.canonicalList (xs.map .str) = xs.map .str := fun xs => by
    induction xs with
    | nil => rfl
    | cons x xs ih => simp [Json.canonicalList, Json.canonical, ih]
  cases c with
  | networkTrusted r => cases r <;> simp [authAuditDetails, Json.canonicalFields, Json.canonical]
  | oauth p =>
    simp [authAuditDetails, Json.canonicalFields, Json.canonical, Json.ofStrings, strings,
      oauthReplayNamespace]

/-- A context is known again by what the store has kept of it. -/
theorem authContextIdentity_persisted (c : AuthContext) :
    authContextIdentity (persisted (authAuditDetails c)) = some c.identity := by
  have hnodup : ((authAuditDetails c).map Prod.fst).Nodup := by
    cases c with
    | networkTrusted r => cases r <;> simp [authAuditDetails]
    | oauth p => simp [authAuditDetails]
  unfold persisted
  rw [canonicalFields_authAuditDetails,
    authContextIdentity_congr fun key => Dict.get?_sortKeys key hnodup,
    authContextIdentity_authAuditDetails]

/-! ## Same callers -/

/-- Both are network-trusted, or both are OAuth principals with the same five identity values. -/
def SameCaller : AuthContext → AuthContext → Prop
  | .networkTrusted _, .networkTrusted _ => True
  | .oauth p, .oauth q => p.contractVersion = q.contractVersion ∧ p.issuer = q.issuer ∧
      p.resource = q.resource ∧ p.subject = q.subject ∧ p.clientId = q.clientId
  | _, _ => False

theorem replayNamespace_eq_iff : c.replayNamespace = c'.replayNamespace ↔ SameCaller c c' := by
  cases c with
  | networkTrusted r => cases c' with
    | networkTrusted r' => exact iff_of_true rfl trivial
    | oauth q => exact iff_of_false (by simp [AuthContext.replayNamespace, oauthReplayNamespace]) id
  | oauth p => cases c' with
    | networkTrusted r' =>
      exact iff_of_false (by simp [AuthContext.replayNamespace, oauthReplayNamespace]) id
    | oauth q =>
      simp [AuthContext.replayNamespace, oauthReplayNamespace, Json.ofStrings, SameCaller,
        AuthenticatedPrincipal.identityValues]

/-! ## What is replayed -/

/-- A replayed payload is that of a row whose recorded identity is the caller's. -/
theorem StartRun.replay_identity (h : StartRun settings d t principal r w res w')
    {start : OperationStart} {payload : Payload} (hres : res = .ok start)
    (hreplay : start.replay = some payload) :
    start.record ∈ w.db.operations ∧ replayOf start.record = .ok payload ∧
      (w.db.operationAuthContext? start.record.operationId).bind authContextIdentity =
        principal.map AuthContext.identity := by
  obtain ⟨-, -, row, hrow, hanswer⟩ := h.replay hres hreplay
  rw [hres] at hanswer
  unfold rowAnswer at hanswer
  split at hanswer
  · rename_i start' hstart
    cases hanswer
    unfold existingStart at hstart
    split_ifs at hstart with hid hhash
    have hid' : (w.db.operationAuthContext? row.operationId).bind authContextIdentity =
        principal.map AuthContext.identity := by
      rw [not_not.1 hid]
      cases principal <;> simp [authContextIdentity_authAuditDetails]
    cases hpayload : replayOf row with
    | error e =>
      rw [hpayload] at hstart
      cases hstart
    | ok payload' =>
      rw [hpayload] at hstart
      cases hstart
      cases hreplay
      exact ⟨mem_of_existingRow hrow, hpayload, hid'⟩
  · cases hanswer

/-! ## Keys in the store -/

/-- The text under which a caller's request is stored. -/
def keyText (sha256 : String → String) (principal : Option AuthContext)
    (clientRequestId : String) : Except Exn String :=
  encodeReplayKeyText (principal.map (AuthContext.namespaceText sha256)) clientRequestId

/-- Keys of different callers never coincide. -/
theorem keyText_inj (hsha : IsDigest sha256) {principal principal' : Option AuthContext}
    {clientRequestId clientRequestId' key : String} (hid : Text.isIdentifier clientRequestId = true)
    (hid' : Text.isIdentifier clientRequestId' = true)
    (h : keyText sha256 principal clientRequestId = .ok key)
    (h' : keyText sha256 principal' clientRequestId' = .ok key) :
    clientRequestId = clientRequestId' ∧ Option.Rel SameCaller principal principal' := by
  obtain ⟨hns, hids⟩ := encodeReplayKeyText_inj (sep_notMem_of_isIdentifier hid)
    (sep_notMem_of_isIdentifier hid') h h'
  refine ⟨hids, ?_⟩
  cases principal with
  | none => cases principal' with
    | none => exact .none
    | some c' => cases hns
  | some c => cases principal' with
    | none => cases hns
    | some c' =>
      have := (namespaceText_eq_iff hsha).1 (Option.some.inj hns)
      exact .some (replayNamespace_eq_iff.1 this)

/-- The symbolic key and the text tell the same requests apart. -/
theorem encodeReplayKey_eq_iff (hsha : IsDigest sha256) {principal principal' : Option AuthContext}
    {clientRequestId clientRequestId' : String} (hid : Text.isIdentifier clientRequestId = true)
    (hid' : Text.isIdentifier clientRequestId' = true) :
    encodeReplayKey (principal.map AuthContext.replayNamespace) clientRequestId =
        encodeReplayKey (principal'.map AuthContext.replayNamespace) clientRequestId' ↔
      keyText sha256 principal clientRequestId = keyText sha256 principal' clientRequestId' := by
  constructor
  · intro h
    obtain ⟨hns, rfl⟩ := ReplayKey.mk.inj h
    have : principal.map (AuthContext.namespaceText sha256) =
        principal'.map (AuthContext.namespaceText sha256) := by
      cases principal <;> cases principal' <;> simp_all [namespaceText_eq_iff hsha]
    rw [keyText, keyText, this]
  · intro h
    obtain ⟨key, hkey⟩ :=
      encodeReplayKeyText_context hsha principal (sep_notMem_of_isIdentifier hid)
    obtain ⟨rfl, hrel⟩ := keyText_inj hsha hid hid' hkey (h.symm.trans hkey)
    cases hrel with
    | none => rfl
    | some hc => simp [replayNamespace_eq_iff.2 hc]

/-- The row's key is stored as this text. -/
def StoredAs (sha256 : String → String) (o : OperationRecord) (text : String) : Prop :=
  ∃ principal clientRequestId, Text.isIdentifier clientRequestId = true ∧
    o.replayKey = encodeReplayKey (principal.map AuthContext.replayNamespace) clientRequestId ∧
      keyText sha256 principal clientRequestId = .ok text

theorem StoredAs.decode {o : OperationRecord} {text : String} (h : StoredAs sha256 o text) :
    decodeReplayKeyText text = o.clientRequestId := by
  obtain ⟨principal, clientRequestId, hid, hkey, htext⟩ := h
  rw [decodeReplayKeyText_encode (sep_notMem_of_isIdentifier hid) htext,
    OperationRecord.clientRequestId, hkey]
  rfl

/-- The lookup of old keys is the query on their texts. -/
theorem mem_operationsByClientRequestId {db : Database} {projectId : String}
    {sessionId : Option String} {clientRequestId text : String} {o : OperationRecord}
    (ho : o ∈ db.operations) (h : StoredAs sha256 o text) :
    o ∈ db.operationsByClientRequestId projectId sessionId clientRequestId ↔
      o.projectId = projectId ∧ o.sessionId = sessionId ∧
        isLegacyKey clientRequestId text = true := by
  simp [Database.operationsByClientRequestId, isLegacyKey_iff, h.decode, ho, and_assoc]

/-- The query finds the raw request id and every namespaced variant of it. -/
theorem StoredAs.isLegacyKey_iff {o : OperationRecord} {text clientRequestId : String}
    (h : StoredAs sha256 o text) (hraw : Text.isIdentifier clientRequestId = true) :
    isLegacyKey clientRequestId text = true ↔
      ∃ namespace_, encodeReplayKeyText namespace_ clientRequestId = .ok text := by
  rw [CodemcpBridge.isLegacyKey_iff]
  constructor
  · intro hdecode
    have hid := h.decode.symm.trans hdecode
    obtain ⟨principal, clientRequestId', -, hkey, htext⟩ := h
    refine ⟨principal.map (AuthContext.namespaceText sha256), ?_⟩
    rwa [← hid, OperationRecord.clientRequestId, hkey]
  · rintro ⟨namespace_, henc⟩
    exact decodeReplayKeyText_encode (sep_notMem_of_isIdentifier hraw) henc

/-! ## The isolation of callers -/

/-- How replay keeps callers apart. -/
structure ReplayIsolation (settings : PolicySettings) (d : Discretion) (sha256 : String → String) :
    Prop where
  /-- What `start` replays, on any store, is the payload of a row whose recorded identity is the
  caller's. -/
  replay : ∀ t principal r w res w', StartRun settings d t principal r w res w' →
    ∀ start payload, res = .ok start → start.replay = some payload →
      start.record ∈ w.db.operations ∧ replayOf start.record = .ok payload ∧
        (w.db.operationAuthContext? start.record.operationId).bind authContextIdentity =
          principal.map AuthContext.identity
  /-- A context is known again by what the store has kept of it. -/
  readBack : ∀ c, authContextIdentity (persisted (authAuditDetails c)) = some c.identity
  same : ∀ c c', c.identity = c'.identity ∧ c.namespaceText sha256 = c'.namespaceText sha256 ↔
    SameCaller c c'
  decode : ∀ namespace_ clientRequestId key, Text.isIdentifier clientRequestId = true →
    encodeReplayKeyText namespace_ clientRequestId = .ok key →
      decodeReplayKeyText key = clientRequestId
  distinct : ∀ principal principal' clientRequestId clientRequestId' key,
    Text.isIdentifier clientRequestId = true → Text.isIdentifier clientRequestId' = true →
      keyText sha256 principal clientRequestId = .ok key →
      keyText sha256 principal' clientRequestId' = .ok key →
        clientRequestId = clientRequestId' ∧ Option.Rel SameCaller principal principal'
  /-- Where `start` compares keys, it compares their texts. -/
  keys : ∀ principal principal' clientRequestId clientRequestId',
    Text.isIdentifier clientRequestId = true → Text.isIdentifier clientRequestId' = true →
      (encodeReplayKey (principal.map AuthContext.replayNamespace) clientRequestId =
          encodeReplayKey (principal'.map AuthContext.replayNamespace) clientRequestId' ↔
        keyText sha256 principal clientRequestId = keyText sha256 principal' clientRequestId')
  /-- The lookup of old keys finds exactly the rows whose stored key its query keeps, which is the
  raw request id or a namespaced variant of it. -/
  legacy : ∀ (db : Database) projectId sessionId clientRequestId,
    Text.isIdentifier clientRequestId = true → ∀ o ∈ db.operations, ∀ text,
      StoredAs sha256 o text →
        (o ∈ db.operationsByClientRequestId projectId sessionId clientRequestId ↔
          o.projectId = projectId ∧ o.sessionId = sessionId ∧
            isLegacyKey clientRequestId text = true) ∧
        (isLegacyKey clientRequestId text = true ↔
          ∃ namespace_, encodeReplayKeyText namespace_ clientRequestId = .ok text)

theorem replay_isolated (settings : PolicySettings) (d : Discretion) (hsha : IsDigest sha256) :
    ReplayIsolation settings d sha256 where
  replay _ _ _ _ _ _ h _ _ hres hreplay := h.replay_identity hres hreplay
  readBack := authContextIdentity_persisted
  same c c' := by
    constructor
    · rintro ⟨-, h⟩
      exact replayNamespace_eq_iff.1 ((namespaceText_eq_iff hsha).1 h)
    · intro h
      have hns := replayNamespace_eq_iff.2 h
      exact ⟨identity_eq_of_replayNamespace hns, (namespaceText_eq_iff hsha).2 hns⟩
  decode _ _ _ hid h := decodeReplayKeyText_encode (sep_notMem_of_isIdentifier hid) h
  distinct _ _ _ _ _ hid hid' h h' := keyText_inj hsha hid hid' h h'
  keys _ _ _ _ hid hid' := encodeReplayKey_eq_iff hsha hid hid'
  legacy _ _ _ _ hraw _ ho _ h :=
    ⟨mem_operationsByClientRequestId ho h, h.isLegacyKey_iff hraw⟩

/-- A code in which no text begins another one: as many zeros as the character's number, and a one.
-/
def unary (c : Char) : List Char := List.replicate c.toNat '0' ++ ['1']

theorem unary_cancel {c c' : Char} {x y : List Char} (h : unary c ++ x = unary c' ++ y) :
    c = c' ∧ x = y := by
  have zeros : ∀ {n m : ℕ}, List.replicate n '0' ++ '1' :: x = List.replicate m '0' ++ '1' :: y →
      n = m ∧ x = y := by
    intro n
    induction n with
    | zero =>
      intro m h
      cases m with
      | zero => exact ⟨rfl, (List.cons.inj h).2⟩
      | succ m => exact absurd (List.cons.inj h).1 (by decide)
    | succ n ih =>
      intro m h
      cases m with
      | zero => exact absurd (List.cons.inj h).1 (by decide)
      | succ m =>
        obtain ⟨hn, hx⟩ := ih (List.cons.inj h).2
        exact ⟨congrArg (· + 1) hn, hx⟩
  simp only [unary, List.append_assoc, List.singleton_append] at h
  obtain ⟨hn, hx⟩ := zeros h
  exact ⟨Char.toNat_inj.1 hn, hx⟩

theorem unary_injective : ∀ {a b : List Char}, a.flatMap unary = b.flatMap unary → a = b
  | [], [], _ => rfl
  | [], d :: ds, h => by simp [unary] at h
  | c :: cs, [], h => by simp [unary] at h
  | c :: cs, d :: ds, h => by
      rw [List.flatMap_cons, List.flatMap_cons] at h
      obtain ⟨rfl, hrest⟩ := unary_cancel h
      rw [unary_injective hrest]

def samplePrincipal : AuthenticatedPrincipal where
  contractVersion := "1"
  issuer := "https://issuer.example"
  resource := "https://bridge.example/mcp"
  subject := "user-1"
  clientId := "client-1"
  scopes := []
  issuedAt := 0
  expiresAt := 0
  named := by decide

def sampleDigest : String := "e404d789d53787b8ae48b37be6f4064bd83f1f11d19b44c8a6a5151f665663ee"

/-- The digest of the sample principal as it is, and a code that tells all other texts apart. -/
def sampleSha256 (s : String) : String :=
  if s = String.ofList (Encoding.dumps (samplePrincipal.identityValues.map String.toList)) then
    sampleDigest
  else String.ofList (s.toList.flatMap unary)

theorem isDigest_sampleSha256 : IsDigest sampleSha256 := by
  have code : ∀ s : String, ∀ c ∈ s.toList.flatMap unary, c = '0' ∨ c = '1' := fun s c hc => by
    obtain ⟨d, -, hc⟩ := List.mem_flatMap.1 hc
    rcases List.mem_append.1 hc with hc | hc
    · exact .inl (List.eq_of_mem_replicate hc)
    · exact .inr (List.mem_singleton.1 hc)
  have other : ∀ s : String, sampleDigest ≠ String.ofList (s.toList.flatMap unary) := fun s h => by
    have hmem : 'e' ∈ s.toList.flatMap unary := by
      rw [← String.toList_ofList (l := s.toList.flatMap unary), ← h]
      decide
    rcases code s 'e' hmem with h | h <;> exact absurd h (by decide)
  refine ⟨fun a b h => ?_, fun s c hc => ?_⟩
  · unfold sampleSha256 at h
    split_ifs at h with ha hb hb
    · exact ha.trans hb.symm
    · exact absurd h (other b)
    · exact absurd h.symm (other a)
    · exact String.toList_injective (unary_injective (String.ofList_injective h))
  · unfold sampleSha256 at hc
    split_ifs at hc
    · have hall : sampleDigest.toList.all Text.isHexDigit = true := by decide +kernel
      exact List.all_eq_true.1 hall c hc
    · rw [String.toList_ofList] at hc
      rcases code s c hc with rfl | rfl <;> decide

/-- Callers are kept apart where the sample principal has its real digest. -/
theorem replay_isolated_sample : ReplayIsolation {} {} sampleSha256 ∧
    (AuthContext.oauth samplePrincipal).namespaceText sampleSha256 = "oauth-" ++ sampleDigest :=
  ⟨replay_isolated {} {} isDigest_sampleSha256, by
    simp [AuthContext.namespaceText, oauthNamespaceText, sampleSha256]⟩

/-! ## What the lookup of old keys finds besides -/

/-- In no run does the lookup find a row that is stored under anything but the raw request id. -/
def LegacyExact (settings : PolicySettings) (d : Discretion) (sha256 : String → String) : Prop :=
  ∀ p, Reached settings d p → ∀ projectId sessionId clientRequestId,
    Text.isIdentifier clientRequestId = true →
      ∀ o ∈ p.world.db.operationsByClientRequestId projectId sessionId clientRequestId, ∀ text,
        StoredAs sha256 o text → text = clientRequestId

/-- It finds the operation of the network-trusted client, whose key has a namespace. -/
theorem legacy_lookup_finds_variant : ¬ ∃ sha256, LegacyExact {} {} sha256 := by
  rintro ⟨sha256, hexact⟩
  obtain ⟨p, hp, h⟩ := @reached_of_played {} {} [arrives none 1 10 sampleCaller sampleDelete]
    (fun p => (p.world.db.operationsByClientRequestId "p" (some "s") "k").any fun o =>
      o.replayKey = encodeReplayKey (sampleCaller.principal.map AuthContext.replayNamespace) "k")
    (by decide +kernel)
  simp only [List.any_eq_true, decide_eq_true_eq] at h
  obtain ⟨o, ho, hkey⟩ := h
  have htext : keyText sha256 sampleCaller.principal "k" = .ok "network-chatgpt-v1\x1fk" := by
    simp only [keyText, sampleCaller, Option.map_some, AuthContext.namespaceText,
      encodeReplayKeyText]
    rw [if_neg (by decide)]
    exact congrArg _ (by decide)
  have hstored : StoredAs sha256 o "network-chatgpt-v1\x1fk" :=
    ⟨sampleCaller.principal, "k", by decide, hkey, htext⟩
  exact absurd (hexact p hp "p" (some "s") "k" (by decide) o ho _ hstored) (by decide)

end CodemcpBridge

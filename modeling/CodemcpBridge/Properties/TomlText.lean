import CodemcpBridge.Properties.Canonical
import CodemcpBridge.Properties.GeneratedText
import CodemcpBridge.RemoteConfig

/-!
# Hand-written TOML

What the Bridge writes as TOML with the quotes of JSON is read back unchanged exactly if no text in
it holds `DEL`: a string, a key, a generated `codemcp.toml` and the `remote.toml` of accepted
settings, whose allowed origins have to be accepted once more besides.
-/

namespace CodemcpBridge

open Tomllib Encoding

namespace Tomllib

open Parsing Parse

theorem dateText_one (rest : List Char) : dateText ('1' :: '\n' :: rest) = none := by
  have hdigits : digits 4 (fun _ => true) ('1' :: '\n' :: rest) = none := by
    refine if_neg ?_
    rintro ⟨-, hall, -⟩
    exact absurd (List.all_eq_true.1 hall '\n' (by simp)) (by decide)
  unfold dateText
  rw [bind_apply, hdigits]
  rfl

theorem anyValue_one (rest : List Char) :
    anyValue ('1' :: '\n' :: rest) = some (.int 1, '\n' :: rest) := by
  have hdate : attempt dateText ('1' :: '\n' :: rest) = some (none, '1' :: '\n' :: rest) := by
    unfold attempt
    rw [dateText_one]
  have hplain : plainValue ('1' :: '\n' :: rest) = some (.int 1, '\n' :: rest) := by
    unfold plainValue
    rw [bind_apply, hdate]
    rfl
  change (boolean.orElse plainValue) ('1' :: '\n' :: rest) = _
  change plainValue ('1' :: '\n' :: rest) = _
  exact hplain

theorem anyValue_timeout (rest : List Char) :
    anyValue ("2000".toList ++ '\n' :: rest) = some (.int 2000, '\n' :: rest) := rfl

end Tomllib

namespace RemoteConfig

open NetworkTrust

/-! ## The remote configuration -/

def number (n : ℕ) : Tomllib.Written := .plain (integer n) (.int n)

def remotePairs (provider : Provider) : List (String × Tomllib.Written) :=
  [("version", number 1), ("transport", .text provider.providerId.toList)]

/-- The pairs of the authentication, if there is any. -/
def authPairs : AuthSettings → List (String × Tomllib.Written)
  | .disabled => []
  | .none => [("version", number 1), ("mode", .text authModeNone.toList)]
  | .resourceServer auth => [("version", number 1), ("mode", .text resourceAuthMode.toList),
      ("verification_contract", .text contractId.toList),
      ("authorization_server_issuer", .text auth.issuer),
      ("canonical_resource_uri", .text auth.resource),
      ("validation_resource_id", .text auth.validationResourceId),
      ("validation_timeout_ms", number 2000)]

def trustPairs : Option NetworkTrustConfig → List (String × Tomllib.Written)
  | .none => []
  | some trust => [("mode", .text trust.mode.toList), ("allowed_hosts", .texts trust.allowedHosts),
      ("allowed_origins", .texts trust.allowedOrigins)]

/-- A table that stands in the document only if there are pairs for it. -/
def optional (name : String) (ps : List (String × Tomllib.Written)) : List Entry :=
  if ps.isEmpty then [] else .blank :: top name ps

def remoteEntries (s : RemoteSettings) : List Entry :=
  top "remote" (remotePairs s.provider) ++ (optional "auth" (authPairs s.auth) ++
    optional "network_trust" (trustPairs s.networkTrust))

/-! ### The text -/

theorem document_append (es es' : List Entry) :
    document (es ++ es') = document es ++ document es' :=
  List.flatMap_append

theorem document_pairs (ps : List (String × Tomllib.Written)) :
    document (pairs ps) = ps.flatMap fun p => line p.1 p.2.write := by
  unfold document pairs
  rw [List.flatMap_map]
  simp [line, Entry.write]

theorem document_top (name : String) (ps : List (String × Tomllib.Written)) :
    document (top name ps) =
      ("[" ++ name ++ "]\n").toList ++ ps.flatMap fun p => line p.1 p.2.write := by
  rw [← document_pairs]
  simp [document, top, Entry.write]

theorem document_optional (name : String) (p : String × Tomllib.Written)
    (ps : List (String × Tomllib.Written)) :
    document (optional name (p :: ps)) =
      ("\n[" ++ name ++ "]\n").toList ++ (p :: ps).flatMap fun p => line p.1 p.2.write := by
  have := document_top name (p :: ps)
  simp only [String.toList_append] at this ⊢
  exact congrArg ('\n' :: ·) this

theorem document_auth (auth : AuthSettings) :
    document (optional "auth" (authPairs auth)) = authText auth := by
  have header : "\n[auth]\n" = "\n[" ++ "auth" ++ "]\n" := by decide +kernel
  rcases auth with _ | _ | auth
  · rfl
  · unfold authPairs authText
    rw [document_optional, ← header]
    simp only [List.flatMap_cons, List.flatMap_nil, List.append_nil, List.append_assoc]
    rfl
  · unfold authPairs authText
    rw [document_optional, ← header]
    simp only [List.flatMap_cons, List.flatMap_nil, List.append_nil, List.append_assoc]
    rfl

theorem document_trust (trust : Option NetworkTrustConfig) :
    document (optional "network_trust" (trustPairs trust)) = networkTrustText trust := by
  have header : "\n[network_trust]\n" = "\n[" ++ "network_trust" ++ "]\n" := by decide +kernel
  rcases trust with _ | trust
  · rfl
  · unfold trustPairs networkTrustText
    rw [document_optional, ← header]
    simp only [List.flatMap_cons, List.flatMap_nil, List.append_nil, List.append_assoc]
    rfl

theorem document_remoteEntries (s : RemoteSettings) :
    document (remoteEntries s) = writeRemoteConfig s := by
  have header : "[remote]\n" = "[" ++ "remote" ++ "]\n" := by decide +kernel
  unfold remoteEntries writeRemoteConfig
  rw [document_append, document_append, document_auth, document_trust, document_top, ← header]
  unfold remotePairs
  simp only [List.flatMap_cons, List.flatMap_nil, List.append_nil, List.append_assoc]
  rfl

theorem plain_number_one : (number 1).Plain :=
  ⟨⟨'1', [], rfl, by decide⟩, by decide, anyValue_one⟩

theorem plain_number_timeout : (number 2000).Plain :=
  ⟨⟨'2', _, rfl, by decide⟩, by decide, anyValue_timeout⟩

/-- Every key is bare, and every value is plain. -/
def PlainPairs (ps : List (String × Tomllib.Written)) : Prop :=
  ∀ p ∈ ps, Bare p.1.toList ∧ p.2.Plain

theorem PlainPairs.top {name : String} {ps : List (String × Tomllib.Written)}
    (hn : Bare name.toList) (h : PlainPairs ps) : ∀ e ∈ top name ps, e.Plain := by
  intro e he
  rcases List.mem_cons.1 he with rfl | he
  · exact hn
  · obtain ⟨p, hp, rfl⟩ := List.mem_map.1 he
    exact h p hp

theorem PlainPairs.optional {name : String} {ps : List (String × Tomllib.Written)}
    (hn : Bare name.toList) (h : PlainPairs ps) : ∀ e ∈ optional name ps, e.Plain := by
  unfold RemoteConfig.optional
  split_ifs
  · exact fun e he => absurd he List.not_mem_nil
  · intro e he
    rcases List.mem_cons.1 he with rfl | he
    · trivial
    · exact h.top hn e he

theorem plainPairs_of {ps : List (String × Tomllib.Written)} (names : List String)
    (hnames : ps.map Prod.fst = names) (hb : (names.all fun n => decide (Bare n.toList)) = true)
    (hp : ∀ p ∈ ps, p.2.Plain) : PlainPairs ps := by
  intro p h
  have hn : p.1 ∈ names := hnames ▸ List.mem_map_of_mem h
  exact ⟨of_decide_eq_true (List.all_eq_true.1 hb p.1 hn), hp p h⟩

theorem plain_text (t : List Char) : (Tomllib.Written.text t).Plain := trivial

theorem plain_texts (ts : List (List Char)) : (Tomllib.Written.texts ts).Plain := trivial

theorem plain_authPairs (auth : AuthSettings) : PlainPairs (authPairs auth) := by
  rcases auth with _ | _ | auth
  · exact fun p hp => absurd hp List.not_mem_nil
  · refine plainPairs_of _ rfl (by decide +kernel) ?_
    simp [authPairs, plain_number_one, plain_text]
  · refine plainPairs_of ["version", "mode", "verification_contract",
      "authorization_server_issuer", "canonical_resource_uri", "validation_resource_id",
      "validation_timeout_ms"] rfl (by decide +kernel) ?_
    simp [authPairs, plain_number_one, plain_number_timeout, plain_text]

theorem plain_trustPairs (trust : Option NetworkTrustConfig) : PlainPairs (trustPairs trust) := by
  rcases trust with _ | trust
  · exact fun p hp => absurd hp List.not_mem_nil
  · refine plainPairs_of ["mode", "allowed_hosts", "allowed_origins"] rfl (by decide +kernel) ?_
    simp [trustPairs, plain_text, plain_texts]

theorem plain_remotePairs (provider : Provider) : PlainPairs (remotePairs provider) := by
  refine plainPairs_of ["version", "transport"] rfl (by decide +kernel) ?_
  simp [remotePairs, plain_number_one, plain_text]

theorem plain_remoteEntries (s : RemoteSettings) : ∀ e ∈ remoteEntries s, e.Plain := by
  intro e he
  rcases List.mem_append.1 he with he | he
  · exact (plain_remotePairs _).top (by decide +kernel) e he
  rcases List.mem_append.1 he with he | he
  · exact (plain_authPairs _).optional (by decide +kernel) e he
  · exact (plain_trustPairs _).optional (by decide +kernel) e he

/-! ### What is read -/

def tableOf (ps : List (String × Tomllib.Written)) :
    Toml := .table (ps.map fun p => (p.1, p.2.value))

def optionalTable (name : String) (ps : List (String × Tomllib.Written)) : Toml.Table :=
  if ps.isEmpty then [] else [(name, tableOf ps)]

/-- What a written configuration is read as. -/
def remoteTable (s : RemoteSettings) : Toml.Table :=
  ("remote", tableOf (remotePairs s.provider)) :: (optionalTable "auth" (authPairs s.auth) ++
    optionalTable "network_trust" (trustPairs s.networkTrust))

theorem applyAll_optional {out : Output} (h : Flat out) (header : Key) (name : String)
    (hname : name ∉ out.data.map Prod.fst) {ps : List (String × Tomllib.Written)}
    (hps : (ps.map Prod.fst).Nodup) : ∃ out' header',
      applyAll (out, header) (optional name ps) = some (out', header') ∧ Flat out' ∧
        out'.data = out.data ++ optionalTable name ps := by
  unfold optional optionalTable
  split_ifs
  · exact ⟨out, header, rfl, h, by simp⟩
  · obtain ⟨out', ha, hf, hd⟩ := h.applyAll_top header name hname ps hps
    exact ⟨out', [name], by rw [applyAll_cons (out, header) rfl, ha], hf, hd⟩

theorem applyAll_remoteEntries (s : RemoteSettings) :
    (applyAll ({}, []) (remoteEntries s)).map (fun r => r.1.data) = some (remoteTable s) := by
  have hempty : Flat {} := ⟨fun e he => absurd he List.not_mem_nil, rfl,
    fun f hf => absurd hf List.not_mem_nil⟩
  have hauth : ((authPairs s.auth).map Prod.fst).Nodup := by
    rcases s.auth with _ | _ | auth <;> simp [authPairs]
  have htrust : ((trustPairs s.networkTrust).map Prod.fst).Nodup := by
    rcases s.networkTrust with _ | trust <;> simp [trustPairs]
  obtain ⟨out₁, h₁, f₁, d₁⟩ := hempty.applyAll_top [] "remote" (by simp)
    (remotePairs s.provider) (by simp [remotePairs])
  obtain ⟨out₂, header₂, h₂, f₂, d₂⟩ := applyAll_optional f₁ ["remote"] "auth"
    (by simp [d₁]) hauth
  obtain ⟨out₃, header₃, h₃, -, d₃⟩ := applyAll_optional f₂ header₂ "network_trust"
    (by rw [d₂, d₁]; unfold optionalTable; split_ifs <;> simp) htrust
  unfold remoteEntries
  rw [applyAll_append, h₁, Option.bind_some, applyAll_append, h₂, Option.bind_some, h₃]
  simp [d₃, d₂, d₁, remoteTable, tableOf]

/-! ### Reading it back -/

/-- Settings that were accepted: their network trust was made, and there is one if requests are not
authenticated. -/
structure Accepted (s : RemoteSettings) : Prop where
  valid : ∀ trust, s.networkTrust = some trust → trust.Valid
  trusted : s.auth = .none → s.networkTrust ≠ none

/-- The settings are read back: neither the issuer nor the resource id holds `DEL`, and each allowed
origin is an accepted one. -/
structure ReadBack (s : RemoteSettings) : Prop where
  auth : ∀ auth, s.auth = .resourceServer auth →
    delete ∉ auth.issuer ∧ delete ∉ auth.validationResourceId
  origins : ∀ trust, s.networkTrust = some trust →
    ∀ origin ∈ trust.allowedOrigins, NetworkTrust.Fits origin

section Parse

variable (s : RemoteSettings)

theorem get_remote :
    Toml.get (remoteTable s) "remote" = some (tableOf (remotePairs s.provider)) := by
  simp [Toml.get, remoteTable]

theorem get_auth : Toml.get (remoteTable s) "auth" =
    if (authPairs s.auth).isEmpty then none else some (tableOf (authPairs s.auth)) := by
  unfold remoteTable optionalTable
  split_ifs <;> simp [Toml.get]

theorem get_trust : Toml.get (remoteTable s) "network_trust" =
    if (trustPairs s.networkTrust).isEmpty then none
    else some (tableOf (trustPairs s.networkTrust)) := by
  unfold remoteTable optionalTable
  split_ifs <;> simp [Toml.get]

theorem loadTransportProvider_remoteTable :
    loadTransportProvider (remoteTable s) = .ok s.provider := by
  unfold loadTransportProvider
  rw [get_remote]
  rcases s.provider with _ | _ <;> rfl

theorem ValidAuth.ne_nil {issuer resource validationResourceId : List Char}
    (h : ValidAuth issuer resource validationResourceId) :
    issuer ≠ [] ∧ resource ≠ [] ∧ validationResourceId ≠ [] := by
  refine ⟨?_, ?_, h.id.1⟩
  · rintro rfl
    exact absurd h.issuer (by decide +kernel)
  · rintro rfl
    exact absurd h.resource (by decide +kernel)

theorem ofList_ne_empty {t : List Char} (h : t ≠ []) : String.ofList t ≠ "" := by
  intro he
  have := congrArg String.toList he
  rw [String.toList_ofList] at this
  exact h this

theorem parseResourceServer_pairs (auth : ResourceAuthSettings) :
    parseResourceServer ((authPairs (.resourceServer auth)).map fun p => (p.1, p.2.value)) =
      .ok (.resourceServer auth) := by
  obtain ⟨hi, hr, hid⟩ := auth.valid.ne_nil
  have hbuild : buildResourceAuthSettings (String.ofList auth.issuer).toList
      (String.ofList auth.resource).toList (String.ofList auth.validationResourceId).toList =
        .ok auth := by
    simp only [String.toList_ofList]
    unfold buildResourceAuthSettings
    rw [dif_pos auth.valid]
  have hnames : unexpected ((authPairs (.resourceServer auth)).map fun p => (p.1, p.2.value))
      ["version", "mode", "verification_contract", "authorization_server_issuer",
        "canonical_resource_uri", "validation_resource_id", "validation_timeout_ms"] = [] := by
    simp [unexpected, authPairs, Text.sortedSet]
  have hversion : Toml.get ((authPairs (.resourceServer auth)).map fun p => (p.1, p.2.value))
      "version" = some (.int 1) := rfl
  have hcontract : ((Toml.get ((authPairs (.resourceServer auth)).map fun p => (p.1, p.2.value))
      "verification_contract").bind Toml.str?) = some contractId := by
    simp [Toml.get, authPairs, Tomllib.Written.value, Toml.str?]
  have htimeout : Toml.get ((authPairs (.resourceServer auth)).map fun p => (p.1, p.2.value))
      "validation_timeout_ms" = some (.int 2000) := rfl
  have hissuer : Toml.get ((authPairs (.resourceServer auth)).map fun p => (p.1, p.2.value))
      "authorization_server_issuer" = some (.str (String.ofList auth.issuer)) := rfl
  have hresource : Toml.get ((authPairs (.resourceServer auth)).map fun p => (p.1, p.2.value))
      "canonical_resource_uri" = some (.str (String.ofList auth.resource)) := rfl
  have hresourceId : Toml.get ((authPairs (.resourceServer auth)).map fun p => (p.1, p.2.value))
      "validation_resource_id" = some (.str (String.ofList auth.validationResourceId)) := rfl
  unfold parseResourceServer
  dsimp only
  rw [hnames, if_neg (by simp), hversion, if_neg (by decide),
    if_neg (by simp [hcontract]), htimeout, if_neg (by decide), hissuer, hresource, hresourceId]
  dsimp only
  rw [if_neg, hbuild]
  · rfl
  · rintro (h | h | h)
    · exact ofList_ne_empty hi h
    · exact ofList_ne_empty hr h
    · exact ofList_ne_empty hid h

theorem parseAuthConfiguration_remoteTable :
    parseAuthConfiguration (remoteTable s) = .ok s.auth := by
  unfold parseAuthConfiguration
  rw [get_auth]
  rcases s.auth with _ | _ | auth
  · rfl
  · rfl
  · exact parseResourceServer_pairs auth

theorem tableOf_trustPairs (trust : NetworkTrustConfig) :
    tableOf (trustPairs (some trust)) = trust.asMapping := by
  simp [tableOf, trustPairs, NetworkTrustConfig.asMapping, Tomllib.Written.value]

theorem parseNetworkTrustConfiguration_remoteTable (h : Accepted s) :
    parseNetworkTrustConfiguration (remoteTable s) = .ok s.networkTrust ↔
      ∀ trust, s.networkTrust = some trust →
        ∀ origin ∈ trust.allowedOrigins, NetworkTrust.Fits origin := by
  unfold parseNetworkTrustConfiguration
  rw [get_trust]
  rcases ht : s.networkTrust with _ | trust
  · exact iff_of_true rfl (by simp)
  · have hread := fromMapping_asMapping (h.valid trust ht)
    simp only [Option.some.injEq, forall_eq']
    have hne : (trustPairs (some trust)).isEmpty ≠ true := by simp [trustPairs]
    obtain ⟨entries, he⟩ : ∃ entries, tableOf (trustPairs (some trust)) = .table entries :=
      ⟨_, rfl⟩
    rw [← hread, ← tableOf_trustPairs, if_neg hne, he]
    dsimp only
    rcases NetworkTrustConfig.fromMapping (.table entries) with cause | trust'
    · simp
    · simp

theorem loadRemoteSecuritySettings_remoteTable (h : Accepted s) :
    loadRemoteSecuritySettings (remoteTable s) = .ok (s.auth, s.networkTrust) ↔
      ∀ trust, s.networkTrust = some trust →
        ∀ origin ∈ trust.allowedOrigins, NetworkTrust.Fits origin := by
  rw [← parseNetworkTrustConfiguration_remoteTable s h]
  unfold loadRemoteSecuritySettings
  rw [parseAuthConfiguration_remoteTable]
  rcases parseNetworkTrustConfiguration (remoteTable s) with e | trust
  · simp [bind, Except.bind]
  · simp only [bind, Except.bind]
    have htrusted := h.trusted
    rcases ha : s.auth with _ | _ | auth
    · simp
    · rcases trust with _ | trust
      · refine iff_of_false ?_ ?_
        · simp [refuse]
        · intro he
          exact htrusted ha (Except.ok.inj he).symm
      · simp
    · simp

end Parse

theorem plainText_of_mem_hosts {c : NetworkTrustConfig} (h : c.Valid) :
    ∀ host ∈ c.allowedHosts, delete ∉ host := by
  obtain ⟨-, hosts, -, hh, -⟩ := h.entries
  intro host hm hd
  obtain ⟨value, hv⟩ := (canonicalizeEntries_ok hh).1 host hm
  have hplain := (canonicalizeAllowedHost_iff.1 (canonicalizeAllowedHost_idem hv)).1
  exact absurd (hplain.control _ hd) (by decide)

theorem plainText_of_mem_origins {c : NetworkTrustConfig} (h : c.Valid) :
    ∀ origin ∈ c.allowedOrigins, delete ∉ origin := by
  obtain ⟨-, -, origins, -, ho⟩ := h.entries
  intro origin hm hd
  obtain ⟨value, hv⟩ := (canonicalizeEntries_ok ho).1 origin hm
  obtain ⟨d, -, valid, -, -, -, rfl⟩ := denoted_of_accepted hv
  exact absurd (valid.plainText_render.control _ hd) (by decide)

theorem validateResource_noDelete {value : List Char}
    (h : ResourceServer.validateResource value = true) : delete ∉ value := by
  intro hd
  unfold ResourceServer.validateResource at h
  split at h
  · cases h
  · simp only [Bool.and_eq_true, Bool.not_eq_true', List.any_eq_false] at h
    exact absurd (h.1.1.2 delete hd) (by decide)

theorem holdsDelete_top (name : String) (ps : List (String × Tomllib.Written)) :
    HoldsDelete (top name ps) ↔ ∃ p ∈ ps, ∃ t ∈ p.2.quoted, delete ∈ t := by
  simp [HoldsDelete, top, pairs, Entry.quoted]

theorem holdsDelete_optional (name : String) (ps : List (String × Tomllib.Written)) :
    HoldsDelete (optional name ps) ↔ ∃ p ∈ ps, ∃ t ∈ p.2.quoted, delete ∈ t := by
  rw [← holdsDelete_top name]
  unfold optional
  split_ifs with h
  · rw [List.isEmpty_iff] at h
    subst h
    simp [HoldsDelete, top, pairs, Entry.quoted]
  · simp [HoldsDelete, Entry.quoted]

theorem holdsDelete_remoteEntries {s : RemoteSettings} (h : Accepted s) :
    HoldsDelete (remoteEntries s) ↔ ¬∀ auth, s.auth = .resourceServer auth →
      delete ∉ auth.issuer ∧ delete ∉ auth.validationResourceId := by
  have hremote : ¬∃ p ∈ remotePairs s.provider, ∃ t ∈ p.2.quoted, delete ∈ t := by
    rcases s.provider with _ | _ <;> decide +kernel
  have htrust : ¬∃ p ∈ trustPairs s.networkTrust, ∃ t ∈ p.2.quoted, delete ∈ t := by
    rcases ht : s.networkTrust with _ | trust
    · simp [trustPairs]
    · have hmode : delete ∉ trust.mode.toList := by
        rw [(h.valid trust ht).entries.1]
        decide +kernel
      have hhosts := plainText_of_mem_hosts (h.valid trust ht)
      have horigins := plainText_of_mem_origins (h.valid trust ht)
      simp only [trustPairs, List.mem_cons, List.not_mem_nil, or_false]
      rintro ⟨p, rfl | rfl | rfl, t, ht, hd⟩
      · exact hmode (List.mem_singleton.1 ht ▸ hd)
      · exact hhosts t ht hd
      · exact horigins t ht hd
  unfold remoteEntries
  rw [holdsDelete_append, holdsDelete_append, holdsDelete_top, holdsDelete_optional,
    holdsDelete_optional, or_iff_right hremote, or_iff_left htrust]
  rcases s.auth with _ | _ | auth
  · simp [authPairs]
  · refine iff_of_false (by decide +kernel) (by simp)
  · have hresource := validateResource_noDelete auth.valid.resource
    have hmode : delete ∉ resourceAuthMode.toList := by decide +kernel
    have hcontract : delete ∉ contractId.toList := by decide +kernel
    simp only [authPairs, number, List.mem_cons, List.not_mem_nil, or_false, exists_eq_or_imp,
      exists_eq_left, Tomllib.Written.quoted, false_and, exists_false, hmode, hcontract, hresource,
      false_or,
      AuthSettings.resourceServer.injEq, forall_eq']
    tauto

theorem universalNewlines_of_notMem : ∀ {t : List Char}, '\r' ∉ t → universalNewlines t = t
  | [], _ => rfl
  | c :: t, h => by
      rw [List.mem_cons, not_or] at h
      rw [universalNewlines, universalNewlines_of_notMem h.2]
      · rintro t' rfl
        exact absurd rfl h.1
      · rintro rfl
        exact absurd rfl h.1

/-- Accepted settings are read back from what is written of them exactly if they can be. -/
theorem loadRemoteConfig_write {s : RemoteSettings} (h : Accepted s) :
    loadRemoteConfig (writeRemoteConfig s) = .ok s ↔ ReadBack s := by
  have hplain := plain_remoteEntries s
  have hdelete := holdsDelete_remoteEntries h
  have hloads := loads_document (remoteEntries s) hplain
  unfold loadRemoteConfig
  rw [← document_remoteEntries, universalNewlines_of_notMem (document_noReturn hplain), hloads]
  by_cases hd : HoldsDelete (remoteEntries s)
  · rw [if_pos hd]
    exact iff_of_false (by simp [refuse]) fun hr => hdelete.1 hd hr.auth
  · rw [if_neg hd, applyAll_remoteEntries]
    dsimp only
    rw [loadTransportProvider_remoteTable]
    have hauth := not_not.1 fun hn => hd (hdelete.2 hn)
    have hsecurity := loadRemoteSecuritySettings_remoteTable s h
    constructor
    · intro hok
      refine ⟨hauth, hsecurity.1 ?_⟩
      rcases hs : loadRemoteSecuritySettings (remoteTable s) with e | ⟨auth, trust⟩
      · rw [hs] at hok
        cases hok
      · rw [hs] at hok
        have he := Except.ok.inj hok
        have hauth : auth = s.auth := congrArg RemoteSettings.auth he
        have htrust : trust = s.networkTrust := congrArg RemoteSettings.networkTrust he
        rw [hauth, htrust]
    · intro hr
      rw [hsecurity.2 hr.origins]
      rfl

end RemoteConfig

/-! ## What is read back -/

open GeneratedCodemcp RemoteConfig

/-- A text is read back from its quotes, as a value and as a key. -/
theorem quote_readBack (text : String) :
    (anyValue (quote text.toList) = some (.str text, []) ↔ delete ∉ text.toList) ∧
      (key (quote text.toList) = some ([text], []) ↔ delete ∉ text.toList) := by
  have hvalue : anyValue (quote text.toList) =
      if delete ∈ text.toList then none else some (.str text, []) := by
    have := value_quote (n := (quote text.toList).length) text.toList [] (by simp)
    rwa [List.append_nil, String.ofList_toList] at this
  have hkey : keyPart (quote text.toList) =
      if delete ∈ text.toList then none else some (text, []) := by
    have := keyPart_quote text.toList []
    rwa [List.append_nil, String.ofList_toList] at this
  by_cases hd : delete ∈ text.toList
  · rw [if_pos hd] at hvalue hkey
    refine ⟨iff_of_false (by simp [hvalue]) (not_not.2 hd), iff_of_false ?_ (not_not.2 hd)⟩
    unfold key
    rw [run_bind_none hkey]
    simp
  · rw [if_neg hd] at hvalue hkey
    refine ⟨iff_of_true hvalue hd, iff_of_true ?_ hd⟩
    rw [key_eq hkey]
    rfl

/-- What is written as TOML is read back exactly if it holds no `DEL`: a string; the commands of a
project in its generated configuration; and accepted settings in `remote.toml`, if its origins are
accepted once more. -/
theorem written_readBack (text : String) (project : ProjectSpec) (s : RemoteSettings) :
    (anyValue (quote text.toList) = some (.str text, []) ↔ delete ∉ text.toList) ∧
    (key (quote text.toList) = some ([text], []) ↔ delete ∉ text.toList) ∧
    (canGenerateCodemcpConfig project = true → Keyed project →
      ∃ written, renderGeneratedCodemcpConfig project = some written ∧
        ((∃ config, loads written = some config ∧ ∀ c ∈ project.commands,
          configuredArgv config c.1 = some (.array (c.2.argv.map .str)) ∧
            verifyExistingConfig config c.2 = true) ↔ ∀ c ∈ project.commands, Undeleted c)) ∧
    (Accepted s → (loadRemoteConfig (writeRemoteConfig s) = .ok s ↔ RemoteConfig.ReadBack s)) :=
  ⟨(quote_readBack text).1, (quote_readBack text).2, generated_readBack, loadRemoteConfig_write⟩

/-- A project whose only command prints a text. -/
def printingProject (text : String) : ProjectSpec where
  projectId := "demo"
  root := "/srv/demo"
  allowedBranches := []
  requireCleanWorkspace := true
  codemcpConfig := "/srv/demo/codemcp.toml"
  commands := [("print", { commandId := "print", kind := "custom", argv := ["printf", text]
                           timeoutSeconds := .finite 60, approval := .notRequired })]
  profile := some "python"
  profileSource := "explicit"

/-- Settings of a Bridge behind a tunnel, which authenticates requests and trusts one host. -/
def sampleRemote : RemoteSettings where
  provider := .cloudflareTunnel
  auth := .resourceServer
    { issuer := "https://issuer.example".toList, resource := "https://bridge.example/mcp".toList
      validationResourceId := "bridge".toList, valid := by decide +kernel }
  networkTrust := some
    { mode := "cloudflare-chatgpt", allowedHosts := ["bridge.example".toList]
      allowedOrigins := ["https://chatgpt.com".toList] }

theorem undeleted_printing : ∀ c ∈ (printingProject "a\tb").commands, Undeleted c := by
  intro c hc
  rw [List.mem_singleton.1 hc]
  refine ⟨by decide +kernel, by decide +kernel, ?_⟩
  simp only [List.mem_cons, List.not_mem_nil, or_false]
  rintro part (rfl | rfl)
  · decide +kernel
  · decide +kernel

theorem accepted_sampleRemote : Accepted sampleRemote := by
  refine ⟨?_, fun h => by cases h⟩
  rintro trust ⟨⟩
  exact ⟨some (.str "cloudflare-chatgpt"), .array [.str "bridge.example"],
    .array [.str "https://chatgpt.com"], NetworkTrust.toOption_eq_some.1 (by decide +kernel)⟩

theorem readBack_sampleRemote : RemoteConfig.ReadBack sampleRemote := by
  constructor
  · rintro auth ⟨⟩
    exact ⟨by decide +kernel, by decide +kernel⟩
  · rintro trust ⟨⟩ origin ho
    rw [List.mem_singleton.1 ho]
    intro d hd
    have short : (NetworkTrust.denoted "https://chatgpt.com".toList).all
        (fun d => decide (d.host.bare.length ≤ 253)) = true := by
      decide +kernel
    rw [hd] at short
    exact of_decide_eq_true short

/-- The command of a project is read back from its configuration, and settings are from
`remote.toml`. -/
theorem written_readBack_printing :
    (∃ written, renderGeneratedCodemcpConfig (printingProject "a\tb") = some written ∧
      ∃ config, loads written = some config ∧
        ∀ c ∈ (printingProject "a\tb").commands, verifyExistingConfig config c.2 = true) ∧
    loadRemoteConfig (writeRemoteConfig sampleRemote) = .ok sampleRemote := by
  obtain ⟨-, -, generated, remote⟩ :=
    written_readBack "" (printingProject "a\tb") sampleRemote
  obtain ⟨written, hw, hread⟩ := generated (by decide +kernel)
    ⟨by decide +kernel, by simp [printingProject]⟩
  obtain ⟨config, hl, hc⟩ := hread.2 undeleted_printing
  exact ⟨⟨written, hw, config, hl, fun c h => (hc c h).2⟩,
    (remote accepted_sampleRemote).2 readBack_sampleRemote⟩

/-- An argument that is the character `DEL`. -/
theorem deleted_argument_unread :
    anyValue (quote ['\x7f']) = none ∧
      ∃ written, renderGeneratedCodemcpConfig (printingProject "\x7f") = some written ∧
        loads written = none := by
  refine ⟨by rfl, _, rfl, ?_⟩
  exact Option.isNone_iff_eq_none.1 (by decide +kernel)

end CodemcpBridge

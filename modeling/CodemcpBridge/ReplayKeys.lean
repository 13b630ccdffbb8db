import CodemcpBridge.Db.Store
import CodemcpBridge.Encoding.Texts

/-!
# Replay keys as texts

The store keeps a replay key as one text, the namespace and the request id around a separator, and
the namespace of an OAuth principal is a digest of its identity values.  `ReplayKey` keeps the two
parts apart and the digest symbolic; here the texts are shown to tell the same keys apart.  SHA-256
is a parameter.
-/

namespace CodemcpBridge

open Encoding

/-- `REPLAY_KEY_SEPARATOR`. -/
def replayKeySeparator : Char := '\x1f'

/-- What is taken for granted of `sha256(…).hexdigest()`: it tells texts apart, in hex digits. -/
structure IsDigest (sha256 : String → String) : Prop where
  injective : Function.Injective sha256
  hex : ∀ s, ∀ c ∈ (sha256 s).toList, Text.isHexDigit c = true

/-! ## Namespaces -/

/-- `_oauth_replay_namespace`. -/
def oauthNamespaceText (sha256 : String → String) (values : List String) : String :=
  "oauth-" ++ sha256 (String.ofList (dumps (values.map String.toList)))

/-- `auth_replay_namespace`. -/
def AuthContext.namespaceText (sha256 : String → String) : AuthContext → String
  | .networkTrusted _ => networkTrustReplayNamespace
  | .oauth p => oauthNamespaceText sha256 p.identityValues

/-- `encode_replay_key`. -/
def encodeReplayKeyText (namespace_ : Option String) (clientRequestId : String) :
    Except Exn String :=
  match namespace_ with
  | none => .ok clientRequestId
  | some n =>
    if n = "" ∨ replayKeySeparator ∈ n.toList ∨ replayKeySeparator ∈ clientRequestId.toList then
      .error .valueError
    else .ok (n ++ String.singleton replayKeySeparator ++ clientRequestId)

/-- `decode_replay_key`. -/
def decodeReplayKeyText (value : String) : String :=
  match (partition replayKeySeparator value.toList).2 with
  | some clientRequestId => String.ofList clientRequestId
  | none => value

variable {sha256 : String → String} {c c' : AuthContext}

theorem oauthNamespaceText_inj (hsha : IsDigest sha256) {xs ys : List String}
    (h : oauthNamespaceText sha256 xs = oauthNamespaceText sha256 ys) : xs = ys := by
  have hdigest := hsha.injective ((String.append_right_inj _).1 h)
  have htext := dumps_injective (String.ofList_injective hdigest)
  exact List.map_injective_iff.2 (fun _ _ => String.toList_injective) htext

theorem sep_notMem_namespaceText (hsha : IsDigest sha256) (c : AuthContext) :
    c.namespaceText sha256 ≠ "" ∧ replayKeySeparator ∉ (c.namespaceText sha256).toList := by
  cases c with
  | networkTrusted r =>
    show networkTrustReplayNamespace ≠ "" ∧ replayKeySeparator ∉ networkTrustReplayNamespace.toList
    decide
  | oauth p =>
    refine ⟨fun h => ?_, fun h => ?_⟩
    · have := congrArg String.toList h
      simp [AuthContext.namespaceText, oauthNamespaceText] at this
    · simp only [AuthContext.namespaceText, oauthNamespaceText, String.toList_append,
        List.mem_append] at h
      rcases h with h | h
      · exact absurd h (by decide)
      · exact absurd (hsha.hex _ _ h) (by decide)

/-- The two renderings of a namespace tell the same contexts apart. -/
theorem namespaceText_eq_iff (hsha : IsDigest sha256) :
    c.namespaceText sha256 = c'.namespaceText sha256 ↔ c.replayNamespace = c'.replayNamespace := by
  have hne : ∀ p : AuthenticatedPrincipal,
      networkTrustReplayNamespace ≠ oauthNamespaceText sha256 p.identityValues := fun p h => by
    have := congrArg (fun s => s.toList.head?) h
    simp [networkTrustReplayNamespace, oauthNamespaceText] at this
  cases c with
  | networkTrusted r =>
    cases c' with
    | networkTrusted r' => exact iff_of_true rfl rfl
    | oauth q =>
      refine iff_of_false (hne q) ?_
      simp [AuthContext.replayNamespace, oauthReplayNamespace]
  | oauth p =>
    cases c' with
    | networkTrusted r' =>
      refine iff_of_false (hne p).symm ?_
      simp [AuthContext.replayNamespace, oauthReplayNamespace]
    | oauth q =>
      simp only [AuthContext.namespaceText, AuthContext.replayNamespace, oauthReplayNamespace,
        Json.sha256.injEq, true_and]
      constructor
      · intro h
        rw [oauthNamespaceText_inj hsha h]
      · intro h
        have hvalues : p.identityValues = q.identityValues := by
          simp only [Json.ofStrings, Json.arr.injEq] at h
          exact List.map_injective_iff.2 (fun _ _ h => Json.str.inj h) h
        rw [hvalues]

/-! ## Keys -/

/-- The text of a context's key is defined. -/
theorem encodeReplayKeyText_context (hsha : IsDigest sha256) (principal : Option AuthContext)
    {clientRequestId : String} (hid : replayKeySeparator ∉ clientRequestId.toList) :
    ∃ key, encodeReplayKeyText (principal.map (AuthContext.namespaceText sha256)) clientRequestId =
      .ok key := by
  cases principal with
  | none => exact ⟨_, rfl⟩
  | some c =>
    obtain ⟨hne, hsep⟩ := sep_notMem_namespaceText hsha c
    refine ⟨_, if_neg ?_⟩
    rintro (h | h | h)
    · exact hne h
    · exact hsep h
    · exact hid h

theorem sep_notMem_of_isIdentifier {s : String} (h : Text.isIdentifier s = true) :
    replayKeySeparator ∉ s.toList := by
  unfold Text.isIdentifier at h
  split at h
  · cases h
  · rename_i c cs heq
    rw [heq]
    simp only [Bool.and_eq_true, List.all_eq_true] at h
    intro hmem
    rcases List.mem_cons.1 hmem with rfl | hmem
    · exact absurd h.1.1 (by decide)
    · exact absurd (h.1.2 _ hmem) (by decide)

/-- The parts of a key are read back from its text. -/
theorem partition_encoded {namespace_ : Option String} {clientRequestId key : String}
    (hid : replayKeySeparator ∉ clientRequestId.toList)
    (h : encodeReplayKeyText namespace_ clientRequestId = .ok key) :
    partition replayKeySeparator key.toList =
      match namespace_ with
      | none => (clientRequestId.toList, none)
      | some n => (n.toList, some clientRequestId.toList) := by
  cases namespace_ with
  | none =>
    cases h
    exact partition_of_notMem hid
  | some n =>
    simp only [encodeReplayKeyText] at h
    split_ifs at h with hbad
    cases h
    push Not at hbad
    simp [String.toList_append, partition_append _ hbad.2.1]

/-- `decode_replay_key` inverts `encode_replay_key`. -/
theorem decodeReplayKeyText_encode {namespace_ : Option String} {clientRequestId key : String}
    (hid : replayKeySeparator ∉ clientRequestId.toList)
    (h : encodeReplayKeyText namespace_ clientRequestId = .ok key) :
    decodeReplayKeyText key = clientRequestId := by
  unfold decodeReplayKeyText
  rw [partition_encoded hid h]
  cases namespace_ with
  | none =>
    cases h
    rfl
  | some n => simp

/-- The text determines the key. -/
theorem encodeReplayKeyText_inj {namespace_ namespace_' : Option String}
    {clientRequestId clientRequestId' key : String}
    (hid : replayKeySeparator ∉ clientRequestId.toList)
    (hid' : replayKeySeparator ∉ clientRequestId'.toList)
    (h : encodeReplayKeyText namespace_ clientRequestId = .ok key)
    (h' : encodeReplayKeyText namespace_' clientRequestId' = .ok key) :
    namespace_ = namespace_' ∧ clientRequestId = clientRequestId' := by
  refine ⟨?_, (decodeReplayKeyText_encode hid h).symm.trans (decodeReplayKeyText_encode hid' h')⟩
  have hparts := (partition_encoded hid h).symm.trans (partition_encoded hid' h')
  cases namespace_ with
  | none => cases namespace_' with
    | none => rfl
    | some n' => simp at hparts
  | some n => cases namespace_' with
    | none => simp at hparts
    | some n' => exact congrArg some (String.toList_injective (congrArg Prod.fst hparts))

/-! ## The lookup of old keys -/

/-- What `get_operations_by_client_request_id` keeps of a stored key: the `WHERE` clause of its
query, and the filter behind it. -/
def isLegacyKey (clientRequestId stored : String) : Bool :=
  (stored == clientRequestId ||
    like (wildcards '\\' ('%' :: replayKeySeparator :: escapeLike clientRequestId.toList))
      stored.toList) &&
    decodeReplayKeyText stored == clientRequestId

/-- The query loses no key: what is found is every key that is read back as the request id. -/
theorem isLegacyKey_iff {clientRequestId stored : String} :
    isLegacyKey clientRequestId stored = true ↔ decodeReplayKeyText stored = clientRequestId := by
  simp only [isLegacyKey, Bool.and_eq_true, Bool.or_eq_true, beq_iff_eq, and_iff_right_iff_imp]
  intro hdecode
  unfold decodeReplayKeyText at hdecode
  split at hdecode
  · rename_i id hsome
    subst hdecode
    have hwild : wildcards '\\' ('%' :: replayKeySeparator ::
      escapeLike (String.ofList id).toList) =
        .any :: .char replayKeySeparator :: id.map .char := by
      rw [wildcards_cons (by decide), wildcards_cons (by decide), String.toList_ofList,
        wildcards_escapeLike]
      rfl
    rw [hwild, eq_of_partition_some hsome]
    exact .inr (like_any (like_chars (replayKeySeparator :: id)))
  · exact .inl hdecode

end CodemcpBridge

import CodemcpBridge.Properties.Resolution

/-!
# Normal forms of relative paths

A normal form is put together from the names of a path, so two paths have one normal form just when
they have the same names.  It is a relative path again, on either system, unless the names before
the first one that stays were hiding a drive.
-/

namespace CodemcpBridge

open ProjectRegistry

variable {value normalized name : String} {names : List String} {c : Char}

/-- A text is a relative path on both systems, and its own normal form. -/
structure NormalForm (text : String) : Prop where
  accepted : normalizeRelativePath text = .ok text
  rootless : text.toList.head? ≠ some '/' ∧ text.toList.head? ≠ some '\\'
  driveless : splitDrive text = none ∧ Paths.isWindowsAbsolute text = false
  slashes : '\\' ∉ text.toList
  names : text = "." ∨ ∀ name ∈ Text.split '/' text, name ≠ "" ∧ name ≠ "." ∧ name ≠ ".."

/-- The first name of the path that stays has a colon behind its first character. -/
def HidesDrive (value : String) : Prop :=
  ∃ name, (Text.parts (slashed value)).head? = some name ∧ splitDrive name ≠ none

/-! ## The characters of a normal form -/

theorem Text.mem_of_mem_splitBy {sep : Char → Bool} {s p : List Char} (h : p ∈ Text.splitBy sep s)
    (hc : c ∈ p) : c ∈ s := by
  induction s generalizing p with
  | nil =>
    rw [Text.splitBy, List.mem_singleton] at h
    rw [h] at hc
    exact hc
  | cons d s ih =>
    rw [Text.splitBy] at h
    split_ifs at h with hd
    · rcases List.mem_cons.1 h with rfl | h
      · exact absurd hc List.not_mem_nil
      · exact List.mem_cons_of_mem d (ih h hc)
    · split at h
      · rw [List.mem_singleton] at h
        rw [h, List.mem_singleton] at hc
        rw [hc]
        exact List.mem_cons_self
      · next q qs hq =>
        rcases List.mem_cons.1 h with rfl | h
        · rcases List.mem_cons.1 hc with rfl | hc
          · exact List.mem_cons_self
          · exact List.mem_cons_of_mem d (ih (hq ▸ List.mem_cons_self) hc)
        · exact List.mem_cons_of_mem d (ih (hq ▸ List.mem_cons_of_mem q h) hc)

theorem mem_of_mem_parts {s : String} (h : name ∈ Text.parts s) (hc : c ∈ name.toList) :
    c ∈ s.toList := by
  unfold Text.parts Text.split at h
  obtain ⟨hm, -⟩ := List.mem_filter.1 h
  obtain ⟨piece, hp, rfl⟩ := List.mem_map.1 hm
  rw [String.toList_ofList] at hc
  exact Text.mem_of_mem_splitBy hp hc

/-- A character of a joined path is a slash or of one of its names. -/
theorem mem_of_mem_intercalate (h : c ∈ ("/".intercalate names).toList) :
    c = '/' ∨ ∃ name ∈ names, c ∈ name.toList := by
  induction names with
  | nil => exact absurd h List.not_mem_nil
  | cons name rest ih =>
    rw [String.toList_intercalate, List.map_cons] at h
    cases rest with
    | nil =>
      rw [List.map_nil, List.intercalate_singleton] at h
      exact .inr ⟨name, List.mem_cons_self, h⟩
    | cons next rest =>
      rw [List.map_cons, List.intercalate_cons_cons, List.append_assoc] at h
      rcases List.mem_append.1 h with h | h
      · exact .inr ⟨name, List.mem_cons_self, h⟩
      · rcases List.mem_append.1 h with h | h
        · exact .inl (List.mem_singleton.1 h)
        · rw [← List.map_cons, ← String.toList_intercalate] at h
          rcases ih h with rfl | ⟨n, hn, hc⟩
          · exact .inl rfl
          · exact .inr ⟨n, List.mem_cons_of_mem name hn, hc⟩

theorem mem_slashed (h : c ∈ (slashed value).toList) : c = '/' ∨ (c ∈ value.toList ∧ c ≠ '\\') := by
  unfold slashed at h
  rw [String.toList_ofList] at h
  obtain ⟨d, hd, rfl⟩ := List.mem_map.1 h
  by_cases hs : d = '\\'
  · exact .inl (if_pos hs)
  · rw [if_neg hs]
    exact .inr ⟨hd, hs⟩

theorem slashed_eq_self (h : '\\' ∉ value.toList) : slashed value = value := by
  unfold slashed
  have same : value.toList.map (fun c => if c = '\\' then '/' else c) = value.toList := by
    refine (List.map_congr_left fun c hc => ?_).trans (List.map_id _)
    exact if_neg fun (he : c = '\\') => h (he ▸ hc)
  rw [same, String.ofList_toList]

/-- What is asked of a text that is accepted. -/
theorem normalizeRelativePath_checks (h : normalizeRelativePath value = .ok normalized) :
    value ≠ "" ∧ '\x00' ∉ value.toList ∧ (slashed value).toList.head? ≠ some '/' ∧
      splitDrive value = none := by
  unfold normalizeRelativePath at h
  split_ifs at h with text relative
  all_goals
    rw [not_or] at text
    rw [not_or, not_or] at relative
    refine ⟨text.1, ?_, relative.1, ?_⟩
    · intro hm
      exact text.2 (List.elem_eq_true_of_mem hm)
    · exact Option.not_isSome_iff_eq_none.1 relative.2.2

/-- The characters of a normal form are slashes, dots and characters of the path. -/
theorem mem_normalized (h : normalizeRelativePath value = .ok normalized)
    (hc : c ∈ normalized.toList) : c = '/' ∨ c = '.' ∨ (c ∈ value.toList ∧ c ≠ '\\') := by
  rw [(normalizeRelativePath_ok h).2] at hc
  split_ifs at hc
  · exact .inr (.inl (List.mem_singleton.1 hc))
  · rcases mem_of_mem_intercalate hc with rfl | ⟨name, hn, hc⟩
    · exact .inl rfl
    · rcases mem_slashed (mem_of_mem_parts hn hc) with rfl | hc
      · exact .inl rfl
      · exact .inr (.inr hc)

theorem slashless (h : normalizeRelativePath value = .ok normalized) :
    '\\' ∉ normalized.toList := by
  intro hm
  rcases mem_normalized h hm with he | he | he
  · exact absurd he (by decide)
  · exact absurd he (by decide)
  · exact he.2 rfl

theorem nulless (h : normalizeRelativePath value = .ok normalized) :
    '\x00' ∉ normalized.toList := by
  intro hm
  rcases mem_normalized h hm with he | he | he
  · exact absurd he (by decide)
  · exact absurd he (by decide)
  · exact (normalizeRelativePath_checks h).2.1 he.1

/-! ## Drives and roots -/

/-- The characters of a path that has names begin with those of the first one. -/
theorem normalized_eq_append (h : normalizeRelativePath value = .ok normalized)
    (hp : Text.parts (slashed value) = name :: names) :
    ∃ t, normalized.toList = name.toList ++ t ∧ (t ≠ [] → t.head? = some '/') := by
  have form := (normalizeRelativePath_ok h).2
  rw [hp, if_neg (List.cons_ne_nil name names)] at form
  rw [form]
  exact toList_intercalate_cons name names

theorem head_of_normalized (h : normalizeRelativePath value = .ok normalized) :
    normalized.toList.head? ≠ some '/' := by
  cases hp : Text.parts (slashed value) with
  | nil =>
    rw [(normalizeRelativePath_ok h).2, hp]
    decide
  | cons name names =>
    obtain ⟨t, ht, -⟩ := normalized_eq_append h hp
    obtain ⟨ne, -, noSlash⟩ := plainName_of_mem_parts (hp ▸ List.mem_cons_self)
    rw [ht, List.head?_append_of_ne_nil _ (mt String.toList_eq_nil_iff.1 ne)]
    exact fun he => noSlash (List.mem_of_mem_head? he)

/-- The second character of a path is that of its first name. -/
theorem splitDrive_normalized (h : normalizeRelativePath value = .ok normalized) :
    splitDrive normalized = none ↔ ¬ HidesDrive value := by
  unfold HidesDrive
  cases hp : Text.parts (slashed value) with
  | nil =>
    have form : normalized = "." := by rw [(normalizeRelativePath_ok h).2, hp]; rfl
    rw [form]
    simp [splitDrive_eq_none]
  | cons name names =>
    obtain ⟨t, ht, slash⟩ := normalized_eq_append h hp
    obtain ⟨ne, -, -⟩ := plainName_of_mem_parts (hp ▸ List.mem_cons_self)
    have second : normalized.toList[1]? = some ':' ↔ name.toList[1]? = some ':' := by
      rw [ht]
      cases hl : name.toList with
      | nil => exact absurd (String.toList_eq_nil_iff.1 hl) ne
      | cons c cs =>
        cases cs with
        | cons d ds => simp
        | nil =>
          cases t with
          | nil => simp
          | cons d t =>
            cases slash (List.cons_ne_nil d t)
            simp
    rw [splitDrive_eq_none]
    simp only [List.head?_cons, Option.some.injEq, exists_eq_left', ne_eq,
      splitDrive_eq_none, second, not_not]

theorem isWindowsAbsolute_eq_false {text : String} (slash : text.toList.head? ≠ some '/')
    (backslash : text.toList.head? ≠ some '\\') (drive : splitDrive text = none) :
    Paths.isWindowsAbsolute text = false := by
  rw [splitDrive_eq_none] at drive
  unfold Paths.isWindowsAbsolute
  cases hl : text.toList with
  | nil => rfl
  | cons c cs =>
    rw [hl] at slash backslash drive
    have first : (if c = '/' then '\\' else c) ≠ '\\' := by
      split_ifs with hc
      · exact absurd (congrArg some hc) slash
      · exact fun he => backslash (congrArg some he)
    cases cs with
    | nil => simp [first]
    | cons d ds =>
      have hd : (if d = '/' then '\\' else d) ≠ ':' := by
        split_ifs
        · decide
        · intro he
          exact drive (congrArg some he)
      dsimp only [List.map_cons]
      split
      · next he => exact absurd (List.cons.inj he).1 first
      · next he => exact absurd (List.cons.inj he).1 first
      · next he => exact absurd (List.cons.inj (List.cons.inj he).2).1 hd
      · rfl

/-! ## Normal forms -/

theorem ne_empty_of_normalized (h : normalizeRelativePath value = .ok normalized) :
    normalized ≠ "" := by
  cases hp : Text.parts (slashed value) with
  | nil =>
    rw [(normalizeRelativePath_ok h).2, hp]
    decide
  | cons name names =>
    obtain ⟨t, ht, -⟩ := normalized_eq_append h hp
    obtain ⟨ne, -, -⟩ := plainName_of_mem_parts (hp ▸ List.mem_cons_self)
    intro he
    rw [he] at ht
    exact ne (String.toList_eq_nil_iff.1 (List.append_eq_nil_iff.1 ht.symm).1)

/-- A normal form without a drive is accepted, and stays as it is. -/
theorem normalize_normalized (h : normalizeRelativePath value = .ok normalized)
    (drive : splitDrive normalized = none) : normalizeRelativePath normalized = .ok normalized := by
  have noBackslash := slashless h
  have head := head_of_normalized h
  have backslash : normalized.toList.head? ≠ some '\\' :=
    fun he => noBackslash (List.mem_of_mem_head? he)
  obtain ⟨up, form⟩ := normalizeRelativePath_ok h
  unfold normalizeRelativePath
  rw [slashed_eq_self noBackslash, parts_normalized h, if_neg, if_neg, if_neg]
  · split_ifs at form ⊢ with hp
    · rw [form]
    · rw [form]
  · exact fun hm => up (List.mem_of_elem_eq_true hm)
  · rw [isWindowsAbsolute_eq_false head backslash drive, drive]
    simp [head]
  · rw [not_or]
    exact ⟨ne_empty_of_normalized h, fun hm => nulless h (List.mem_of_elem_eq_true hm)⟩

/-- The pieces of a normal form are the names of the path. -/
theorem split_normalized (h : normalizeRelativePath value = .ok normalized) :
    normalized = "." ∨ Text.split '/' normalized = Text.parts (slashed value) := by
  have form := (normalizeRelativePath_ok h).2
  cases hp : Text.parts (slashed value) with
  | nil =>
    rw [hp, if_pos rfl] at form
    exact .inl form
  | cons name names =>
    right
    rw [hp, if_neg (List.cons_ne_nil name names)] at form
    have pieces : Text.splitBy (· == '/') normalized.toList =
        (name :: names).map String.toList := by
      rw [form, String.toList_intercalate]
      refine Text.splitBy_intercalate fun p hm => ?_
      rw [← List.map_cons] at hm
      obtain ⟨n, hn, rfl⟩ := List.mem_map.1 hm
      exact (plainName_of_mem_parts (hp ▸ hn)).2.2
    unfold Text.split
    rw [pieces, List.map_map, String.ofList_comp_toList, List.map_id]

theorem normalForm_iff (h : normalizeRelativePath value = .ok normalized) :
    NormalForm normalized ↔ ¬ HidesDrive value := by
  rw [← splitDrive_normalized h]
  refine ⟨fun form => form.driveless.1, fun drive => ?_⟩
  have head := head_of_normalized h
  have backslash : normalized.toList.head? ≠ some '\\' :=
    fun he => slashless h (List.mem_of_mem_head? he)
  refine {
    accepted := normalize_normalized h drive
    rootless := ⟨head, backslash⟩
    driveless := ⟨drive, isWindowsAbsolute_eq_false head backslash drive⟩
    slashes := slashless h
    names := (split_normalized h).imp_right fun split name hn => ?_ }
  rw [split] at hn
  obtain ⟨ne, dot, -⟩ := plainName_of_mem_parts hn
  exact ⟨ne, dot, fun up => (normalizeRelativePath_ok h).1 (up ▸ hn)⟩

/-- One normal form means the same names. -/
theorem normalized_eq_iff {value' normalized' : String}
    (h : normalizeRelativePath value = .ok normalized)
    (h' : normalizeRelativePath value' = .ok normalized') :
    normalized = normalized' ↔ Text.parts (slashed value) = Text.parts (slashed value') := by
  constructor
  · intro he
    rw [← parts_normalized h, ← parts_normalized h', he]
  · intro hp
    rw [(normalizeRelativePath_ok h).2, (normalizeRelativePath_ok h').2, hp]

/-- What is accepted gets a normal form unless it hides a drive; and two accepted paths get one text
just when they have the same names. -/
theorem normalizeRelativePath_normalForm (value value' : String) :
    (∀ normalized, normalizeRelativePath value = .ok normalized →
      (NormalForm normalized ↔ ¬ HidesDrive value)) ∧
    ∀ normalized normalized', normalizeRelativePath value = .ok normalized →
      normalizeRelativePath value' = .ok normalized' →
        (normalized = normalized' ↔
          Text.parts (slashed value) = Text.parts (slashed value')) :=
  ⟨fun _ => normalForm_iff, fun _ _ => normalized_eq_iff⟩

/-- A dot in front hides the drive of a path, which is then accepted. -/
theorem hidden_drive : normalizeRelativePath "./C:/x" = .ok "C:/x" ∧
    normalizeRelativePath "C:/x" = .error "path must be relative" ∧ ¬ NormalForm "C:/x" := by
  refine ⟨by decide +kernel, by decide +kernel, fun form => ?_⟩
  have := form.driveless.1
  revert this
  decide +kernel

end CodemcpBridge

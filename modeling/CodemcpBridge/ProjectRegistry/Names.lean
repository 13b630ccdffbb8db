import CodemcpBridge.Text

/-!
# Names between slashes

A relative path in its text form and the names it is made of: what is split at the slashes is what
was joined with them.
-/

namespace CodemcpBridge

variable {names : List String}

theorem Text.splitBy_append {sep : Char → Bool} {a b : List Char} {c : Char}
    (ha : ∀ d ∈ a, sep d = false) (hc : sep c = true) :
    Text.splitBy sep (a ++ c :: b) = a :: Text.splitBy sep b := by
  induction a with
  | nil => simp [Text.splitBy, hc]
  | cons d a ih =>
    rw [List.cons_append, Text.splitBy, if_neg (by simp [ha d List.mem_cons_self]),
      ih fun e he => ha e (List.mem_cons_of_mem d he)]

theorem Text.splitBy_of_forall {sep : Char → Bool} {a : List Char} (ha : ∀ d ∈ a, sep d = false) :
    Text.splitBy sep a = [a] := by
  induction a with
  | nil => rfl
  | cons d a ih =>
    rw [Text.splitBy, if_neg (by simp [ha d List.mem_cons_self]),
      ih fun e he => ha e (List.mem_cons_of_mem d he)]

theorem Text.forall_mem_splitBy {sep : Char → Bool} {s p : List Char} (h : p ∈ Text.splitBy sep s) :
    ∀ d ∈ p, sep d = false := by
  induction s generalizing p with
  | nil =>
    rw [Text.splitBy, List.mem_singleton] at h
    simp [h]
  | cons c s ih =>
    rw [Text.splitBy] at h
    by_cases hc : sep c = true
    · rw [if_pos hc, List.mem_cons] at h
      rcases h with rfl | h
      · simp
      · exact ih h
    · rw [if_neg hc] at h
      split at h
      · rw [List.mem_singleton] at h
        simp [h, hc]
      · rename_i q qs hq
        rcases List.mem_cons.1 h with rfl | h
        · intro d hd
          rcases List.mem_cons.1 hd with rfl | hd
          · simpa using hc
          · exact ih (hq ▸ List.mem_cons_self) d hd
        · exact ih (hq ▸ List.mem_cons_of_mem q h)

/-- A name between slashes, other than the empty one and the dot. -/
def PlainName (name : String) : Prop := name ≠ "" ∧ name ≠ "." ∧ '/' ∉ name.toList

theorem plainName_of_mem_parts {s name : String} (h : name ∈ Text.parts s) : PlainName name := by
  unfold Text.parts Text.split at h
  rw [List.mem_filter, List.mem_map] at h
  obtain ⟨⟨piece, hp, rfl⟩, hne⟩ := h
  rw [decide_eq_true_eq] at hne
  refine ⟨hne.1, hne.2, fun hs => ?_⟩
  rw [String.toList_ofList] at hs
  exact absurd (Text.forall_mem_splitBy hp _ hs) (by decide)

theorem Text.splitBy_intercalate {pieces : List (List Char)} {piece : List Char}
    (h : ∀ p ∈ piece :: pieces, '/' ∉ p) :
    Text.splitBy (· == '/') (['/'].intercalate (piece :: pieces)) = piece :: pieces := by
  have slashless {p : List Char} (hp : '/' ∉ p) : ∀ d ∈ p, (d == '/') = false := fun d hd =>
    beq_eq_false_iff_ne.2 fun e => hp (e ▸ hd)
  induction pieces generalizing piece with
  | nil =>
    rw [List.intercalate_singleton]
    exact Text.splitBy_of_forall (slashless (h piece List.mem_cons_self))
  | cons next pieces ih =>
    rw [List.intercalate_cons_cons, List.append_assoc, List.singleton_append,
      Text.splitBy_append (slashless (h piece List.mem_cons_self)) rfl,
      ih fun p hp => h p (List.mem_cons_of_mem piece hp)]

/-- Names joined by slashes are read back. -/
theorem Text.parts_intercalate (h : ∀ name ∈ names, PlainName name) :
    Text.parts ("/".intercalate names) = names := by
  cases names with
  | nil => decide
  | cons name rest =>
    have split : Text.splitBy (· == '/') ("/".intercalate (name :: rest)).toList =
        (name :: rest).map String.toList := by
      rw [String.toList_intercalate]
      refine Text.splitBy_intercalate fun p hp => ?_
      rw [← List.map_cons] at hp
      obtain ⟨n, hn, rfl⟩ := List.mem_map.1 hp
      exact (h n hn).2.2
    unfold Text.parts Text.split
    rw [split, List.map_map]
    simp only [String.ofList_comp_toList, List.map_id]
    exact List.filter_eq_self.2 fun n hn => decide_eq_true ⟨(h n hn).1, (h n hn).2.1⟩

/-- A joined path begins with its first name, and a slash if there are more. -/
theorem toList_intercalate_cons (name : String) (rest : List String) :
    ∃ t, ("/".intercalate (name :: rest)).toList = name.toList ++ t ∧
      (t ≠ [] → t.head? = some '/') := by
  rw [String.toList_intercalate, List.map_cons]
  cases rest with
  | nil => exact ⟨[], by simp, fun h => absurd rfl h⟩
  | cons next rest =>
    refine ⟨'/' :: ['/'].intercalate (next.toList :: rest.map String.toList), ?_, fun _ => rfl⟩
    rw [List.map_cons]
    exact (List.intercalate_cons_cons ..).trans (by simp)

theorem Text.splitBy_ne_nil (sep : Char → Bool) (s : List Char) : Text.splitBy sep s ≠ [] := by
  cases s with
  | nil => exact List.cons_ne_nil _ _
  | cons c s =>
    rw [Text.splitBy]
    split_ifs
    · exact List.cons_ne_nil _ _
    · split <;> exact List.cons_ne_nil _ _

/-- What is split at a character and joined with it is as before. -/
theorem Text.intercalate_splitBy (c : Char) (s : List Char) :
    [c].intercalate (Text.splitBy (· == c) s) = s := by
  induction s with
  | nil => rfl
  | cons d s ih =>
    obtain ⟨p, ps, hp⟩ := List.exists_cons_of_ne_nil (Text.splitBy_ne_nil (· == c) s)
    rw [hp] at ih
    rw [Text.splitBy, hp]
    by_cases hd : d = c
    · rw [if_pos (beq_iff_eq.2 hd), List.intercalate_cons_cons, ih, hd]
      rfl
    · rw [if_neg (by simpa using hd)]
      cases ps with
      | nil => rw [← ih, List.intercalate_singleton, List.intercalate_singleton]
      | cons q ps =>
        rw [← ih, List.intercalate_cons_cons, List.intercalate_cons_cons]
        rfl

theorem Text.splitBy_append_sep {sep : Char → Bool} {a b : List Char} {c : Char}
    (hc : sep c = true) :
    Text.splitBy sep (a ++ c :: b) = Text.splitBy sep a ++ Text.splitBy sep b := by
  induction a with
  | nil => simp [Text.splitBy, hc]
  | cons d a ih =>
    rw [List.cons_append, Text.splitBy, ih, Text.splitBy]
    by_cases hd : sep d = true
    · rw [if_pos hd, if_pos hd, List.cons_append]
    · obtain ⟨p, ps, hp⟩ := List.exists_cons_of_ne_nil (Text.splitBy_ne_nil sep a)
      rw [if_neg hd, if_neg hd, hp]
      rfl

/-- What stands between two separators, or an end, is a piece. -/
theorem Text.mem_splitBy {sep : Char → Bool} {before piece after : List Char}
    (hp : ∀ c ∈ piece, sep c = false) (hb : ∀ c, before.getLast? = some c → sep c = true)
    (ha : ∀ c, after.head? = some c → sep c = true) :
    piece ∈ Text.splitBy sep (before ++ (piece ++ after)) := by
  have first : piece ∈ Text.splitBy sep (piece ++ after) := by
    cases after with
    | nil => rw [List.append_nil, Text.splitBy_of_forall hp]; exact List.mem_cons_self
    | cons c after => rw [Text.splitBy_append hp (ha c rfl)]; exact List.mem_cons_self
  rcases List.eq_nil_or_concat before with rfl | ⟨init, c, rfl⟩
  · exact first
  · rw [List.concat_eq_append] at hb ⊢
    rw [List.append_assoc, List.singleton_append,
      Text.splitBy_append_sep (hb c List.getLast?_concat)]
    exact List.mem_append_right _ first

end CodemcpBridge

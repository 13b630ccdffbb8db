import CodemcpBridge.Config.Written

/-!
# Documents that are written as TOML

The lines of a document do one after the other what they say.  A document of tables with plain keys
is read as these tables.
-/

namespace CodemcpBridge

namespace Tomllib

open Parsing Parse Encoding

/-! ## Documents -/

/-- The lines of a document, each with its end. -/
def document (es : List Entry) : List Char := es.flatMap fun e => e.write ++ ['\n']

/-- What the lines do one after the other. -/
def applyAll (r : Output × Key) (es : List Entry) : Option (Output × Key) :=
  es.foldlM (fun r e => e.apply r.1 r.2) r

/-- A text in quotes holds `DEL`. -/
def HoldsDelete (es : List Entry) : Prop := ∃ e ∈ es, ∃ t ∈ e.quoted, delete ∈ t

instance (es : List Entry) : Decidable (HoldsDelete es) :=
  inferInstanceAs (Decidable (∃ e ∈ es, ∃ t ∈ e.quoted, delete ∈ t))

theorem statements_document (es : List Entry) (h : ∀ e ∈ es, e.Plain) {n : ℕ} (hn : es.length < n)
    (out : Output) (header : Key) : statements n out header (document es) =
      if HoldsDelete es then none else (applyAll (out, header) es).map fun r => (r.1.data, []) := by
  induction es generalizing n out header with
  | nil =>
    obtain ⟨n, rfl⟩ : ∃ n', n = n' + 1 := ⟨n - 1, by omega⟩
    rw [if_neg (by simp [HoldsDelete])]
    rfl
  | cons e es ih =>
    obtain ⟨n, rfl⟩ : ∃ n', n = n' + 1 := ⟨n - 1, by omega⟩
    have htext : document (e :: es) = e.write ++ '\n' :: document es := by
      simp [document]
    have hcons : HoldsDelete (e :: es) ↔ (∃ t ∈ e.quoted, delete ∈ t) ∨ HoldsDelete es := by
      simp [HoldsDelete]
    rw [htext, statements_entry e (h e List.mem_cons_self)]
    by_cases he : ∃ t ∈ e.quoted, delete ∈ t
    · rw [if_pos he, if_pos (hcons.2 (.inl he))]
    · rw [if_neg he]
      change _ = if _ then none else ((e.apply out header).bind fun r => applyAll r es).map _
      rcases e.apply out header with _ | ⟨out', header'⟩
      · by_cases hd : HoldsDelete (e :: es)
        · rw [if_pos hd]
          rfl
        · rw [if_neg hd]
          rfl
      · have hrest := ih (fun e he => h e (List.mem_cons_of_mem _ he)) (n := n)
          (by rw [List.length_cons] at hn; omega) out' header'
        rw [Option.bind_some, Option.bind_some, hrest]
        by_cases hd : HoldsDelete es
        · rw [if_pos hd, if_pos (hcons.2 (.inr hd))]
        · rw [if_neg hd, if_neg]
          intro hd'
          exact (hcons.1 hd').elim he hd

theorem joinBreaks_of_notMem : ∀ {s : List Char}, '\r' ∉ s → joinBreaks s = s
  | [], _ => rfl
  | c :: s, h => by
      rw [List.mem_cons, not_or] at h
      rw [joinBreaks, joinBreaks_of_notMem h.2]
      rintro s' rfl
      exact absurd rfl h.1

theorem escapeChar_noReturn (c : Char) : '\r' ∉ escapeChar c := by
  by_cases hc : c.toNat < 32
  · have : ∀ n < 32, '\r' ∉ escapeChar (Char.ofNat n) := by decide +kernel
    have := this c.toNat hc
    rwa [Char.ofNat_toNat] at this
  · by_cases hq : c = '"'
    · subst hq
      decide
    by_cases hb : c = '\\'
    · subst hb
      decide
    rw [escapeChar_of_le (by omega) hq hb, List.mem_singleton]
    rintro rfl
    exact hc (by decide)

theorem quote_noReturn (t : List Char) : '\r' ∉ quote t := by
  unfold quote
  rw [List.mem_cons, List.mem_append, List.mem_flatMap, List.mem_singleton]
  rintro (h | ⟨c, -, hc⟩ | h)
  · exact absurd h (by decide)
  · exact escapeChar_noReturn c hc
  · exact absurd h (by decide)

theorem intercalate_quote_noReturn (ts : List (List Char)) :
    '\r' ∉ [',', ' '].intercalate (ts.map quote) := by
  induction ts with
  | nil => simp
  | cons t ts ih =>
    cases ts with
    | nil => simpa using quote_noReturn t
    | cons u ts =>
      rw [List.map_cons, List.map_cons, List.intercalate_cons_cons]
      rw [List.map_cons] at ih
      simp [quote_noReturn, ih]

theorem Bare.noReturn {name : List Char} (h : Bare name) : '\r' ∉ name :=
  fun hm => absurd (h.chars _ hm) (by decide)

theorem Written.noReturn (v : Written) (h : v.Plain) : '\r' ∉ v.write := by
  cases v with
  | text t => exact quote_noReturn t
  | texts ts =>
    unfold Written.write
    rw [List.mem_cons, List.mem_append, List.mem_singleton]
    rintro (h | h | h)
    · exact absurd h (by decide)
    · exact intercalate_quote_noReturn ts h
    · exact absurd h (by decide)
  | plain word v => exact h.2.1

theorem Entry.noReturn (e : Entry) (h : e.Plain) : '\r' ∉ e.write := by
  cases e with
  | comment body =>
    unfold Entry.write
    rw [List.mem_cons, not_or]
    exact ⟨by decide, fun hm => absurd (h _ hm) (by decide)⟩
  | blank => exact List.not_mem_nil
  | table name part =>
    cases part with
    | none =>
      have := Bare.noReturn h
      simp [Entry.write, this]
    | some t =>
      have := Bare.noReturn h
      simp [Entry.write, this, quote_noReturn]
  | pair name v =>
    have := Bare.noReturn h.1
    simp [Entry.write, this, v.noReturn h.2]

theorem document_noReturn {es : List Entry} (h : ∀ e ∈ es, e.Plain) : '\r' ∉ document es := by
  unfold document
  rw [List.mem_flatMap]
  rintro ⟨e, he, hm⟩
  rw [List.mem_append, List.mem_singleton] at hm
  rcases hm with hm | hm
  · exact e.noReturn (h e he) hm
  · exact absurd hm (by decide)

theorem loads_document (es : List Entry) (h : ∀ e ∈ es, e.Plain) : loads (document es) =
    if HoldsDelete es then none else (applyAll ({}, []) es).map fun r => r.1.data := by
  have hno := document_noReturn h
  have hlength : es.length ≤ (document es).length := by
    clear hno h
    induction es with
    | nil => simp
    | cons e es ih =>
      simp only [document, List.flatMap_cons, List.length_append, List.length_cons,
        List.length_nil] at ih ⊢
      omega
  change (statements ((joinBreaks (document es)).length + 1) {} [] (joinBreaks (document es))).map
    Prod.fst = _
  rw [joinBreaks_of_notMem hno, statements_document es h (by omega)]
  by_cases hd : HoldsDelete es
  · rw [if_pos hd, if_pos hd]
    rfl
  · rw [if_neg hd, if_neg hd, Option.map_map]
    rfl

theorem applyAll_append (r : Output × Key) (es es' : List Entry) :
    applyAll r (es ++ es') = (applyAll r es).bind fun r => applyAll r es' :=
  List.foldlM_append

theorem applyAll_cons {r : Output × Key} (r' : Output × Key) {e : Entry} {es : List Entry}
    (h : e.apply r.1 r.2 = some r') : applyAll r (e :: es) = applyAll r' es := by
  change (e.apply r.1 r.2).bind (fun r => applyAll r es) = _
  rw [h]
  rfl

theorem holdsDelete_append (es es' : List Entry) :
    HoldsDelete (es ++ es') ↔ HoldsDelete es ∨ HoldsDelete es' := by
  simp only [HoldsDelete, List.mem_append, or_and_right, exists_or]

/-! ## Entries of a table of tables -/

section Nested

variable {u : Toml.Table} {k : String} {v w : Toml}

theorem get_append_self (h : k ∉ u.map Prod.fst) : Toml.get (u ++ [(k, v)]) k = some v := by
  unfold Toml.get
  rw [List.find?_append, List.find?_eq_none.2]
  · simp
  · intro e he hk
    exact h (List.mem_map.2 ⟨e, he, eq_of_beq hk⟩)

theorem get_none (h : k ∉ u.map Prod.fst) : Toml.get u k = none := by
  unfold Toml.get
  rw [List.find?_eq_none.2]
  · rfl
  · intro e he hk
    exact h (List.mem_map.2 ⟨e, he, eq_of_beq hk⟩)

theorem set_new (h : k ∉ u.map Prod.fst) : set k v u = u ++ [(k, v)] := by
  unfold set
  rw [if_neg]
  rw [List.any_eq_true]
  rintro ⟨e, he, hk⟩
  exact h (List.mem_map.2 ⟨e, he, eq_of_beq hk⟩)

theorem set_append_self (h : k ∉ u.map Prod.fst) : set k w (u ++ [(k, v)]) = u ++ [(k, w)] := by
  unfold set
  rw [if_pos (by simp), List.map_append]
  have : (u.map fun e => if e.1 == k then (k, w) else e) = u := by
    conv_rhs => rw [← List.map_id u]
    refine List.map_congr_left fun e he => ?_
    rw [if_neg]
    · rfl
    · intro hk
      exact h (List.mem_map.2 ⟨e, he, eq_of_beq hk⟩)
  rw [this]
  simp

end Nested

/-! ## Sections -/

/-- The tables that were read stand at the top, each with plain keys. -/
structure Flat (out : Output) : Prop where
  explicit : ∀ e ∈ out.explicit, ∃ n ∈ out.data.map Prod.fst, e = [n]
  pending : out.pending = []
  frozen : ∀ f ∈ out.frozen, f.length = 2

theorem Flat.isFrozen {out : Output} (h : Flat out) (name : String) :
    isFrozen out.frozen [name] = false := by
  unfold Tomllib.isFrozen
  rw [List.any_eq_false]
  intro f hf hp
  have := (List.isPrefixOf_iff_prefix.1 hp).length_le
  rw [h.frozen f hf] at this
  simp at this

theorem Flat.createDict {out : Output} (h : Flat out) {name : String}
    (hname : name ∉ out.data.map Prod.fst) :
    ∃ out', out.finalize.createDict [name] = some out' ∧ Flat out' ∧
      out'.data = out.data ++ [(name, .table [])] := by
  have hfree : ¬([name] ∈ out.finalize.explicit ∨
      Tomllib.isFrozen out.finalize.frozen [name] = true) := by
    rintro (hm | hf)
    · have hm : [name] ∈ out.pending ++ out.explicit := hm
      rw [h.pending, List.nil_append] at hm
      obtain ⟨n, hn, he⟩ := h.explicit _ hm
      exact hname ((List.cons.inj he).1 ▸ hn)
    · rw [show out.finalize.frozen = out.frozen from rfl, h.isFrozen] at hf
      cases hf
  refine ⟨{ data := out.data ++ [(name, .table [])]
            explicit := [name] :: (out.pending ++ out.explicit)
            pending := [], frozen := out.frozen }, ?_, ⟨?_, rfl, h.frozen⟩, rfl⟩
  · unfold Output.createDict
    rw [if_neg hfree]
    change (modifyNest true some [name] out.data).map _ = _
    unfold modifyNest
    rw [get_none hname]
    dsimp only
    unfold modifyNest
    rw [Option.map_some, set_new hname]
    rfl
  · intro e he
    rcases List.mem_cons.1 he with rfl | he
    · exact ⟨name, by simp, rfl⟩
    · rw [h.pending, List.nil_append] at he
      obtain ⟨n, hn, rfl⟩ := h.explicit e he
      refine ⟨n, ?_, rfl⟩
      rw [List.map_append]
      exact List.mem_append_left _ hn

theorem Flat.keyValue {out : Output} (h : Flat out) {d t : Toml.Table} {name k : String} {v : Toml}
    (hdata : out.data = d ++ [(name, .table t)]) (hname : name ∉ d.map Prod.fst)
    (hk : k ∉ t.map Prod.fst) : ∃ out', out.keyValue [name] [k] v = some out' ∧ Flat out' ∧
      out'.data = d ++ [(name, .table (t ++ [(k, v)]))] := by
  have hadd : addNew k v t = some (t ++ [(k, v)]) := by
    unfold addNew
    rw [get_none hk]
    rfl
  have hmodify : modifyNest true (addNew k v) [name] out.data =
      some (d ++ [(name, .table (t ++ [(k, v)]))]) := by
    unfold modifyNest
    rw [hdata, get_append_self hname]
    dsimp only
    unfold modifyNest
    rw [hadd, Option.map_some, set_append_self hname]
  refine ⟨{ data := d ++ [(name, .table (t ++ [(k, v)]))], explicit := out.explicit
            pending := out.pending
            frozen := if isNest v then [name, k] :: out.frozen else out.frozen },
    ?_, ⟨?_, h.pending, ?_⟩, rfl⟩
  · change (if ([] : List Key).any (· ∈ out.explicit) ∨
      Tomllib.isFrozen out.frozen [name] = true then
      none else (modifyNest true (addNew k v) [name] out.data).map fun data =>
        { out with data, pending := [] ++ out.pending
                   frozen := if isNest v then ([name] ++ [k]) :: out.frozen else out.frozen }) = _
    rw [if_neg (by simp [h.isFrozen]), hmodify]
    rfl
  · intro e he
    obtain ⟨n, hn, rfl⟩ := h.explicit e he
    rw [hdata] at hn
    exact ⟨n, by simpa using hn, rfl⟩
  · intro f hf
    dsimp only at hf
    split_ifs at hf
    · rcases List.mem_cons.1 hf with rfl | hf
      · rfl
      · exact h.frozen f hf
    · exact h.frozen f hf

/-- The pairs of a table. -/
def pairs (ps : List (String × Written)) : List Entry := ps.map fun p => .pair p.1.toList p.2

theorem Flat.applyAll_pairs {out : Output} (h : Flat out) {d t : Toml.Table} {name : String}
    (hdata : out.data = d ++ [(name, .table t)]) (hname : name ∉ d.map Prod.fst)
    (ps : List (String × Written)) (hps : (t.map Prod.fst ++ ps.map Prod.fst).Nodup) :
    ∃ out', applyAll (out, [name]) (pairs ps) = some (out', [name]) ∧ Flat out' ∧
      out'.data = d ++ [(name, .table (t ++ ps.map fun p => (p.1, p.2.value)))] := by
  induction ps generalizing out t with
  | nil => exact ⟨out, rfl, h, by simpa using hdata⟩
  | cons p ps ih =>
    have hk : p.1 ∉ t.map Prod.fst := by
      rw [List.nodup_append] at hps
      intro hm
      exact hps.2.2 _ hm _ List.mem_cons_self rfl
    obtain ⟨out₁, hkv, h₁, hd₁⟩ := h.keyValue (v := p.2.value) hdata hname hk
    obtain ⟨out₂, hrest, h₂, hd₂⟩ := ih h₁ hd₁ (by simpa using hps)
    refine ⟨out₂, ?_, h₂, by rw [hd₂]; simp⟩
    change applyAll _ (.pair p.1.toList p.2 :: pairs ps) = _
    rw [applyAll_cons (out₁, [name]), hrest]
    change (out.keyValue [name] [String.ofList p.1.toList] p.2.value).map _ = _
    rw [String.ofList_toList, hkv]
    rfl

/-- A table at the top and its pairs. -/
def top (name : String) (ps : List (String × Written)) : List Entry :=
  .table name.toList none :: pairs ps

theorem Flat.applyAll_top {out : Output} (h : Flat out) (header : Key) (name : String)
    (hname : name ∉ out.data.map Prod.fst) (ps : List (String × Written))
    (hps : (ps.map Prod.fst).Nodup) : ∃ out', applyAll (out, header) (top name ps) =
      some (out', [name]) ∧ Flat out' ∧
        out'.data = out.data ++ [(name, .table (ps.map fun p => (p.1, p.2.value)))] := by
  obtain ⟨out₁, hc, h₁, hd₁⟩ := h.createDict hname
  obtain ⟨out₂, hrest, h₂, hd₂⟩ := h₁.applyAll_pairs hd₁ hname ps (by simpa using hps)
  refine ⟨out₂, ?_, h₂, by simpa using hd₂⟩
  unfold top
  rw [applyAll_cons (out₁, [name]), hrest]
  change (out.finalize.createDict [String.ofList name.toList]).map _ = _
  rw [String.ofList_toList, hc]
  rfl

end Tomllib

end CodemcpBridge

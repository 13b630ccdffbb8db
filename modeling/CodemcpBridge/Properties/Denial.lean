import CodemcpBridge.Properties.Resolution
import Mathlib.Data.List.DropRight

/-!
# Other spellings of a denied name

Windows opens one entry under many names: letter case does not matter, trailing dots and spaces fall
away, and a colon begins the name of a stream.  The deny list looks at a name as it is typed, so a
name on the list that such an ending follows passes.
-/

namespace CodemcpBridge

open Text

namespace ProjectRegistry

/-! ## The names of an entry -/

/-- The upper case table of a Windows volume, as far as ASCII goes.  The Kelvin sign and the dotted
capital I, which Python writes with ASCII letters in lower case, are letters of their own in it. -/
structure CaseTable where
  up : Char → Char
  up_ascii : ∀ c, c.toNat < 128 → up c = c.toUpper
  ascii_of_up : ∀ c, (up c).toNat < 128 → c.toNat < 128
  up_kelvin : ∀ c, up c = up '\u212A' → c = '\u212A'
  up_dotted : ∀ c, up c = up '\u0130' → c = '\u0130'

/-- The entry that a name opens: without its stream and without dots and spaces at its end. -/
def entry (name : String) : String :=
  String.ofList ((name.toList.takeWhile (· ≠ ':')).rdropWhile fun c => c = '.' ∨ c = ' ')

/-- Two names open one entry. -/
def SameEntry (table : CaseTable) (a b : String) : Prop :=
  (entry a).toList.map table.up = (entry b).toList.map table.up

/-! ## Letter case -/

/-- All characters that are not ASCII as one. -/
def blur (c : Char) : Char := if c.toNat < 128 then c else '\u0080'

end ProjectRegistry

namespace Text

open ProjectRegistry (blur)

/-- A piece of a glob that tells no two characters apart that are not ASCII. -/
def Glob.Ascii : Glob → Bool
  | .star | .any => true
  | .char c => c.toNat < 128
  | .set _ _ => false

theorem blur_eq_iff {c d : Char} (hd : d.toNat < 128) : blur c = d ↔ c = d := by
  unfold blur
  by_cases hc : c.toNat < 128
  · rw [if_pos hc]
  · rw [if_neg hc]
    refine iff_of_false (fun h => ?_) (fun h => hc (h ▸ hd))
    rw [← h] at hd
    exact absurd hd (by decide)

theorem globMatches_blur {g : List Glob} (hg : ∀ piece ∈ g, piece.Ascii = true) (s : List Char) :
    globMatches g (s.map blur) = globMatches g s := by
  induction g generalizing s with
  | nil => cases s <;> rfl
  | cons piece g ih =>
    have rest := ih fun p hp => hg p (List.mem_cons_of_mem piece hp)
    have first := hg piece List.mem_cons_self
    cases piece with
    | star =>
      rw [globMatches, globMatches, List.map_tails, List.any_map]
      exact congrArg (fun f => s.tails.any f) (funext fun t => rest t)
    | any =>
      cases s with
      | nil => rfl
      | cons c s => exact rest s
    | char d =>
      cases s with
      | nil => rfl
      | cons c s =>
        have hd : d.toNat < 128 := by simpa [Glob.Ascii] using first
        rw [List.map_cons, globMatches, globMatches, rest s]
        refine congrArg (· && _) (Bool.eq_iff_iff.2 ?_)
        rw [beq_iff_eq, beq_iff_eq, blur_eq_iff hd]
    | set negated ranges => cases first

end Text

namespace ProjectRegistry

theorem ascii_sensitiveGlobs : ∀ pattern ∈ sensitiveGlobs,
    ∀ piece ∈ globs pattern.length pattern.toList, piece.Ascii = true := by
  decide +kernel

/-- The deny list sees no more of a name than its ASCII characters. -/
theorem isSensitivePart_congr {a b : String}
    (h : (lowerName a).toList.map blur = (lowerName b).toList.map blur) :
    isSensitivePart a = isSensitivePart b := by
  unfold isSensitivePart fnmatchcase
  rw [Bool.eq_iff_iff, List.any_eq_true, List.any_eq_true]
  refine exists_congr fun pattern => and_congr_right fun hp => ?_
  rw [← globMatches_blur (ascii_sensitiveGlobs pattern hp), h,
    globMatches_blur (ascii_sensitiveGlobs pattern hp)]

theorem toLower_of_toUpper {c d : Char} (hc : c.toNat < 128) (hd : d.toNat < 128)
    (h : c.toUpper = d.toUpper) : c.toLower = d.toLower := by
  have lower : ∀ n : Fin 128, (Char.ofNat n).toUpper.toLower = (Char.ofNat n).toLower := by
    decide +kernel
  have at_ {e : Char} (he : e.toNat < 128) : e.toUpper.toLower = e.toLower := by
    simpa using lower ⟨e.toNat, he⟩
  rw [← at_ hc, ← at_ hd, h]

theorem toNat_toUpper_lt {c : Char} (hc : c.toNat < 128) : c.toUpper.toNat < 128 := by
  have upper : ∀ n : Fin 128, (Char.ofNat n).toUpper.toNat < 128 := by decide +kernel
  simpa using upper ⟨c.toNat, hc⟩

theorem CaseTable.ascii_of_ascii (table : CaseTable) {c d : Char} (h : table.up c = table.up d)
    (hc : c.toNat < 128) : d.toNat < 128 := by
  refine table.ascii_of_up d ?_
  rw [← h, table.up_ascii c hc]
  exact toNat_toUpper_lt hc

/-- Characters that a volume takes for one are one to the deny list. -/
theorem blur_lowerChar (table : CaseTable) {c d : Char} (h : table.up c = table.up d) :
    (lowerChar c).map blur = (lowerChar d).map blur := by
  by_cases hk : c = '\u212A' ∨ d = '\u212A'
  · obtain rfl | rfl := hk
    · rw [table.up_kelvin d h.symm]
    · rw [table.up_kelvin c h]
  · by_cases hd : c = '\u0130' ∨ d = '\u0130'
    · obtain rfl | rfl := hd
      · rw [table.up_dotted d h.symm]
      · rw [table.up_dotted c h]
    · rw [not_or] at hk hd
      rw [lowerChar_of hk.1 hd.1, lowerChar_of hk.2 hd.2]
      by_cases hc : c.toNat < 128
      · have hdc := table.ascii_of_ascii h hc
        rw [table.up_ascii c hc, table.up_ascii d hdc] at h
        rw [toLower_of_toUpper hc hdc h]
      · have hdc : ¬ d.toNat < 128 := fun hd => hc (table.ascii_of_ascii h.symm hd)
        rw [toLower_of_not_ascii hc, toLower_of_not_ascii hdc]
        simp only [List.map_cons, List.map_nil, blur, if_neg hc, if_neg hdc]

theorem blur_flatMap_lowerChar (table : CaseTable) {l m : List Char}
    (h : l.map table.up = m.map table.up) :
    (l.flatMap lowerChar).map blur = (m.flatMap lowerChar).map blur := by
  induction l generalizing m with
  | nil =>
    rw [List.map_nil, eq_comm, List.map_eq_nil_iff] at h
    rw [h]
  | cons c l ih =>
    cases m with
    | nil => simp at h
    | cons d m =>
      rw [List.map_cons, List.map_cons, List.cons.injEq] at h
      rw [List.flatMap_cons, List.flatMap_cons, List.map_append, List.map_append,
        blur_lowerChar table h.1, ih h.2]

/-- Names of one entry are denied together, once they are without endings. -/
theorem SameEntry.isSensitivePart {table : CaseTable} {a b : String} (h : SameEntry table a b) :
    isSensitivePart (entry a) = isSensitivePart (entry b) := by
  refine isSensitivePart_congr ?_
  rw [toList_lowerName, toList_lowerName]
  exact blur_flatMap_lowerChar table h

/-! ## Entries of a name -/

theorem prefix_takeWhile_entry (name : String) :
    (entry name).toList <+: name.toList.takeWhile (· ≠ ':') := by
  unfold entry
  rw [String.toList_ofList]
  exact List.rdropWhile_prefix _ _

theorem prefix_entry (name : String) : (entry name).toList <+: name.toList :=
  (prefix_takeWhile_entry name).trans (List.takeWhile_prefix _)

theorem ne_colon_of_mem_entry {name : String} {c : Char} (h : c ∈ (entry name).toList) :
    c ≠ ':' := by
  have := List.mem_takeWhile_imp ((prefix_takeWhile_entry name).subset h)
  simpa using this

/-- An entry opens itself. -/
theorem entry_entry (name : String) : entry (entry name) = entry name := by
  have whole : (entry name).toList.takeWhile (· ≠ ':') = (entry name).toList :=
    List.takeWhile_eq_self_iff.2 fun c hc => by simpa using ne_colon_of_mem_entry hc
  rw [entry, whole]
  unfold entry
  rw [String.toList_ofList, List.rdropWhile_idempotent]

theorem splitDrive_of_entry {name : String} (h : entry name = name) : splitDrive name = none := by
  rw [splitDrive_eq_none]
  intro hc
  rw [← h] at hc
  exact ne_colon_of_mem_entry (List.mem_of_getElem? hc) rfl

/-! ## Drives -/

/-- What `pathlib` leaves of a name on the way down a drive. -/
def opened (name : String) : String :=
  match splitDrive name with
  | some (_, rest) => rest
  | none => name

variable {host : Host} {table : CaseTable} {root candidate : HostPath} {names : List String}
  {registry : Registry} {projectId path normalized : String} {project : ProjectSpec}

/-- No name begins with a drive that is not the root's. -/
def OwnDrives (host : Host) (root : HostPath) (names : List String) : Prop :=
  ∀ name ∈ names, ∀ d, splitDrive name = some d → host.sameName d.1 root.drive = true

/-- The way down from a path on the root's drive. -/
theorem joinpath_own (hw : host.windows = true) {path : HostPath} (own : OwnDrives host root names)
    (hd : host.sameName path.drive root.drive = true) :
    ∃ drive, host.sameName drive root.drive = true ∧ host.joinpath path names =
      { drive, root := path.root
        names := path.names ++ names.flatMap fun name => pieceNames (opened name) } := by
  induction names generalizing path with
  | nil => exact ⟨path.drive, hd, by simp [Host.joinpath]⟩
  | cons name names ih =>
    have rest : OwnDrives host root names := fun n hn => own n (List.mem_cons_of_mem name hn)
    have step : ∃ drive, host.sameName drive root.drive = true ∧ host.join path name =
        { drive, root := path.root, names := path.names ++ pieceNames (opened name) } := by
      unfold Host.join opened
      rw [if_pos hw]
      cases hs : splitDrive name with
      | none => exact ⟨path.drive, hd, rfl⟩
      | some d =>
        obtain ⟨drive, left⟩ := d
        have hr := own name List.mem_cons_self _ hs
        have equiv := host.sameName_equivalence
        refine ⟨drive, hr, ?_⟩
        simp only
        rw [if_pos (equiv.trans hr (equiv.symm hd))]
    obtain ⟨drive, hr, hj⟩ := step
    have hr' : host.sameName (host.join path name).drive root.drive = true := by
      rw [hj]
      exact hr
    obtain ⟨last, hl, hp⟩ := ih rest hr'
    refine ⟨last, hl, ?_⟩
    show host.joinpath (host.join path name) names = _
    rw [hp, hj]
    simp

theorem root_joinpath_of_empty {path : HostPath} (h : path.root = "") :
    (host.joinpath path names).root = "" := by
  induction names generalizing path with
  | nil => exact h
  | cons name names ih =>
    have step : (host.join path name).root = "" := by
      unfold Host.join
      split
      · exact h
      · split_ifs
        · exact h
        · rfl
    exact ih step

/-- Another drive leads away from the root. -/
theorem root_joinpath_foreign (hw : host.windows = true) {path : HostPath}
    (foreign : ¬ OwnDrives host root names)
    (hd : host.sameName path.drive root.drive = true) : (host.joinpath path names).root = "" := by
  have equiv := host.sameName_equivalence
  induction names generalizing path with
  | nil => exact absurd (fun _ h => absurd h List.not_mem_nil) foreign
  | cons name names ih =>
    show (host.joinpath (host.join path name) names).root = ""
    by_cases own : ∀ d, splitDrive name = some d → host.sameName d.1 root.drive = true
    · have rest : ¬ OwnDrives host root names := fun h => foreign fun n hn =>
        (List.mem_cons.1 hn).elim (fun e => e ▸ own) (h n)
      refine ih rest ?_
      unfold Host.join
      rw [if_pos hw]
      cases hs : splitDrive name with
      | none => exact hd
      | some d =>
        simp only
        rw [if_pos (equiv.trans (own d hs) (equiv.symm hd))]
        exact own d hs
    · push Not at own
      obtain ⟨d, hs, hne⟩ := own
      refine root_joinpath_of_empty ?_
      unfold Host.join
      rw [if_pos hw, hs]
      simp only
      rw [if_neg fun h => hne (equiv.trans h hd)]

/-! ## Denial -/

/-- Two paths open one entry, name by name. -/
def SamePath (host : Host) (table : CaseTable) (p q : HostPath) : Prop :=
  host.sameName p.drive q.drive = true ∧ p.root = q.root ∧
    List.Forall₂ (SameEntry table) p.names q.names

/-- `candidate` names no sensitive entry below `root`, and opens nothing that is denied under the
names of the entries themselves. -/
structure Undisguised (host : Host) (table : CaseTable) (root candidate : HostPath) : Prop where
  entries : ∀ names, host.relativeTo root candidate = some names → ∀ name ∈ names,
    ∀ other, entry other = other → SameEntry table name other → isSensitivePart other = false
  spellings : ∀ text form, normalizeRelativePath text = .ok form →
    (∀ name ∈ parts form, entry name = name) →
    SamePath host table candidate (host.joinpath root (parts form)) → isSensitive form = false

/-- A name on the list, or one with an ending on it. -/
def Listed (name : String) : Prop :=
  lowerName name ∈ sensitiveNames ∨
    ∃ ending ∈ endings, ending.toList <:+ (lowerName name).toList

theorem Listed.isSensitivePart {name : String} (h : Listed name) : isSensitivePart name = true :=
  isSensitivePart_iff.2 (h.imp_right .inl)

theorem relativeTo_own (hw : host.windows = true) (own : OwnDrives host root names) :
    host.relativeTo root (host.joinpath root names) =
      some (names.flatMap fun name => pieceNames (opened name)) := by
  have equiv := host.sameName_equivalence
  obtain ⟨drive, hd, hj⟩ := joinpath_own hw own (equiv.refl root.drive)
  rw [hj]
  exact Host.relativeTo_of (equiv.symm hd) rfl rfl

theorem relativeTo_foreign (hw : host.windows = true) (hr : root.root ≠ "")
    (foreign : ¬ OwnDrives host root names) :
    host.relativeTo root (host.joinpath root names) = none := by
  have he := root_joinpath_foreign hw foreign (host.sameName_equivalence.refl root.drive)
  unfold Host.relativeTo
  rw [if_neg]
  rintro ⟨-, h, -⟩
  exact hr (h.trans he)

theorem isInfix_opened (name : String) : (opened name).toList <:+: name.toList := by
  unfold opened
  cases hs : splitDrive name with
  | none => exact List.infix_rfl
  | some d =>
    unfold splitDrive at hs
    split at hs
    · rename_i c rest hn
      cases hs
      rw [hn, String.toList_ofList]
      exact (List.suffix_append [c, ':'] rest).isInfix
    · cases hs

theorem infix_flatMap {l m : List Char} (h : l <:+: m) (f : Char → List Char) :
    l.flatMap f <:+: m.flatMap f := by
  obtain ⟨s, t, rfl⟩ := h
  rw [List.flatMap_append, List.flatMap_append]
  exact List.infix_append _ _ _

/-- The entry of an accepted name is denied only if it is on the list or has an ending on it. -/
theorem isSensitivePart_entry {name : String} (h : isSensitivePart name = false) :
    isSensitivePart (entry (opened name)) = true ↔ Listed (entry (opened name)) := by
  constructor
  · intro hs
    rw [isSensitivePart_iff, ← or_assoc] at hs
    refine hs.resolve_right fun inside => ?_
    have within : (entry (opened name)).toList <:+: name.toList :=
      (prefix_entry _).isInfix.trans (isInfix_opened name)
    have whole : ".env.".toList <:+: (lowerName name).toList := by
      rw [toList_lowerName] at inside ⊢
      exact inside.trans (infix_flatMap within lowerChar)
    exact Bool.noConfusion (h.symm.trans (isSensitivePart_iff.2 (.inr (.inr whole))))
  · exact Listed.isSensitivePart

/-- A name of no character, or of a dot alone, is not listed. -/
theorem pieceNames_of_listed {name : String} (h : Listed (entry name)) :
    pieceNames name = [name] := by
  have dotless : ¬ Listed (entry "") ∧ ¬ Listed (entry ".") := by
    unfold Listed
    decide +kernel
  rw [pieceNames, if_neg]
  rintro (rfl | rfl)
  · exact dotless.1 h
  · exact dotless.2 h

theorem forall₂_of_append {α : Type} {R : α → α → Prop} {l m n : List α}
    (h : List.Forall₂ R (l ++ m) (l ++ n)) : List.Forall₂ R m n := by
  induction l with
  | nil => exact h
  | cons a l ih =>
    cases h with
    | cons _ h => exact ih h

theorem exists_of_forall₂ {α : Type} {R : α → α → Prop} {l m : List α} (h : List.Forall₂ R l m)
    {b : α} (hb : b ∈ m) : ∃ a ∈ l, R a b := by
  induction h with
  | nil => exact absurd hb List.not_mem_nil
  | cons hab _ ih =>
    rcases List.mem_cons.1 hb with rfl | hb
    · exact ⟨_, List.mem_cons_self, hab⟩
    · obtain ⟨a, ha, hr⟩ := ih hb
      exact ⟨a, List.mem_cons_of_mem _ ha, hr⟩

/-- What other checks let through and the deny list misses: `OwnDrives`, so that the path stays
below the root, and a name whose entry is listed. -/
def Unlisted (host : Host) (root : HostPath) (names : List String) : Prop :=
  OwnDrives host root names → ∀ name ∈ names, ¬ Listed (entry (opened name))

theorem undisguised_of_unlisted (hw : host.windows = true) (hr : root.root ≠ "")
    (hs : isSensitive normalized = false) (unlisted : Unlisted host root (parts normalized)) :
    Undisguised host table root (host.joinpath root (parts normalized)) := by
  have entries : ∀ names,
      host.relativeTo root (host.joinpath root (parts normalized)) = some names →
      ∀ name ∈ names, ∀ other, entry other = other → SameEntry table name other →
        isSensitivePart other = false := by
    intro names hn name hm other ho same
    by_cases own : OwnDrives host root (parts normalized)
    · rw [relativeTo_own hw own] at hn
      cases hn
      obtain ⟨typed, ht, hm⟩ := List.mem_flatMap.1 hm
      have hname : name = opened typed := by
        unfold pieceNames at hm
        split_ifs at hm
        · exact absurd hm List.not_mem_nil
        · exact List.mem_singleton.1 hm
      subst hname
      rw [← ho, ← same.isSensitivePart, ← Bool.not_eq_true,
        isSensitivePart_entry (isSensitivePart_of hs ht)]
      exact unlisted own typed ht
    · rw [relativeTo_foreign hw hr own] at hn
      cases hn
  refine ⟨entries, fun text form hf canonical same => ?_⟩
  have takes : ∀ name ∈ parts form, host.Takes name := fun name hm =>
    ⟨plainName_of_mem_parts hm, fun _ => splitDrive_of_entry (canonical name hm)⟩
  rw [Host.joinpath_takes takes] at same
  obtain ⟨-, hroot, hnames⟩ := same
  have own : OwnDrives host root (parts normalized) := by
    by_contra foreign
    have he := root_joinpath_foreign hw foreign (host.sameName_equivalence.refl root.drive)
    exact hr (hroot.symm.trans he)
  obtain ⟨drive, -, hj⟩ := joinpath_own hw own (host.sameName_equivalence.refl root.drive)
  rw [hj] at hnames
  rw [← Bool.not_eq_true]
  intro sensitive
  obtain ⟨other, ho, hso⟩ := List.any_eq_true.1 sensitive
  obtain ⟨name, hm, same⟩ := exists_of_forall₂ (forall₂_of_append hnames) ho
  exact Bool.noConfusion (hso.symm.trans
    (entries _ (relativeTo_own hw own) name hm other (canonical other ho) same))

/-- No name leads to the root itself. -/
theorem undisguised_root (hw : host.windows = true) (hr : root.root ≠ "") :
    Undisguised host table root root := by
  have nameless : parts "." = [] := by decide
  have here : Undisguised host table root (host.joinpath root (parts ".")) := by
    refine undisguised_of_unlisted hw hr (by decide) fun _ name hm => ?_
    rw [nameless] at hm
    exact absurd hm List.not_mem_nil
  rw [nameless] at here
  exact here

/-- On Windows, calls are proof against other spellings just where no listed entry is opened by a
path that nothing else refuses. -/
theorem resolvePath_undisguised_iff (host : Host) (hw : host.windows = true) (table : CaseTable)
    (registry : Registry) (projectId : String) (relativePath : Option String) (allowRoot : Bool) :
    (∀ project candidate normalized,
      resolvePath host registry projectId relativePath allowRoot true =
        .ok (project, candidate, normalized) →
      Undisguised host table (host.path project.root) candidate) ↔
    ∀ project text normalized, registry.lookup projectId = some project →
      relativePath = some text → text ≠ "" → text ≠ "." →
      normalizeRelativePath text = .ok normalized → isSensitive normalized = false →
      host.acceptPath (host.path project.root)
        (host.joinpath (host.path project.root) (parts normalized)) = .ok () →
      Unlisted host (host.path project.root) (parts normalized) := by
  constructor
  · intro undisguised project text normalized hp ht h1 h2 hn hs ha own name hm listed
    have located : locate host (host.path project.root) relativePath allowRoot true =
        .ok (host.joinpath (host.path project.root) (parts normalized), normalized) :=
      locate_ok.2 (.inr ⟨text, ht, h1, h2, hn, hs, rfl⟩)
    have entries := (undisguised _ _ _ (resolvePath_ok.2 ⟨hp, located, ha⟩)).entries
    have inside : opened name ∈ (parts normalized).flatMap fun n => pieceNames (opened n) :=
      List.mem_flatMap.2 ⟨name, hm, pieceNames_of_listed listed ▸ List.mem_cons_self⟩
    have same : SameEntry table (opened name) (entry (opened name)) := by
      unfold SameEntry
      rw [entry_entry]
    exact Bool.noConfusion (listed.isSensitivePart.symm.trans
      (entries _ (relativeTo_own hw own) _ inside _ (entry_entry _) same))
  · intro unlisted project candidate normalized h
    obtain ⟨hp, located, ha⟩ := resolvePath_ok.1 h
    -- the root is a candidate only where a call allows it, and no name leads to it
    obtain ⟨-, -, rfl, -⟩ | ⟨text, ht, h1, h2, hn, hs, rfl⟩ := locate_ok.1 located
    · exact undisguised_root hw (host.path_rooted _)
    · exact undisguised_of_unlisted hw (host.path_rooted _) hs
        (unlisted project text normalized hp ht h1 h2 hn hs ha)

theorem toUpper_of_not_ascii {c : Char} (hc : ¬ c.toNat < 128) : c.toUpper = c := by
  unfold Char.toUpper
  rw [dif_neg]
  rintro ⟨-, h⟩
  have : c.toNat ≤ 'z'.toNat := h
  exact hc (Nat.lt_of_le_of_lt this (by decide))

theorem eq_of_toUpper {c d : Char} (hd : ¬ d.toNat < 128) (h : c.toUpper = d.toUpper) : c = d := by
  rw [toUpper_of_not_ascii hd] at h
  by_cases hc : c.toNat < 128
  · exact absurd (h ▸ toNat_toUpper_lt hc) hd
  · rwa [toUpper_of_not_ascii hc] at h

/-- The table of a volume that knows no letters but those of ASCII. -/
def asciiTable : CaseTable where
  up := Char.toUpper
  up_ascii _ _ := rfl
  ascii_of_up c h := by
    by_contra hc
    rw [toUpper_of_not_ascii hc] at h
    exact hc h
  up_kelvin _ := eq_of_toUpper (by decide)
  up_dotted _ := eq_of_toUpper (by decide)

/-- The theorem at a path that opens `id_rsa` under another name. -/
theorem resolvePath_undisguised_plainHost :
    (∀ project candidate normalized,
      resolvePath (plainHost true) [("demo", demoProject)] "demo" (some "src/id_rsa.") false true =
        .ok (project, candidate, normalized) →
      Undisguised (plainHost true) asciiTable ((plainHost true).path project.root) candidate) ↔
    ∀ project text normalized, List.lookup "demo" [("demo", demoProject)] = some project →
      some "src/id_rsa." = some text → text ≠ "" → text ≠ "." →
      normalizeRelativePath text = .ok normalized → isSensitive normalized = false →
      (plainHost true).acceptPath ((plainHost true).path project.root)
        ((plainHost true).joinpath ((plainHost true).path project.root) (parts normalized)) =
          .ok () →
      Unlisted (plainHost true) ((plainHost true).path project.root) (parts normalized) :=
  resolvePath_undisguised_iff (plainHost true) rfl asciiTable [("demo", demoProject)] "demo"
    (some "src/id_rsa.") false

/-- `id_rsa.` is accepted, and opens `id_rsa`. -/
theorem trailing_dot_resolved : ¬ ∀ project candidate normalized,
    resolvePath (plainHost true) [("demo", demoProject)] "demo" (some "src/id_rsa.") false true =
      .ok (project, candidate, normalized) →
    Undisguised (plainHost true) asciiTable ((plainHost true).path project.root) candidate := by
  intro undisguised
  have entries := (undisguised demoProject
    { drive := "c:", root := "\\", names := ["srv", "demo", "src", "id_rsa."] } "src/id_rsa."
    (by decide +kernel)).entries
  exact absurd (entries ["src", "id_rsa."] (by decide +kernel) "id_rsa." (by decide) "id_rsa"
    (by decide +kernel) (by unfold SameEntry; decide +kernel)) (by decide +kernel)

end ProjectRegistry

end CodemcpBridge

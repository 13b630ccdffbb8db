import CodemcpBridge.ProjectRegistry.Names
import CodemcpBridge.ProjectRegistry.Resolve

/-!
# Where a path leads

A path that `resolvePath` accepts without `allowRoot` is confined to the project when its normal
form names something and, on Windows, no name in it begins with a drive.  The other paths are
accepted too when nothing else stops them: `./` is the root itself, and a drive inside a path is
taken off a name after the name was checked.
-/

namespace CodemcpBridge

open ProjectRegistry

variable {host : Host} {registry : Registry} {projectId path normalized : String}
  {root candidate : HostPath} {names : List String} {project : ProjectSpec} {allowRoot : Bool}

/-! ## Normal paths -/

/-- What a normal form is made of. -/
theorem normalizeRelativePath_ok (h : normalizeRelativePath path = .ok normalized) :
    ".." ∉ Text.parts (slashed path) ∧
      normalized = if Text.parts (slashed path) = [] then "."
        else "/".intercalate (Text.parts (slashed path)) := by
  unfold normalizeRelativePath at h
  split_ifs at h with h1 h2 h3 h4
  · cases h
    exact ⟨fun hd => h3 (List.elem_eq_true_of_mem hd), (if_pos h4).symm⟩
  · cases h
    exact ⟨fun hd => h3 (List.elem_eq_true_of_mem hd), (if_neg h4).symm⟩

/-- The names of a normal form are those of the path it was made of. -/
theorem parts_normalized (h : normalizeRelativePath path = .ok normalized) :
    Text.parts normalized = Text.parts (slashed path) := by
  rw [(normalizeRelativePath_ok h).2]
  split_ifs with hn
  · rw [hn]
    decide
  · exact Text.parts_intercalate fun name hm => plainName_of_mem_parts hm

/-! ## Paths that only go down -/

namespace ProjectRegistry

/-- `root` and some names below it. -/
def HostPath.below (root : HostPath) (names : List String) : HostPath :=
  { root with names := root.names ++ names }

theorem HostPath.below_nil (root : HostPath) : root.below [] = root := by simp [HostPath.below]

theorem HostPath.below_below (root : HostPath) (names more : List String) :
    (root.below names).below more = root.below (names ++ more) := by
  simp [HostPath.below]

/-- The number of characters in the names of a path. -/
def HostPath.length (path : HostPath) : ℕ := (path.names.map String.length).sum

/-- A name that `host` takes as it is. -/
def Host.Takes (host : Host) (name : String) : Prop :=
  PlainName name ∧ (host.windows = true → splitDrive name = none)

namespace Host

theorem join_takes {name : String} (h : host.Takes name) :
    host.join root name = root.below [name] := by
  have hd : (if host.windows then splitDrive name else none) = none := by
    by_cases hw : host.windows = true
    · rw [if_pos hw, h.2 hw]
    · rw [if_neg hw]
  rw [Host.join, hd, pieceNames, if_neg (by simp [h.1.1, h.1.2.1])]
  rfl

theorem joinpath_takes (h : ∀ name ∈ names, host.Takes name) :
    host.joinpath root names = root.below names := by
  induction names generalizing root with
  | nil => exact root.below_nil.symm
  | cons name names ih =>
    rw [Host.joinpath, List.foldl_cons, join_takes (h name List.mem_cons_self)]
    refine (ih fun n hn => h n (List.mem_cons_of_mem name hn)).trans ?_
    rw [HostPath.below_below]
    rfl

theorem relativeTo_of (hd : host.sameName root.drive candidate.drive = true)
    (hr : root.root = candidate.root) (hn : candidate.names = root.names ++ names) :
    host.relativeTo root candidate = some names := by
  have same (l : List String) : (l.zip (l ++ names)).all
      (fun p => host.sameName p.1 p.2) = true := by
    induction l with
    | nil => rfl
    | cons n l ih =>
      rw [List.cons_append, List.zip_cons_cons, List.all_cons,
        host.sameName_equivalence.refl n, ih]
      rfl
  unfold Host.relativeTo
  rw [hn, if_pos ⟨hd, hr, by simp, same _⟩, List.drop_left]

theorem relativeTo_below : host.relativeTo root (root.below names) = some names :=
  relativeTo_of (host.sameName_equivalence.refl _) rfl rfl

/-- Every path on the way down is looked at. -/
theorem mem_descend (h : ∀ name ∈ names, host.Takes name) {k : ℕ} (hk : k < names.length) :
    root.below (names.take (k + 1)) ∈ host.descend root names := by
  induction names generalizing root k with
  | nil => exact absurd hk (Nat.not_lt_zero k)
  | cons name names ih =>
    have rest : ∀ n ∈ names, host.Takes n := fun n hn => h n (List.mem_cons_of_mem name hn)
    rw [Host.descend, join_takes (h name List.mem_cons_self), List.mem_cons]
    cases k with
    | zero => exact .inl rfl
    | succ k =>
      right
      have down : (root.below [name]).below (names.take (k + 1)) ∈
          host.descend (root.below [name]) names := ih rest (Nat.lt_of_succ_lt_succ hk)
      rwa [HostPath.below_below] at down

theorem length_pieceNames (name : String) :
    ((pieceNames name).map String.length).sum ≤ name.length := by
  unfold pieceNames
  split_ifs <;> simp

/-- A drive is lost on the way. -/
theorem length_join (host : Host) (root : HostPath) (name : String) :
    (host.join root name).length +
      (if host.windows = true ∧ splitDrive name ≠ none then 1 else 0) ≤
        root.length + name.length := by
  unfold Host.join HostPath.length
  by_cases hw : host.windows = true
  · rw [if_pos hw]
    cases hd : splitDrive name with
    | none =>
      have := length_pieceNames name
      simp only [List.map_append, List.sum_append]
      simp
      omega
    | some d =>
      obtain ⟨drive, rest⟩ := d
      have hr : rest.length + 2 = name.length := by
        unfold splitDrive at hd
        split at hd
        · rename_i c cs hn
          cases hd
          rw [← String.length_toList, ← String.length_toList, hn]
          simp
        · cases hd
      have := length_pieceNames rest
      rw [if_pos ⟨hw, by simp⟩]
      simp only
      split_ifs
      · simp only [List.map_append, List.sum_append]
        omega
      · simp only
        omega
  · have := length_pieceNames name
    simp [hw]
    omega

theorem length_joinpath (host : Host) (root : HostPath) (names : List String) :
    (host.joinpath root names).length ≤ root.length + (names.map String.length).sum := by
  induction names generalizing root with
  | nil => simp [Host.joinpath]
  | cons name names ih =>
    have hj := host.length_join root name
    have hn := ih (host.join root name)
    rw [List.map_cons, List.sum_cons]
    show (host.joinpath (host.join root name) names).length ≤ _
    omega

/-- A path with a drive in it is not the path below the root that it is written as. -/
theorem joinpath_ne_below (hw : host.windows = true) {name : String} (hm : name ∈ names)
    (hd : splitDrive name ≠ none) : host.joinpath root names ≠ root.below names := by
  suffices h : (host.joinpath root names).length < root.length + (names.map String.length).sum by
    intro e
    rw [e, HostPath.length, HostPath.below, List.map_append, List.sum_append] at h
    exact Nat.lt_irrefl _ h
  induction names generalizing root with
  | nil => exact absurd hm List.not_mem_nil
  | cons first names ih =>
    have hj := host.length_join root first
    have hn := host.length_joinpath (host.join root first) names
    rw [List.map_cons, List.sum_cons]
    show (host.joinpath (host.join root first) names).length < _
    rcases List.mem_cons.1 hm with rfl | hm
    · rw [if_pos ⟨hw, hd⟩] at hj
      omega
    · have : (host.joinpath (host.join root first) names).length <
          (host.join root first).length + (names.map String.length).sum := ih hm
      omega

end Host

/-! ## Confinement -/

/-- `candidate` is a path strictly below `root` that is written as `normalized`, without a sensitive
name, and that no link is on the way to. -/
structure Confined (host : Host) (root candidate : HostPath) (normalized : String) : Prop where
  below : ∃ names, names ≠ [] ∧ candidate = root.below names
  joined : candidate = root.below (Text.parts normalized)
  relative : normalized.toList.head? ≠ some '/' ∧
    (host.windows = true → splitDrive normalized = none)
  inside : ".." ∉ Text.parts normalized
  plain : ∀ name ∈ Text.parts normalized, isSensitivePart name = false
  direct : ∀ k ≤ (Text.parts normalized).length,
    k = 0 ∨ host.exists_ (root.below ((Text.parts normalized).take k)) = true ∨
        host.isSymlink (root.below ((Text.parts normalized).take k)) = true →
      host.isReparsePoint (root.below ((Text.parts normalized).take k)) = false

/-- The normal form names something, and on Windows no name in it begins with a drive. -/
def Straight (host : Host) (normalized : String) : Prop :=
  Text.parts normalized ≠ [] ∧
    (host.windows = true → ∀ name ∈ Text.parts normalized, splitDrive name = none)

theorem get_ok : get registry projectId = .ok project ↔
    registry.lookup projectId = some project := by
  unfold get
  cases registry.lookup projectId <;> simp

/-- A text that names something is located below the root if its normal form is not sensitive. -/
theorem locate_text {text : String} (h1 : text ≠ "") (h2 : text ≠ ".") :
    locate host root (some text) allowRoot true = .ok (candidate, normalized) ↔
      normalizeRelativePath text = .ok normalized ∧ isSensitive normalized = false ∧
        candidate = host.joinpath root (Text.parts normalized) := by
  unfold locate
  rw [Option.filter_some_pos (by simp [h1, h2])]
  cases hn : normalizeRelativePath text with
  | error message => simp [hn]
  | ok form =>
    by_cases hs : isSensitive form = true
    · simp only [hn, hs, and_self, if_true, reduceCtorEq, Except.ok.injEq, false_iff]
      rintro ⟨rfl, h, -⟩
      exact Bool.noConfusion (hs.symm.trans h)
    · simp only [hn]
      rw [if_neg fun h => hs h.2]
      simp only [Except.ok.injEq, Prod.mk.injEq]
      constructor
      · rintro ⟨rfl, rfl⟩
        exact ⟨rfl, by simpa using hs, rfl⟩
      · rintro ⟨rfl, -, rfl⟩
        exact ⟨rfl, rfl⟩

/-- What is located is the root, asked for by a text that names nothing, or what a text names. -/
theorem locate_ok {relativePath : Option String} :
    locate host root relativePath allowRoot true = .ok (candidate, normalized) ↔
      (allowRoot = true ∧ (∀ text, relativePath = some text → text = "" ∨ text = ".") ∧
        candidate = root ∧ normalized = ".") ∨
      ∃ text, relativePath = some text ∧ text ≠ "" ∧ text ≠ "." ∧
        normalizeRelativePath text = .ok normalized ∧ isSensitive normalized = false ∧
        candidate = host.joinpath root (Text.parts normalized) := by
  by_cases named : ∃ text, relativePath = some text ∧ text ≠ "" ∧ text ≠ "."
  · obtain ⟨text, rfl, h1, h2⟩ := named
    rw [locate_text h1 h2, or_iff_right (fun h => (h.2.1 text rfl).elim h1 h2)]
    constructor
    · intro h
      exact ⟨text, rfl, h1, h2, h⟩
    · rintro ⟨_, ⟨⟩, -, -, h⟩
      exact h
  · have nothing : relativePath.filter (fun p => decide (p ≠ "" ∧ p ≠ ".")) = none := by
      rw [Option.filter_eq_none_iff]
      intro text ht hp
      exact named ⟨text, ht, of_decide_eq_true hp⟩
    have blank : ∀ text, relativePath = some text → text = "" ∨ text = "." := by
      intro text ht
      by_contra h
      rw [not_or] at h
      exact named ⟨text, ht, h⟩
    rw [or_iff_left (fun h => by obtain ⟨text, ht, h1, h2, -⟩ := h; exact named ⟨text, ht, h1, h2⟩)]
    unfold locate
    rw [nothing]
    cases allowRoot with
    | false => simp
    | true =>
      simp only [if_true, Except.ok.injEq, Prod.mk.injEq, true_and]
      constructor
      · rintro ⟨rfl, rfl⟩
        exact ⟨blank, rfl, rfl⟩
      · rintro ⟨-, rfl, rfl⟩
        exact ⟨rfl, rfl⟩

/-- An accepted path is registered, located and admitted. -/
theorem resolvePath_ok {relativePath : Option String} :
    resolvePath host registry projectId relativePath allowRoot true =
        .ok (project, candidate, normalized) ↔
      registry.lookup projectId = some project ∧
        locate host (host.path project.root) relativePath allowRoot true =
          .ok (candidate, normalized) ∧
        host.acceptPath (host.path project.root) candidate = .ok () := by
  unfold resolvePath
  simp only [bind_eq_ok, get_ok]
  constructor
  · rintro ⟨_, hp, ⟨_, _⟩, hl, _, ha, ⟨⟩⟩
    exact ⟨hp, hl, ha⟩
  · rintro ⟨hp, hl, ha⟩
    exact ⟨project, hp, (candidate, normalized), hl, (), ha, rfl⟩

/-- What `acceptPath` has looked at. -/
theorem isReparsePoint_of_acceptPath (h : host.acceptPath root candidate = .ok ()) {item : HostPath}
    (hi : item ∈ host.existingComponents root candidate) : host.isReparsePoint item = false := by
  unfold Host.acceptPath at h
  cases hr : host.resolve root with
  | none => simp [hr] at h
  | some base =>
    cases hc : host.resolve candidate with
    | none => simp [hr, hc] at h
    | some resolved =>
      simp only [hr, hc] at h
      split_ifs at h with h1 h2
      simpa using fun hp => h2 (List.any_eq_true.2 ⟨item, hi, hp⟩)

theorem isSensitivePart_of (h : isSensitive normalized = false) {name : String}
    (hn : name ∈ Text.parts normalized) : isSensitivePart name = false := by
  rw [← Bool.not_eq_true]
  intro hs
  exact Bool.noConfusion (h.symm.trans (List.any_eq_true.2 ⟨name, hn, hs⟩))

theorem splitDrive_eq_none {name : String} :
    splitDrive name = none ↔ name.toList[1]? ≠ some ':' := by
  unfold splitDrive
  cases name.toList with
  | nil => simp
  | cons c cs =>
    cases cs with
    | nil => simp
    | cons d cs =>
      by_cases hd : d = ':'
      · simp [hd]
      · simp [hd]

theorem relative_of_straight (hn : normalizeRelativePath path = .ok normalized)
    (straight : Straight host normalized) : normalized.toList.head? ≠ some '/' ∧
      (host.windows = true → splitDrive normalized = none) := by
  obtain ⟨name, rest, hp⟩ := List.exists_cons_of_ne_nil straight.1
  have form : normalized = "/".intercalate (name :: rest) := by
    have := (normalizeRelativePath_ok hn).2
    rwa [← parts_normalized hn, if_neg straight.1, hp] at this
  have first : name ∈ Text.parts normalized := hp ▸ List.mem_cons_self
  obtain ⟨hne, -, hslash⟩ := plainName_of_mem_parts first
  obtain ⟨t, ht, hhead⟩ := toList_intercalate_cons name rest
  rw [← form] at ht
  rw [ht, splitDrive_eq_none, ht]
  have drive (hw : host.windows = true) := splitDrive_eq_none.1 (straight.2 hw name first)
  cases hl : name.toList with
  | nil => exact absurd (String.toList_eq_nil_iff.1 hl) hne
  | cons c cs =>
    rw [hl] at hslash drive
    refine ⟨fun h => hslash ?_, fun hw => ?_⟩
    · cases h
      exact List.mem_cons_self
    · cases cs with
      | nil =>
        cases t with
        | nil => simp
        | cons d t =>
          cases hhead (List.cons_ne_nil d t)
          simp
      | cons d cs => simpa using drive hw

/-- A straight path is confined once it is admitted. -/
theorem confined_of_straight (hn : normalizeRelativePath path = .ok normalized)
    (hs : isSensitive normalized = false) (straight : Straight host normalized)
    (ha : host.acceptPath root (host.joinpath root (Text.parts normalized)) = .ok ()) :
    Confined host root (host.joinpath root (Text.parts normalized)) normalized := by
  have takes : ∀ name ∈ Text.parts normalized, host.Takes name := fun name hm =>
    ⟨plainName_of_mem_parts hm, fun hw => straight.2 hw name hm⟩
  rw [Host.joinpath_takes takes] at ha ⊢
  refine ⟨⟨_, straight.1, rfl⟩, rfl, ?_, ?_, fun name hm => isSensitivePart_of hs hm,
    fun k hk hex => isReparsePoint_of_acceptPath ha ?_⟩
  · exact relative_of_straight hn straight
  · rw [parts_normalized hn]
    exact (normalizeRelativePath_ok hn).1
  · rw [Host.existingComponents, Host.relativeTo_below, Option.getD_some, List.mem_cons]
    cases k with
    | zero => exact .inl (HostPath.below_nil root)
    | succ k =>
      right
      rw [List.mem_filter, Bool.or_eq_true]
      exact ⟨Host.mem_descend takes hk, hex.resolve_left (Nat.succ_ne_zero k)⟩

theorem straight_of_confined (h : Confined host root candidate normalized)
    (hc : candidate = host.joinpath root (Text.parts normalized)) : Straight host normalized := by
  constructor
  · intro he
    obtain ⟨names, hne, hb⟩ := h.below
    have := h.joined
    rw [he, HostPath.below_nil, hb] at this
    exact hne (by simpa [HostPath.below] using congrArg HostPath.names this)
  · intro hw name hm
    by_contra hd
    exact Host.joinpath_ne_below hw hm hd (hc.symm.trans h.joined)

/-- A call keeps inside the root just where each path that nothing else refuses is straight. -/
theorem resolvePath_confined_iff (host : Host) (registry : Registry) (projectId : String)
    (relativePath : Option String) :
    (∀ project candidate normalized,
      resolvePath host registry projectId relativePath false true =
        .ok (project, candidate, normalized) →
      Confined host (host.path project.root) candidate normalized) ↔
    ∀ project text normalized, registry.lookup projectId = some project →
      relativePath = some text → text ≠ "" → text ≠ "." →
      normalizeRelativePath text = .ok normalized → isSensitive normalized = false →
      host.acceptPath (host.path project.root)
        (host.joinpath (host.path project.root) (Text.parts normalized)) = .ok () →
      Straight host normalized := by
  constructor
  · intro confined project text normalized hp ht h1 h2 hn hs ha
    have located : locate host (host.path project.root) relativePath false true =
        .ok (host.joinpath (host.path project.root) (Text.parts normalized), normalized) :=
      locate_ok.2 (.inr ⟨text, ht, h1, h2, hn, hs, rfl⟩)
    exact straight_of_confined (confined _ _ _ (resolvePath_ok.2 ⟨hp, located, ha⟩)) rfl
  · intro straight project candidate normalized h
    obtain ⟨hp, located, ha⟩ := resolvePath_ok.1 h
    obtain ⟨⟨⟩, -⟩ | ⟨text, ht, h1, h2, hn, hs, rfl⟩ := locate_ok.1 located
    exact confined_of_straight hn hs (straight project text normalized hp ht h1 h2 hn hs ha) ha

/-- A host without links on which every path leads to itself. -/
def plainHost (windows : Bool) : Host where
  windows := windows
  sameName := (· == ·)
  sameName_equivalence := equivalence_beq
  path s := if windows then { drive := "c:", root := "\\", names := Text.parts s }
    else { root := "/", names := Text.parts s }
  path_rooted s := by cases windows <;> simp
  resolve := some
  exists_ _ := true
  isSymlink _ := false
  isReparsePoint _ := false

def demoProject : ProjectSpec where
  projectId := "demo"
  root := "srv/demo"
  allowedBranches := []
  requireCleanWorkspace := true
  codemcpConfig := "codemcp.toml"
  commands := []

/-- `./` is the root itself, and no path was required. -/
theorem root_resolved : ¬ ∀ project candidate normalized,
    resolvePath (plainHost false) [("demo", demoProject)] "demo" (some "./") false true =
      .ok (project, candidate, normalized) →
    Confined (plainHost false) ((plainHost false).path project.root) candidate normalized := by
  intro confined
  obtain ⟨names, hne, hb⟩ :=
    (confined demoProject { root := "/", names := ["srv", "demo"] } "." (by decide +kernel)).below
  have hp : Text.parts "srv/demo" = ["srv", "demo"] := by decide +kernel
  have hn : ["srv", "demo"] = Text.parts "srv/demo" ++ names := congrArg HostPath.names hb
  rw [hp] at hn
  exact hne (by simpa using hn)

/-- On Windows a drive inside a path hides the name after it from the deny list. -/
example : resolvePath (plainHost true) [("demo", demoProject)] "demo" (some "src/c:.git")
      false true =
    .ok (demoProject, { drive := "c:", root := "\\", names := ["srv", "demo", "src", ".git"] },
      "src/c:.git") := by
  decide +kernel

end ProjectRegistry

end CodemcpBridge

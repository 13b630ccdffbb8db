import CodemcpBridge.ProjectRegistry.Search

/-!
# Search roots are safe, complete and disjoint

`SafeRoots` is shown of the search of a node from the same of the searches of its entries: a
directory below which nothing was left out is a root itself, any other one gives the roots of its
entries.
-/

namespace CodemcpBridge

namespace ProjectRegistry

/-! ## Trees of directories -/

mutual

/-- Every directory of the tree holds names, and none twice. -/
def Node.Valid : Node → Prop
  | .dir entries => (entries.toList.map Prod.fst).Nodup ∧ entries.Valid
  | .link dest => dest.Valid
  | _ => True

def Entries.Valid : Entries → Prop
  | .nil => True
  | .cons name node rest => PlainName name ∧ node.Valid ∧ rest.Valid

end

/-- A regular file or a listed directory. -/
def Node.Searchable (node : Node) : Prop := node = .file ∨ ∃ entries, node = .dir entries

/-- Nothing at `path` or below is sensitive, a link or closed to the search, but for the metadata of
Git. -/
def Node.Clean (node : Node) (path : List String) : Prop :=
  ∀ rel found, (∀ name ∈ rel, lowerName name ≠ ".git") → node.find rel = some found →
    found.Searchable ∧ isSensitive (posix (path ++ rel)) = false

/-- Roots of a search of what stands at `path`: each is clean, a file that is not sensitive lies
below just one of them, and none lies below another. -/
structure SafeRoots (node : Node) (path : List String) (roots : List (List String)) : Prop where
  safe : ∀ root ∈ roots, ∃ below found, root = path ++ below ∧ node.find below = some found ∧
    found.Clean root
  complete : ∀ below, node.find below = some .file → isSensitive (posix (path ++ below)) = false →
    ∃ root ∈ roots, root <+: path ++ below ∧
      ∀ other ∈ roots, other <+: path ++ below → other = root
  disjoint : roots.Pairwise fun p q => ¬ p <+: q ∧ ¬ q <+: p

variable {lower : String → String} {node child : Node} {entries : Entries}
  {path rel : List String} {name : String} {roots : List (List String)}

theorem Entries.valid_of_mem : ∀ {entries : Entries}, entries.Valid →
    ∀ e ∈ entries.toList, PlainName e.1 ∧ e.2.Valid
  | .nil, _, _, he => absurd he List.not_mem_nil
  | .cons _ _ _, h, e, he => (List.mem_cons.1 he).elim (fun he => he ▸ ⟨h.1, h.2.1⟩)
      (Entries.valid_of_mem h.2.2 e)

/-- Induction over a tree: what holds of a node when it holds of its entries. -/
theorem Node.induct {P : Node → Prop} (file : P .file)
    (dir : ∀ entries : Entries, (∀ e ∈ entries.toList, P e.2) → P (.dir entries))
    (sealedDir : P .sealedDir) (link : ∀ dest, P dest → P (.link dest)) (special : P .special)
    (unknown : P .unknown) (node : Node) : P node :=
  @Node.rec P (fun entries => ∀ e ∈ entries.toList, P e.2) file dir sealedDir link special unknown
    (fun _ h => absurd h List.not_mem_nil)
    (fun _ _ _ hn hr e he => (List.mem_cons.1 he).elim (fun h => h ▸ hn) (hr e)) node

theorem lookup_of_mem {l : List (String × Node)} (nodup : (l.map Prod.fst).Nodup)
    {e : String × Node} (he : e ∈ l) : l.lookup e.1 = some e.2 := by
  induction l with
  | nil => exact absurd he List.not_mem_nil
  | cons f l ih =>
    rw [List.map_cons, List.nodup_cons] at nodup
    rcases List.mem_cons.1 he with rfl | he
    · exact List.lookup_cons_self
    · have hne : e.1 ≠ f.1 := fun h => nodup.1 (h ▸ List.mem_map_of_mem he)
      rw [List.lookup_cons, beq_false_of_ne hne]
      exact ih nodup.2 he

theorem mem_of_lookup {l : List (String × Node)} (h : l.lookup name = some child) :
    (name, child) ∈ l := by
  induction l with
  | nil => cases h
  | cons f l ih =>
    rw [List.lookup_cons] at h
    split at h
    · rename_i hb
      cases h
      rw [beq_iff_eq] at hb
      exact hb ▸ List.mem_cons_self
    · exact List.mem_cons_of_mem f (ih h)

theorem find_dir_cons (name : String) (rel : List String) :
    (Node.dir entries).find (name :: rel) =
      (entries.toList.lookup name).bind fun child => child.find rel := by
  rw [Node.find]

/-- What is found below a directory is found below one of its entries. -/
theorem find_dir_eq_some {found : Node} (nodup : (entries.toList.map Prod.fst).Nodup) :
    (Node.dir entries).find (name :: rel) = some found ↔
      ∃ child, (name, child) ∈ entries.toList ∧ child.find rel = some found := by
  rw [find_dir_cons]
  constructor
  · intro h
    obtain ⟨child, hl, hf⟩ := Option.bind_eq_some_iff.1 h
    exact ⟨child, mem_of_lookup hl, hf⟩
  · rintro ⟨child, hm, hf⟩
    exact Option.bind_eq_some_iff.2 ⟨child, lookup_of_mem nodup hm, hf⟩

/-- Where no link is on the way, one finds on from what is found. -/
theorem find_append {below : List String} {found : Node} (h : node.find below = some found)
    (rest : List String) : node.find (below ++ rest) = found.find rest := by
  induction below generalizing node with
  | nil =>
    rw [Node.find] at h
    rw [List.nil_append, Option.some.inj h]
  | cons name below ih =>
    cases node with
    | dir entries =>
      rw [find_dir_cons] at h
      obtain ⟨child, hl, hf⟩ := Option.bind_eq_some_iff.1 h
      rw [List.cons_append, find_dir_cons, hl]
      exact ih hf
    | _ => simp [Node.find] at h

/-- Only a directory leads on. -/
theorem find_of_not_dir {found : Node} (h : ∀ entries, node ≠ .dir entries)
    (hf : node.find rel = some found) : rel = [] ∧ found = node := by
  cases rel with
  | nil =>
    rw [Node.find] at hf
    exact ⟨rfl, (Option.some.inj hf).symm⟩
  | cons name rel =>
    cases node with
    | dir entries => exact absurd rfl (h entries)
    | _ => simp [Node.find] at hf

theorem plain_of_find {found : Node} (valid : node.Valid) (hf : node.find rel = some found) :
    ∀ name ∈ rel, PlainName name := by
  induction rel generalizing node with
  | nil => exact fun _ h => absurd h List.not_mem_nil
  | cons name rel ih =>
    by_cases hd : ∃ entries, node = .dir entries
    · obtain ⟨entries, rfl⟩ := hd
      obtain ⟨nodup, ve⟩ := valid
      obtain ⟨child, hm, hf⟩ := (find_dir_eq_some nodup).1 hf
      obtain ⟨hn, vc⟩ := Entries.valid_of_mem ve _ hm
      intro other ho
      rcases List.mem_cons.1 ho with rfl | ho
      · exact hn
      · exact ih vc hf other ho
    · rw [not_exists] at hd
      exact absurd (find_of_not_dir hd hf).1 (List.cons_ne_nil name rel)

/-! ## Sensitive paths -/

theorem isSensitive_posix (h : ∀ name ∈ path, PlainName name) :
    isSensitive (posix path) = path.any isSensitivePart := by
  unfold isSensitive posix
  rw [Text.parts_intercalate h]

/-! ## Visits -/

/-- What `_safe_search_paths` makes of one entry. -/
def visit (lower : String → String) (path : List String) (name : String) (node : Node) : Visit :=
  if lowerName name = ".git" then ([], false)
  else if node.isReparsePoint ∨ isSensitive (posix (path ++ [name])) then ([], true)
  else match node.isDir with
    | some true => node.search lower (path ++ [name])
    | some false => if node.isFile then ([path ++ [name]], false) else ([], true)
    | none => ([], true)

theorem visits_eq (path : List String) : ∀ entries : Entries, entries.visits lower path =
    entries.toList.map fun e => (e.1, visit lower path e.1 e.2)
  | .nil => rfl
  | .cons name node rest => by
    rw [Entries.visits, Entries.toList, List.map_cons, visits_eq path rest]
    rfl

/-- Below a sensitive path all is sensitive. -/
theorem isSensitive_posix_append (h : ∀ name ∈ path ++ rel, PlainName name) :
    isSensitive (posix (path ++ rel)) = false ↔
      isSensitive (posix path) = false ∧ rel.any isSensitivePart = false := by
  rw [isSensitive_posix h, isSensitive_posix fun n hn => h n (List.mem_append_left rel hn),
    List.any_append, Bool.or_eq_false_iff]

theorem isSensitivePart_git (h : lowerName name = ".git") : isSensitivePart name = true :=
  isSensitivePart_iff.2 (.inl (by rw [h]; exact List.mem_cons_self))

/-! ## Roots -/

/-- No roots are needed where no file can be reported. -/
theorem safeRoots_nil (h : ∀ below, node.find below = some .file →
    isSensitive (posix (path ++ below)) = true) : SafeRoots node path [] where
  safe _ h := absurd h List.not_mem_nil
  complete below hf hs := Bool.noConfusion (hs.symm.trans (h below hf))
  disjoint := List.Pairwise.nil

/-- What is clean is its own root. -/
theorem safeRoots_self (h : node.Clean path) : SafeRoots node path [path] where
  safe root hr := by
    rw [List.mem_singleton] at hr
    subst hr
    exact ⟨[], node, by simp, by rw [Node.find], h⟩
  complete below _ _ :=
    ⟨path, List.mem_singleton_self path, List.prefix_append path below,
      fun _ hr _ => List.mem_singleton.1 hr⟩
  disjoint := List.pairwise_singleton _ _

theorem clean_file (h : isSensitive (posix path) = false) : Node.file.Clean path := by
  intro rel found _ hf
  obtain ⟨rfl, rfl⟩ := find_of_not_dir (fun _ h => by cases h) hf
  rw [List.append_nil]
  exact ⟨.inl rfl, h⟩

/-- Names that differ part two paths. -/
theorem not_prefix_of_ne {a b : String} {p q : List String} (hp : path ++ [a] <+: p)
    (hq : path ++ [b] <+: q) (hne : a ≠ b) : ¬ p <+: q := by
  intro h
  have ha := hp.trans h
  have : path ++ [a] = path ++ [b] :=
    (List.prefix_of_prefix_length_le ha hq (by simp)).eq_of_length (by simp)
  exact hne (by simpa using this)

/-- The roots of a directory from those of its entries, in any order. -/
theorem safeRoots_dir (nodup : (entries.toList.map Prod.fst).Nodup)
    {visits : List (String × Visit)}
    (perm : visits.Perm (entries.toList.map fun e => (e.1, visit lower path e.1 e.2)))
    (children : ∀ e ∈ entries.toList,
      SafeRoots e.2 (path ++ [e.1]) (visit lower path e.1 e.2).1) :
    SafeRoots (.dir entries) path (visits.flatMap fun v => v.2.1) := by
  have mem {root : List String} : root ∈ visits.flatMap (fun v => v.2.1) ↔
      ∃ e ∈ entries.toList, root ∈ (visit lower path e.1 e.2).1 := by
    rw [List.mem_flatMap]
    constructor
    · rintro ⟨v, hv, hr⟩
      obtain ⟨e, he, rfl⟩ := List.mem_map.1 (perm.mem_iff.1 hv)
      exact ⟨e, he, hr⟩
    · rintro ⟨e, he, hr⟩
      exact ⟨_, perm.mem_iff.2 (List.mem_map_of_mem he), hr⟩
  have under {e : String × Node} {root : List String} (he : e ∈ entries.toList)
      (hr : root ∈ (visit lower path e.1 e.2).1) : path ++ [e.1] <+: root := by
    obtain ⟨below, _, rfl, -⟩ := (children e he).safe root hr
    exact List.prefix_append _ _
  refine ⟨fun root hr => ?_, fun below hf hs => ?_, ?_⟩
  · obtain ⟨e, he, hr⟩ := mem.1 hr
    obtain ⟨below, found, rfl, hf, clean⟩ := (children e he).safe root hr
    exact ⟨e.1 :: below, found, by simp, (find_dir_eq_some nodup).2 ⟨e.2, he, hf⟩, clean⟩
  · cases below with
    | nil => simp [Node.find] at hf
    | cons name below =>
      obtain ⟨child, hm, hf⟩ := (find_dir_eq_some nodup).1 hf
      have hs' : isSensitive (posix (path ++ [name] ++ below)) = false := by simpa using hs
      obtain ⟨root, hr, hp, unique⟩ := (children (name, child) hm).complete below hf hs'
      have hp' : root <+: path ++ name :: below := by simpa using hp
      refine ⟨root, mem.2 ⟨_, hm, hr⟩, hp', fun other ho hop => ?_⟩
      obtain ⟨e, he, ho⟩ := mem.1 ho
      have same : e.1 = name := by
        by_contra hne
        exact not_prefix_of_ne (under he ho) (by simp) hne hop
      have hchild : e.2 = child := by
        have := lookup_of_mem nodup he
        rw [same, lookup_of_mem nodup hm] at this
        exact (Option.some.inj this).symm
      rw [same, hchild] at ho
      exact unique other ho (by simpa using hop)
  · rw [List.pairwise_flatMap]
    constructor
    · intro v hv
      obtain ⟨e, he, rfl⟩ := List.mem_map.1 (perm.mem_iff.1 hv)
      exact (children e he).disjoint
    · have names : (entries.toList.map fun e => (e.1, visit lower path e.1 e.2)).Pairwise fun v w =>
          v.1 ≠ w.1 := by
        rw [List.pairwise_map]
        exact List.pairwise_map.1 nodup
      have sorted := (perm.pairwise_iff fun h => Ne.symm h).2 names
      refine sorted.imp_of_mem fun {v w} hv hw hne p hp q hq => ?_
      obtain ⟨e, he, rfl⟩ := List.mem_map.1 (perm.mem_iff.1 hv)
      obtain ⟨f, hf, rfl⟩ := List.mem_map.1 (perm.mem_iff.1 hw)
      exact ⟨not_prefix_of_ne (under he hp) (under hf hq) hne,
        not_prefix_of_ne (under hf hq) (under he hp) (Ne.symm hne)⟩

/-! ## The search -/

/-- A directory, listed or not, and not through a link. -/
def Node.Directory (node : Node) : Prop := node = .sealedDir ∨ ∃ entries, node = .dir entries

/-- What the search of a directory at `path` gives. -/
structure Searched (node : Node) (path : List String) (visit : Visit) : Prop where
  roots : SafeRoots node path visit.1
  whole : visit.2 = false → visit.1 = [path] ∧ node.Clean path

/-- One entry: what is left out keeps no file that could be reported, and what is kept is searched.
-/
theorem searched_visit (hp : ∀ name ∈ path, PlainName name) (hn : PlainName name)
    (valid : child.Valid)
    (ih : child.Directory → isSensitive (posix (path ++ [name])) = false →
      Searched child (path ++ [name]) (child.search lower (path ++ [name]))) :
    SafeRoots child (path ++ [name]) (visit lower path name child).1 ∧
      ((visit lower path name child).2 = false → lowerName name ≠ ".git" →
        child.Clean (path ++ [name])) := by
  have plain : ∀ n ∈ path ++ [name], PlainName n := fun n hm =>
    (List.mem_append.1 hm).elim (hp n) fun hm => List.mem_singleton.1 hm ▸ hn
  have below_sensitive (h : isSensitive (posix (path ++ [name])) = true) :
      ∀ below, child.find below = some .file →
        isSensitive (posix (path ++ [name] ++ below)) = true := by
    intro below hf
    rw [← Bool.not_eq_false]
    intro hs
    have := ((isSensitive_posix_append fun n hm => (List.mem_append.1 hm).elim (plain n)
      (plain_of_find valid hf n)).1 hs).1
    exact Bool.noConfusion (this.symm.trans h)
  unfold visit
  by_cases git : lowerName name = ".git"
  · rw [if_pos git]
    refine ⟨safeRoots_nil (below_sensitive ?_), fun _ h => absurd git h⟩
    rw [isSensitive_posix plain, List.any_append, List.any_cons, isSensitivePart_git git]
    simp
  · rw [if_neg git]
    by_cases out : child.isReparsePoint = true ∨ isSensitive (posix (path ++ [name])) = true
    · rw [if_pos out]
      refine ⟨safeRoots_nil ?_, fun h => Bool.noConfusion h⟩
      rcases out with link | sensitive
      · intro below hf
        cases child with
        | link dest => cases (find_of_not_dir (fun _ h => by cases h) hf).2
        | _ => cases link
      · exact below_sensitive sensitive
    · rw [if_neg out]
      rw [not_or, Bool.not_eq_true, Bool.not_eq_true] at out
      have left_out (h : child ≠ .file) (hd : ∀ entries, child ≠ .dir entries) :
          SafeRoots child (path ++ [name]) [] :=
        safeRoots_nil fun below hf => absurd (find_of_not_dir hd hf).2.symm h
      cases child with
      | file =>
        exact ⟨safeRoots_self (clean_file out.2), fun _ _ => clean_file out.2⟩
      | dir entries =>
        have searched := ih (.inr ⟨entries, rfl⟩) out.2
        exact ⟨searched.roots, fun h _ => (searched.whole h).2⟩
      | sealedDir =>
        have searched := ih (.inl rfl) out.2
        exact ⟨searched.roots, fun h _ => (searched.whole h).2⟩
      | link dest => exact Bool.noConfusion out.1
      | special =>
        exact ⟨left_out (by simp) (by simp), fun h => Bool.noConfusion h⟩
      | unknown =>
        exact ⟨left_out (by simp) (by simp), fun h => Bool.noConfusion h⟩

theorem search_dir (entries : Entries) (path : List String) :
    ∃ visits : List (String × Visit),
      visits.Perm (entries.toList.map fun e => (e.1, visit lower path e.1 e.2)) ∧
        (Node.dir entries).search lower path =
          if visits.any fun v => v.2.2 then (visits.flatMap fun v => v.2.1, true)
          else ([path], false) := by
  refine ⟨_, ?_, by rw [Node.search]⟩
  rw [visits_eq]
  exact List.perm_insertionSort _ _

theorem searched_search (node : Node) : ∀ path, node.Valid → (∀ name ∈ path, PlainName name) →
    isSensitive (posix path) = false → node.Directory →
      Searched node path (node.search lower path) := by
  induction node using Node.induct with
  | dir entries ih =>
    intro path valid plain hs _
    obtain ⟨nodup, ve⟩ := valid
    obtain ⟨visits, perm, hv⟩ := search_dir entries path
    have children : ∀ e ∈ entries.toList,
        SafeRoots e.2 (path ++ [e.1]) (visit lower path e.1 e.2).1 ∧
          ((visit lower path e.1 e.2).2 = false → lowerName e.1 ≠ ".git" →
            e.2.Clean (path ++ [e.1])) := by
      intro e he
      obtain ⟨hn, vc⟩ := Entries.valid_of_mem ve e he
      refine searched_visit plain hn vc fun hd hsc => ih e he _ vc ?_ hsc hd
      exact fun n hm => (List.mem_append.1 hm).elim (plain n) fun hm => List.mem_singleton.1 hm ▸ hn
    rw [hv]
    by_cases excluded : (visits.any fun v => v.2.2) = true
    · rw [if_pos excluded]
      exact ⟨safeRoots_dir nodup perm fun e he => (children e he).1, fun h => Bool.noConfusion h⟩
    · rw [if_neg excluded]
      have clean : (Node.dir entries).Clean path := by
        intro rel found hgit hf
        cases rel with
        | nil =>
          rw [Node.find] at hf
          rw [List.append_nil]
          exact ⟨.inr ⟨entries, (Option.some.inj hf).symm⟩, hs⟩
        | cons name rel =>
          obtain ⟨child, hm, hf⟩ := (find_dir_eq_some nodup).1 hf
          have kept : (visit lower path name child).2 = false := by
            rw [← Bool.not_eq_true]
            intro he
            exact excluded (List.any_eq_true.2
              ⟨_, perm.mem_iff.2 (List.mem_map_of_mem hm), he⟩)
          have := (children _ hm).2 kept (hgit name List.mem_cons_self) rel found
            (fun n hn => hgit n (List.mem_cons_of_mem name hn)) hf
          simpa using this
      exact ⟨safeRoots_self clean, fun _ => ⟨rfl, clean⟩⟩
  | sealedDir =>
    intro path _ _ _ _
    refine ⟨safeRoots_nil fun below hf => ?_, fun h => Bool.noConfusion h⟩
    cases (find_of_not_dir (fun _ h => by cases h) hf).2
  | _ =>
    intro path _ _ _ hd
    rcases hd with h | ⟨_, h⟩ <;> cases h

/-- The search roots of a directory are safe, complete and disjoint. -/
theorem safeRoots_safeSearchPaths (lower : String → String) (target : Node) (path : List String)
    (valid : target.Valid) (directory : target.Directory) (plain : ∀ name ∈ path, PlainName name)
    (hs : isSensitive (posix path) = false) :
    SafeRoots target path (safeSearchPaths lower target path) := by
  have searched : Searched target path (target.search lower path) :=
    searched_search target path valid plain hs directory
  have hd : target.isDir = some true := by
    rcases directory with rfl | ⟨entries, rfl⟩ <;> rfl
  unfold safeSearchPaths
  rw [hd]
  by_cases excluded : (target.search lower path).2 = true
  · simp only [excluded, if_true]
    exact searched.roots
  · obtain ⟨he, -⟩ := searched.whole (Bool.eq_false_iff.2 excluded)
    simp only [excluded, Bool.false_eq_true, if_false]
    rw [← he]
    exact searched.roots

/-- A project with a key among its sources. -/
def sampleTree : Node :=
  .dir (.cons "src" (.dir (.cons "main.py" .file (.cons "id_rsa" .file .nil)))
    (.cons ".git" .sealedDir (.cons "Docs" (.dir (.cons "intro.md" .file .nil)) .nil)))

theorem valid_sampleTree : sampleTree.Valid := by
  refine ⟨by decide, ?_⟩
  simp only [Entries.Valid, Node.Valid, Entries.toList, PlainName]
  decide

theorem safeRoots_sampleTree : SafeRoots sampleTree [] (safeSearchPaths lowerName sampleTree []) :=
  safeRoots_safeSearchPaths lowerName sampleTree [] valid_sampleTree (.inr ⟨_, rfl⟩) (by simp)
    (by decide)

example : safeSearchPaths lowerName sampleTree [] =
    [["Docs"], ["src", "main.py"]] := by decide +kernel

end ProjectRegistry

end CodemcpBridge

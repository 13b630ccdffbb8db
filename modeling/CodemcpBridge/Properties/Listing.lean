import CodemcpBridge.ProjectRegistry.Listing
import CodemcpBridge.Properties.SearchRoots

/-!
# A listing is a prefix of the visible tree

The loop of `safe_directory_tree` over its stack of pending entries, against the preorder traversal
of the tree below the target.  What is still to be listed is, for every entry on the stack, the
visible part of its own traversal: this is what each round of the loop keeps.
-/

namespace CodemcpBridge

namespace ProjectRegistry

/-! ## The traversal -/

/-- In the order of the names in lower case, as `sorted` has it. -/
def inNameOrder {α : Type} (lower : String → String) (l : List (String × α)) :
    List (String × α) :=
  (l.insertionSort fun a b => leName lower b.1 a.1).reverse

mutual

/-- The preorder traversal of what lies below a node at `rel`. -/
def Node.walk (lower : String → String) (rel : List String) : Node → List (List String × Node)
  | .dir entries => (inNameOrder lower (entries.walks lower rel)).flatMap Prod.snd
  | _ => []

def Entries.walks (lower : String → String) (rel : List String) :
    Entries → List (String × List (List String × Node))
  | .nil => []
  | .cons name node rest =>
    (name, (rel ++ [name], node) :: node.walk lower (rel ++ [name])) :: rest.walks lower rel

end

/-- Neither hidden, sensitive nor a reparse point, and a directory or a file. -/
def Shown (path : List String) (node : Node) : Prop :=
  isHidden (path.getLastD "") = false ∧ node.isReparsePoint = false ∧
    isSensitive (posix path) = false ∧ (node.isDir = some true ∨ node.isFile = true)

/-- The entry at `rel` below a target at `base` and all its ancestors below the target are shown. -/
def Visible (base : List String) (target : Node) (rel : List String) : Prop :=
  ∀ above, above <+: rel → above ≠ [] → ∃ node, target.find above = some node ∧
    Shown (base ++ above) node

open scoped Classical in
/-- The visible ones of some entries. -/
noncomputable def visible (base : List String) (target : Node) (l : List (List String × Node)) :
    List (List String × Node) :=
  l.filter fun e => Visible base target e.1

/-- The visible entries below the target, in preorder. -/
noncomputable def visibleEntries (lower : String → String) (base : List String) (target : Node) :
    List (List String × Node) :=
  visible base target (target.walk lower [])

/-- What a listing says of an entry. -/
def listed (e : List String × Node) : String × Bool := (posix e.1, e.2.isDir == some true)

/-- A listing of at most `maxEntries` entries: the first of those that are visible, each once and
after its parent, and whether there are more. -/
structure IsListing (lower : String → String) (base : List String) (target : Node)
    (maxEntries : ℕ) (result : List (String × Bool) × Bool) : Prop where
  first : result.1 = ((visibleEntries lower base target).take maxEntries).map listed
  truncated : result.2 = true ↔ maxEntries < (visibleEntries lower base target).length
  once : (result.1.map Prod.fst).Nodup
  afterParent : ∀ before e after, result.1 = before ++ e :: after → ∃ rel, rel ≠ [] ∧
    e.1 = posix rel ∧ Visible base target rel ∧
      (1 < rel.length → (posix rel.dropLast, true) ∈ before)

variable {lower : String → String} {base rel above : List String} {target node child : Node}
  {entries nested : Entries} {name : String} {maxEntries : ℕ} {α β : Type}

theorem inNameOrder_map (f : String × α → String × β) (hf : ∀ a, (f a).1 = a.1)
    (l : List (String × α)) : inNameOrder lower (l.map f) = (inNameOrder lower l).map f := by
  unfold inNameOrder
  rw [List.map_reverse]
  refine congrArg List.reverse (List.map_insertionSort _ _ f l fun a _ b _ => ?_).symm
  rw [hf, hf]

/-- The traversal of an entry and what lies below it. -/
def below (lower : String → String) (e : List String × Node) : List (List String × Node) :=
  e :: e.2.walk lower e.1

theorem walks_eq (rel : List String) : ∀ entries : Entries, entries.walks lower rel =
    entries.toList.map fun c => (c.1, below lower (rel ++ [c.1], c.2))
  | .nil => rfl
  | .cons name node rest => by
    rw [Entries.walks, Entries.toList, List.map_cons, walks_eq rel rest]
    rfl

/-- The children at `rel`, in name order. -/
def childrenAt (lower : String → String) (rel : List String) (nested : List (String × Node)) :
    List (List String × Node) :=
  (sortedBackward lower nested).reverse.map fun c => (rel ++ [c.1], c.2)

theorem walk_dir : (Node.dir entries).walk lower rel =
    (childrenAt lower rel entries.toList).flatMap (below lower) := by
  rw [Node.walk, walks_eq,
    inNameOrder_map (fun c => (c.1, below lower (rel ++ [c.1], c.2))) fun _ => rfl]
  unfold childrenAt
  rw [List.flatMap_map, List.flatMap_map]
  rfl

theorem mem_childrenAt {nested : List (String × Node)} {e : List String × Node} :
    e ∈ childrenAt lower rel nested ↔ ∃ c ∈ nested, e = (rel ++ [c.1], c.2) := by
  unfold childrenAt sortedBackward
  rw [List.mem_map]
  constructor
  · rintro ⟨c, hc, rfl⟩
    exact ⟨c, (List.mem_insertionSort _).1 (List.mem_reverse.1 hc), rfl⟩
  · rintro ⟨c, hc, rfl⟩
    exact ⟨c, List.mem_reverse.2 ((List.mem_insertionSort _).2 hc), rfl⟩

/-- What the traversal of a valid tree comes to are the entries below it. -/
theorem mem_walk_iff : ∀ {node : Node} {rel : List String} {e : List String × Node}, node.Valid →
    (e ∈ node.walk lower rel ↔ ∃ rest, rest ≠ [] ∧ e.1 = rel ++ rest ∧
      node.find rest = some e.2) := by
  intro node
  induction node using Node.induct with
  | dir entries ih =>
    intro rel e valid
    rw [walk_dir, List.mem_flatMap]
    constructor
    · rintro ⟨d, hd, he⟩
      obtain ⟨c, hc, rfl⟩ := mem_childrenAt.1 hd
      have vc := (Entries.valid_of_mem valid.2 c hc).2
      rcases List.mem_cons.1 he with rfl | he
      · exact ⟨[c.1], List.cons_ne_nil _ _, rfl, (find_dir_eq_some valid.1).2 ⟨c.2, hc, rfl⟩⟩
      · obtain ⟨rest, -, hrest, hf⟩ := (ih c hc vc).1 he
        exact ⟨c.1 :: rest, List.cons_ne_nil _ _, by rw [hrest, List.append_assoc]; rfl,
          (find_dir_eq_some valid.1).2 ⟨c.2, hc, hf⟩⟩
    · rintro ⟨rest, hne, hrest, hf⟩
      cases rest with
      | nil => exact absurd rfl hne
      | cons name rest =>
        obtain ⟨child, hc, hf⟩ := (find_dir_eq_some valid.1).1 hf
        refine ⟨_, mem_childrenAt.2 ⟨_, hc, rfl⟩, ?_⟩
        cases rest with
        | nil =>
          rw [Node.find] at hf
          refine List.mem_cons.2 (.inl (Prod.ext hrest ?_))
          exact (Option.some.inj hf).symm
        | cons next rest =>
          refine List.mem_cons.2 (.inr ((ih _ hc (Entries.valid_of_mem valid.2 _ hc).2).2 ?_))
          exact ⟨next :: rest, List.cons_ne_nil _ _, by rw [hrest, List.append_assoc]; rfl, hf⟩
  | _ =>
    intro rel e valid
    rw [Node.walk]
    · refine iff_of_false List.not_mem_nil ?_
      rintro ⟨rest, hne, -, hf⟩
      exact hne (find_of_not_dir (by simp) hf).1
    · simp

theorem prefix_of_mem_below {e d : List String × Node} (valid : e.2.Valid) (h : d ∈ below lower e) :
    e.1 <+: d.1 := by
  rcases List.mem_cons.1 h with rfl | h
  · exact List.prefix_rfl
  · obtain ⟨rest, -, hrest, -⟩ := (mem_walk_iff valid).1 h
    exact ⟨rest, hrest.symm⟩

/-- No entry comes after what lies below it. -/
theorem walk_pairwise : ∀ {node : Node} {rel : List String}, node.Valid →
    (node.walk lower rel).Pairwise fun a b => ¬ b.1 <+: a.1 := by
  intro node
  induction node using Node.induct with
  | dir entries ih =>
    intro rel valid
    rw [walk_dir, List.pairwise_flatMap]
    constructor
    · intro e he
      obtain ⟨c, hc, rfl⟩ := mem_childrenAt.1 he
      have vc := (Entries.valid_of_mem valid.2 c hc).2
      refine List.pairwise_cons.2 ⟨fun d hd => ?_, ih c hc vc⟩
      obtain ⟨rest, hne, hd, -⟩ := (mem_walk_iff vc).1 hd
      intro h
      have := h.length_le
      rw [hd, List.length_append] at this
      exact hne (List.eq_nil_of_length_eq_zero (by omega))
    · unfold childrenAt
      rw [List.pairwise_map]
      have perm : (sortedBackward lower entries.toList).reverse.Perm entries.toList :=
        (List.reverse_perm _).trans (List.perm_insertionSort _ _)
      have distinct : (sortedBackward lower entries.toList).reverse.Pairwise fun c d => c.1 ≠ d.1 :=
        List.pairwise_map.1 ((perm.map Prod.fst).nodup_iff.2 valid.1)
      refine distinct.imp_of_mem fun {c d} hc hd hne x hx y hy h => ?_
      have valid_of {c} (h : c ∈ (sortedBackward lower entries.toList).reverse) : c.2.Valid :=
        (Entries.valid_of_mem valid.2 c (perm.mem_iff.1 h)).2
      exact not_prefix_of_ne (prefix_of_mem_below (valid_of hd) hy)
        (prefix_of_mem_below (valid_of hc) hx) (Ne.symm hne) h
  | _ =>
    intro rel valid
    rw [Node.walk]
    · exact List.Pairwise.nil
    · simp

/-! ## The visible part -/

/-- An entry below the target whose ancestors below the target are shown. -/
structure Open (base : List String) (target : Node) (e : List String × Node) : Prop where
  found : target.find e.1 = some e.2
  proper : e.1 ≠ []
  visible : Visible base target e.1.dropLast

theorem Visible.of_prefix (h : Visible base target rel) (hp : above <+: rel) :
    Visible base target above :=
  fun other ho hne => h other (ho.trans hp) hne

/-- An entry whose ancestors are shown is visible if it is shown itself. -/
theorem Open.visible_iff {e : List String × Node} (h : Open base target e) :
    Visible base target e.1 ↔ Shown (base ++ e.1) e.2 := by
  constructor
  · intro hv
    obtain ⟨node, hf, hs⟩ := hv e.1 List.prefix_rfl h.proper
    rw [h.found] at hf
    cases hf
    exact hs
  · intro hs above ha hne
    rw [← List.dropLast_append_getLast h.proper, List.prefix_concat_iff] at ha
    rcases ha with ha | ha
    · rw [List.dropLast_append_getLast] at ha
      rw [ha]
      exact ⟨e.2, h.found, hs⟩
    · exact h.visible above ha hne

theorem mem_visible {l : List (List String × Node)} {d : List String × Node} :
    d ∈ visible base target l ↔ d ∈ l ∧ Visible base target d.1 := by
  simp [visible]

/-- Below an entry that is not shown nothing is visible. -/
theorem visible_below_of_not_shown {e : List String × Node} (h : Open base target e)
    (valid : e.2.Valid) (hs : ¬ Shown (base ++ e.1) e.2) : visible base target
      (below lower e) = [] := by
  refine List.eq_nil_iff_forall_not_mem.2 fun d hd => ?_
  obtain ⟨hd, hv⟩ := mem_visible.1 hd
  exact hs (h.visible_iff.1 (hv.of_prefix (prefix_of_mem_below valid hd)))

/-- A shown entry comes first. -/
theorem visible_below {e : List String × Node} (h : Open base target e)
    (hs : Shown (base ++ e.1) e.2) :
    visible base target (below lower e) = e :: visible base target (e.2.walk lower e.1) := by
  have hv := h.visible_iff.2 hs
  simp [visible, below, hv]

theorem open_childrenAt {e d : List String × Node} (h : Open base target e)
    (hs : Shown (base ++ e.1) e.2) (he : e.2 = .dir entries) (valid : e.2.Valid)
    (hd : d ∈ childrenAt lower e.1 entries.toList) : Open base target d := by
  obtain ⟨c, hc, rfl⟩ := mem_childrenAt.1 hd
  rw [he] at valid
  refine ⟨?_, by simp, ?_⟩
  · rw [find_append h.found, he, find_dir_eq_some valid.1]
    exact ⟨c.2, hc, rfl⟩
  · rw [List.dropLast_concat]
    exact h.visible_iff.2 hs

/-! ## The loop -/

/-- An entry on the stack. -/
def pendingOf (base : List String) (e : List String × Node) : Pending :=
  { path := base ++ e.1, node := e.2, relativeToTarget := posix e.1 }

theorem asPosix_posix (h : ∀ name ∈ rel, PlainName name) (hne : rel ≠ []) :
    asPosix (posix rel) = posix rel := by
  unfold asPosix posix
  rw [Text.parts_intercalate h, if_neg hne]

variable {stack : List Pending} {entry : Pending} {out : List (String × Bool)}

theorem listLoop_skip (h : ¬ Shown entry.path entry.node) :
    listLoop lower maxEntries (entry :: stack) out = listLoop lower maxEntries stack out := by
  unfold Shown at h
  rw [listLoop]
  by_cases hn : isHidden entry.name = true
  · rw [if_pos hn]
  rw [if_neg hn]
  by_cases hr : entry.node.isReparsePoint = true ∨ isSensitive (posix entry.path) = true
  · rw [if_pos hr]
  rw [if_neg hr]
  rw [not_or, Bool.not_eq_true, Bool.not_eq_true] at hr
  have kind : ¬ (entry.node.isDir = some true ∨ entry.node.isFile = true) := fun hk =>
    h ⟨Bool.not_eq_true _ ▸ hn, hr.1, hr.2, hk⟩
  rw [not_or, Bool.not_eq_true] at kind
  cases hd : entry.node.isDir with
  | none => rfl
  | some isDirectory =>
    cases isDirectory with
    | true => exact absurd hd kind.1
    | false =>
      dsimp only
      rw [kind.2]
      rfl

/-- A shown entry passes the checks. -/
theorem listLoop_shown (h : Shown entry.path entry.node) :
    listLoop lower maxEntries (entry :: stack) out =
      if maxEntries ≤ out.length then (out, true)
      else
        let listing := out ++ [(asPosix entry.relativeToTarget, entry.node.isDir == some true)]
        match entry.node.list with
        | none => listLoop lower maxEntries stack listing
        | some nested => listLoop lower maxEntries
            ((entry.children lower (asPosix entry.relativeToTarget) nested).reverse ++
              stack) listing := by
  obtain ⟨hn, hr, hs, kind⟩ := h
  rw [listLoop, if_neg (by rw [Pending.name, hn]; exact Bool.false_ne_true),
    if_neg (by rw [hr, hs]; simp)]
  cases hnode : entry.node with
  | file => rfl
  | dir nested => rfl
  | sealedDir => rfl
  | link dest =>
    rw [hnode] at hr
    exact absurd hr (by simp [Node.isReparsePoint])
  | special => simp [hnode, Node.isDir, Node.isFile] at kind
  | unknown => simp [hnode, Node.isDir, Node.isFile] at kind

/-- The children of a shown directory as they are put on the stack. -/
theorem children_pendingOf {e : List String × Node} {nested : List (String × Node)}
    (plain : ∀ name ∈ e.1, PlainName name) (hne : e.1 ≠ [])
    (hn : ∀ c ∈ nested, PlainName c.1) :
    ((pendingOf base e).children lower (asPosix (pendingOf base e).relativeToTarget)
      nested).reverse = (childrenAt lower e.1 nested).map (pendingOf base) := by
  unfold Pending.children childrenAt
  rw [← List.map_reverse, List.map_map]
  refine List.map_congr_left fun c hc => ?_
  have hc : PlainName c.1 := hn c ((List.mem_insertionSort _).1 (List.mem_reverse.1 hc))
  have single : Text.parts c.1 = [c.1] := by
    have : ∀ name ∈ [c.1], PlainName name := by simpa using hc
    have := Text.parts_intercalate this
    rwa [String.intercalate_singleton] at this
  have rest : Text.parts (posix e.1) = e.1 := Text.parts_intercalate plain
  show Pending.mk _ _ _ = Pending.mk _ _ _
  unfold pendingOf
  rw [asPosix_posix plain hne, rest, single, List.append_assoc]

theorem visible_append (l l' : List (List String × Node)) :
    visible base target (l ++ l') = visible base target l ++ visible base target l' := by
  unfold visible
  exact List.filter_append l l'

/-- What the loop makes of the visible entries that are still to come. -/
def listing (maxEntries : ℕ) (out : List (String × Bool)) (coming : List (List String × Node)) :
    List (String × Bool) × Bool :=
  (out ++ (coming.take (maxEntries - out.length)).map listed,
    decide (maxEntries < out.length + coming.length))

theorem listing_cons {e : List String × Node} {coming : List (List String × Node)}
    (h : out.length < maxEntries) :
    listing maxEntries out (e :: coming) = listing maxEntries (out ++ [listed e]) coming := by
  unfold listing
  obtain ⟨left, hl⟩ : ∃ left, maxEntries - out.length = left + 1 :=
    ⟨maxEntries - out.length - 1, by omega⟩
  have hl' : maxEntries - (out ++ [listed e]).length = left := by
    rw [List.length_append, List.length_singleton]
    omega
  rw [hl, hl', List.take_succ_cons, List.map_cons, List.append_assoc, List.singleton_append]
  simp only [List.length_append, List.length_cons, List.length_nil, Prod.mk.injEq, decide_eq_decide,
    true_and]
  omega

theorem listing_full {e : List String × Node} {coming : List (List String × Node)}
    (h : out.length = maxEntries) : listing maxEntries out (e :: coming) = (out, true) := by
  unfold listing
  rw [h, Nat.sub_self, List.take_zero, List.map_nil, List.append_nil, List.length_cons]
  simp

/-- Nothing is walked below what cannot be listed. -/
theorem walk_of_list_none (h : node.list = none) : node.walk lower rel = [] := by
  cases node with
  | dir entries => exact absurd h (by simp [Node.list])
  | _ => simp [Node.walk]

theorem dir_of_list {nested : List (String × Node)} (h : node.list = some nested)
    (hr : node.isReparsePoint = false) : ∃ entries, node = .dir entries ∧
      nested = entries.toList := by
  cases node with
  | dir entries =>
    rw [Node.list] at h
    exact ⟨entries, rfl, (Option.some.inj h).symm⟩
  | link dest => exact absurd hr (by simp [Node.isReparsePoint])
  | _ => exact absurd h (by simp [Node.list])

/-- The loop over entries whose ancestors are shown. -/
theorem listLoop_eq {stack : List (List String × Node)} (tree : target.Valid)
    (opened : ∀ e ∈ stack, Open base target e) (valid : ∀ e ∈ stack, e.2.Valid)
    (room : out.length ≤ maxEntries) :
    listLoop lower maxEntries (stack.map (pendingOf base)) out =
      listing maxEntries out (visible base target (stack.flatMap (below lower))) := by
  generalize hn : stackSize (stack.map (pendingOf base)) = n
  induction n using Nat.strong_induction_on generalizing stack out with
  | _ n ih =>
  cases stack with
  | nil =>
    rw [List.map_nil, listLoop]
    unfold listing visible
    simp [room]
  | cons e stack =>
    have he := opened e List.mem_cons_self
    have ve := valid e List.mem_cons_self
    have opened' := fun d hd => opened d (List.mem_cons_of_mem e hd)
    have valid' := fun d hd => valid d (List.mem_cons_of_mem e hd)
    have less := stackSize_tail (pendingOf base e) (stack.map (pendingOf base))
    rw [List.map_cons] at hn ⊢
    rw [hn] at less
    rw [List.flatMap_cons, visible_append]
    by_cases hs : Shown (base ++ e.1) e.2
    · have shown : Shown (pendingOf base e).path (pendingOf base e).node := hs
      rw [listLoop_shown shown, visible_below he hs, List.cons_append]
      by_cases full : maxEntries ≤ out.length
      · rw [if_pos full, listing_full (by omega)]
      rw [if_neg full, listing_cons (by omega)]
      have plain := plain_of_find tree he.found
      have room' : (out ++ [listed e]).length ≤ maxEntries := by
        rw [List.length_append, List.length_singleton]
        omega
      have text : asPosix (pendingOf base e).relativeToTarget = posix e.1 :=
        asPosix_posix plain he.proper
      cases hlist : (pendingOf base e).node.list with
      | none =>
        have hw : e.2.walk lower e.1 = [] := walk_of_list_none hlist
        dsimp only
        rw [text, hw]
        exact ih _ less opened' valid' room' rfl
      | some nested =>
        obtain ⟨entries, hd, rfl⟩ := dir_of_list hlist hs.2.1
        have hd : e.2 = .dir entries := hd
        have ve' : (Node.dir entries).Valid := hd ▸ ve
        have names : ∀ c ∈ entries.toList, PlainName c.1 := fun c hc =>
          (Entries.valid_of_mem ve'.2 c hc).1
        have less' := stackSize_children lower (stack.map (pendingOf base))
          (asPosix (pendingOf base e).relativeToTarget) hlist
        rw [hn, children_pendingOf plain he.proper names, ← List.map_append] at less'
        dsimp only
        rw [children_pendingOf plain he.proper names, text, ← List.map_append, hd, walk_dir,
          ← visible_append, ← List.flatMap_append]
        refine ih _ less' (fun d hd' => ?_) (fun d hd' => ?_) room' rfl
        · exact (List.mem_append.1 hd').elim (open_childrenAt he hs hd ve) (opened' d)
        · refine (List.mem_append.1 hd').elim (fun hd' => ?_) (valid' d)
          obtain ⟨c, hc, rfl⟩ := mem_childrenAt.1 hd'
          exact (Entries.valid_of_mem ve'.2 c hc).2
    · have skipped : ¬ Shown (pendingOf base e).path (pendingOf base e).node := hs
      rw [listLoop_skip skipped, visible_below_of_not_shown he ve hs, List.nil_append]
      exact ih _ less opened' valid' room rfl

/-! ## The listing -/

theorem posix_inj {rel' : List String} (h : ∀ name ∈ rel, PlainName name)
    (h' : ∀ name ∈ rel', PlainName name) (he : posix rel = posix rel') : rel = rel' := by
  have := congrArg Text.parts he
  unfold posix at this
  rwa [Text.parts_intercalate h, Text.parts_intercalate h'] at this

theorem mem_visibleEntries {e : List String × Node} (tree : target.Valid) :
    e ∈ visibleEntries lower base target ↔
      e.1 ≠ [] ∧ target.find e.1 = some e.2 ∧ Visible base target e.1 := by
  unfold visibleEntries
  rw [mem_visible, mem_walk_iff tree]
  constructor
  · rintro ⟨⟨rest, hne, he, hf⟩, hv⟩
    rw [List.nil_append] at he
    exact ⟨he ▸ hne, he ▸ hf, hv⟩
  · rintro ⟨hne, hf, hv⟩
    exact ⟨⟨e.1, hne, rfl, hf⟩, hv⟩

theorem visibleEntries_pairwise (base : List String) (tree : target.Valid) :
    (visibleEntries lower base target).Pairwise fun a b => ¬ b.1 <+: a.1 := by
  unfold visibleEntries visible
  exact (walk_pairwise tree).filter _

/-- The parent of a visible entry is a visible directory. -/
theorem parent_visible {e : List String × Node} (tree : target.Valid)
    (he : e ∈ visibleEntries lower base target) (deep : 1 < e.1.length) :
    ∃ entries, (e.1.dropLast, Node.dir entries) ∈ visibleEntries lower base target := by
  obtain ⟨hne, hf, hv⟩ := (mem_visibleEntries tree).1 he
  have proper : e.1.dropLast ≠ [] := fun h => by
    have := congrArg List.length h
    rw [List.length_dropLast, List.length_nil] at this
    omega
  obtain ⟨node, hp, -⟩ := hv _ (List.dropLast_prefix _) proper
  have below := find_append hp [e.1.getLast hne]
  rw [List.dropLast_append_getLast hne, hf] at below
  cases node with
  | dir entries =>
    exact ⟨entries, (mem_visibleEntries tree).2 ⟨proper, hp, hv.of_prefix (List.dropLast_prefix _)⟩⟩
  | _ => simp [Node.find] at below

theorem isListing_listing (tree : target.Valid) :
    IsListing lower base target maxEntries (listing maxEntries []
      (visibleEntries lower base target)) := by
  have plain {e} (h : e ∈ visibleEntries lower base target) : ∀ name ∈ e.1, PlainName name :=
    plain_of_find tree ((mem_visibleEntries tree).1 h).2.1
  have ordered : (visibleEntries lower base target).Pairwise fun a b => ¬ b.1 <+: a.1 :=
    visibleEntries_pairwise base tree
  have first : (listing maxEntries [] (visibleEntries lower base target)).1 =
      ((visibleEntries lower base target).take maxEntries).map listed := List.nil_append _
  refine ⟨first, ?_, ?_, ?_⟩
  · unfold listing
    rw [decide_eq_true_eq, List.length_nil, Nat.zero_add]
  · rw [first, List.map_map, List.Nodup, List.pairwise_map]
    refine (ordered.sublist (List.take_sublist _ _)).imp_of_mem fun {a b} ha hb hab h => ?_
    have := posix_inj (plain (List.mem_of_mem_take ha)) (plain (List.mem_of_mem_take hb)) h
    exact hab (this ▸ List.prefix_rfl)
  · intro before e after split
    rw [first, List.map_eq_append_iff] at split
    obtain ⟨taken, rest, htake, rfl, hrest⟩ := split
    obtain ⟨d, later, rfl, rfl, -⟩ := List.map_eq_cons_iff.1 hrest
    have hd : d ∈ visibleEntries lower base target :=
      List.mem_of_mem_take (htake ▸ List.mem_append_right _ List.mem_cons_self)
    obtain ⟨proper, -, hv⟩ := (mem_visibleEntries tree).1 hd
    refine ⟨d.1, proper, rfl, hv, fun deep => ?_⟩
    obtain ⟨entries, hp⟩ := parent_visible tree hd deep
    have whole := List.take_append_drop maxEntries (visibleEntries lower base target)
    rw [htake, List.append_assoc, List.cons_append] at whole
    rw [← whole] at hp ordered
    rcases List.mem_append.1 hp with hp | hp
    · exact List.mem_map_of_mem hp
    rcases List.mem_cons.1 hp with hp | hp
    · have := congrArg List.length (congrArg Prod.fst hp)
      rw [List.length_dropLast] at this
      omega
    · have := (List.pairwise_cons.1 (List.pairwise_append.1 ordered).2.1).1 _ hp
      exact absurd (List.dropLast_prefix d.1) this

theorem toList_inj : ∀ {entries nested : Entries}, entries.toList = nested.toList →
    entries = nested
  | .nil, .nil, _ => rfl
  | .cons _ _ _, .cons _ _ _, h => by
    rw [Entries.toList, Entries.toList, List.cons.injEq, Prod.mk.injEq] at h
    rw [h.1.1, h.1.2, toList_inj h.2]

theorem valid_of_list : ∀ target : Node, target.Valid → target.list = some entries.toList →
    (Node.dir entries).Valid
  | .dir nested, tree, h => by
    rw [Node.list] at h
    rwa [← toList_inj (Option.some.inj h)]
  | .link dest, tree, h => by
    rw [Node.list] at h
    exact valid_of_list dest tree h

/-- The entries of the target as they are put on the stack. -/
theorem first_pendingOf (base : List String) (nested : List (String × Node)) :
    ((sortedBackward lower nested).map fun child =>
      Pending.mk (base ++ [child.1]) child.2 child.1).reverse =
      (childrenAt lower [] nested).map (pendingOf base) := by
  unfold childrenAt
  rw [← List.map_reverse, List.map_map]
  refine List.map_congr_left fun c _ => ?_
  show Pending.mk _ _ _ = Pending.mk _ _ (posix [c.1])
  unfold posix
  rw [String.intercalate_singleton]
  rfl

/-- A target that can be listed gives a listing, any other one an error. -/
theorem safeDirectoryTree_listing (lower : String → String) (base : List String) (target : Node)
    (maxEntries : ℕ) (tree : target.Valid) (positive : 0 < maxEntries) :
    (∀ entries : Entries, target.list = some entries.toList → ∃ result,
      safeDirectoryTree lower base target maxEntries = .ok result ∧
        IsListing lower base (.dir entries) maxEntries result) ∧
      (target.list = none → ∃ error, error.code = .backendUnavailable ∧
        safeDirectoryTree lower base target maxEntries = .error (.bridge error)) := by
  unfold safeDirectoryTree
  rw [if_neg (by omega)]
  constructor
  · intro entries hl
    have tree : (Node.dir entries).Valid := valid_of_list target tree hl
    rw [hl]
    refine ⟨_, rfl, ?_⟩
    have opened : ∀ e ∈ childrenAt lower [] entries.toList, Open base (.dir entries) e ∧
        e.2.Valid := by
      intro e he
      obtain ⟨c, hc, rfl⟩ := mem_childrenAt.1 he
      refine ⟨⟨(find_dir_eq_some tree.1).2 ⟨c.2, hc, rfl⟩, by simp, ?_⟩,
        (Entries.valid_of_mem tree.2 c hc).2⟩
      intro above ha hne
      exact absurd (List.prefix_nil.1 ha) hne
    rw [first_pendingOf, listLoop_eq tree (fun e he => (opened e he).1)
      (fun e he => (opened e he).2)
      (Nat.zero_le _), ← walk_dir]
    exact isListing_listing tree
  · intro hl
    rw [hl]
    exact ⟨_, rfl, rfl⟩

theorem listing_sampleTree : ∃ result, safeDirectoryTree lowerName [] sampleTree 2 = .ok result ∧
    IsListing lowerName [] sampleTree 2 result :=
  (safeDirectoryTree_listing lowerName [] sampleTree 2 valid_sampleTree (by decide)).1 _ rfl

end ProjectRegistry

end CodemcpBridge

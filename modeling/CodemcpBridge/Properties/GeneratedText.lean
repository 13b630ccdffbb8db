import CodemcpBridge.Config.Documents
import CodemcpBridge.GeneratedCodemcp

/-!
# The generated configuration as a document

A generated `codemcp.toml` is a document of one table under `commands` for each command, in the
order of the ids.  Read as TOML, it has the argument list of every command.
-/

namespace CodemcpBridge

namespace Text

/-! ## Sorted sets -/

theorem leChars_antisymm : ∀ {s t : List Char}, leChars s t = true → leChars t s = true → s = t
  | [], [], _, _ => rfl
  | c :: cs, d :: ds, h, h' => by
      simp only [leChars, Bool.or_eq_true, Bool.and_eq_true, decide_eq_true_eq, beq_iff_eq] at h h'
      rcases h with h | ⟨he, h⟩
      · omega
      · rcases h' with h' | ⟨-, h'⟩
        · omega
        · rw [leChars_antisymm h h', Char.ext (UInt32.toNat_inj.1 he)]

theorem mem_insertUnique {x y : String} {ys : List String} :
    y ∈ insertUnique x ys ↔ y = x ∨ y ∈ ys := by
  induction ys with
  | nil => simp [insertUnique]
  | cons z zs ih =>
    unfold insertUnique
    split_ifs with he hl
    · subst he
      simp
    · simp
    · rw [List.mem_cons, ih, List.mem_cons, or_left_comm]

theorem mem_sortedSet {x : String} : ∀ {xs : List String}, x ∈ sortedSet xs ↔ x ∈ xs
  | [] => by simp [sortedSet]
  | y :: ys => by rw [sortedSet, mem_insertUnique, mem_sortedSet, List.mem_cons]

/-- In order, and each text once. -/
def Ascending (xs : List String) : Prop := xs.Pairwise fun x y => le x y = true ∧ x ≠ y

theorem Ascending.insertUnique {x : String} {ys : List String} (h : Ascending ys) :
    Ascending (insertUnique x ys) := by
  induction ys with
  | nil => exact List.pairwise_singleton _ _
  | cons y ys ih =>
    obtain ⟨hy, hys⟩ := List.pairwise_cons.1 h
    unfold Text.insertUnique
    split_ifs with he hl
    · exact h
    · refine List.pairwise_cons.2 ⟨fun z hz => ?_, h⟩
      rcases List.mem_cons.1 hz with rfl | hz
      · exact ⟨hl, he⟩
      · refine ⟨leChars_trans hl (hy z hz).1, ?_⟩
        rintro rfl
        exact he (String.toList_injective (leChars_antisymm hl (hy x hz).1))
    · refine List.pairwise_cons.2 ⟨fun z hz => ?_, ih hys⟩
      rcases mem_insertUnique.1 hz with rfl | hz
      · exact ⟨(leChars_total y.toList z.toList).resolve_right hl, Ne.symm he⟩
      · exact hy z hz

theorem ascending_sortedSet : ∀ xs : List String, Ascending (sortedSet xs)
  | [] => List.Pairwise.nil
  | _ :: xs => (ascending_sortedSet xs).insertUnique

theorem nodup_sortedSet (xs : List String) : (sortedSet xs).Nodup :=
  (ascending_sortedSet xs).imp And.right

end Text

open Tomllib Encoding

namespace Tomllib

/-! ## Tables under one key -/

/-- A change of the last table under a key. -/
theorem modifyNest_last {name id : String} {u : Toml.Table} (t : Toml.Table)
    (h : id ∉ u.map Prod.fst) (f : Toml.Table → Option Toml.Table) :
    modifyNest true f [name, id] [(name, .table (u ++ [(id, .table t)]))] =
      (f t).map fun t' => [(name, .table (u ++ [(id, .table t')]))] := by
  have houter : Toml.get [(name, Toml.table (u ++ [(id, .table t)]))] name =
      some (.table (u ++ [(id, .table t)])) := by
    simp [Toml.get]
  unfold modifyNest
  rw [houter]
  dsimp only
  unfold modifyNest
  rw [get_append_self h]
  dsimp only
  unfold modifyNest
  rcases f t with _ | t'
  · rfl
  · simp only [Option.map_some, set_append_self h]
    simp [set]

/-- A new table under a key. -/
theorem modifyNest_new {name id : String} {u : Toml.Table} (h : id ∉ u.map Prod.fst) :
    modifyNest true some [name, id] (if u.isEmpty then [] else [(name, .table u)]) =
      some [(name, .table (u ++ [(id, .table [])]))] := by
  unfold modifyNest
  cases u with
  | nil =>
    rw [if_pos (by rfl), get_none (by simp)]
    dsimp only
    unfold modifyNest
    rw [get_none (by simp)]
    dsimp only
    unfold modifyNest
    simp [set]
  | cons e u =>
    have houter : Toml.get [(name, Toml.table (e :: u))] name = some (.table (e :: u)) := by
      simp [Toml.get]
    rw [if_neg (by simp), houter]
    dsimp only
    unfold modifyNest
    rw [get_none h]
    dsimp only
    unfold modifyNest
    rw [Option.map_some, Option.map_some, set_new h]
    simp [set]

/-- A new pair in the last table under a key. -/
theorem keyValue_last (out : Output) {name id k : String} {u : Toml.Table} (t : Toml.Table)
    {v : Toml}
    (hdata : out.data = [(name, .table (u ++ [(id, .table t)]))]) (hid : id ∉ u.map Prod.fst)
    (hk : k ∉ t.map Prod.fst) (hfrozen : isFrozen out.frozen [name, id] = false) :
    out.keyValue [name, id] [k] v = some { out with
      data := [(name, .table (u ++ [(id, .table (t ++ [(k, v)]))]))]
      frozen := if isNest v then [name, id, k] :: out.frozen else out.frozen } := by
  have hadd : addNew k v t = some (t ++ [(k, v)]) := by
    unfold addNew
    rw [get_none hk]
    rfl
  change (if ([] : List Key).any (· ∈ out.explicit) ∨
    isFrozen out.frozen [name, id] = true then none
    else (modifyNest true (addNew k v) [name, id] out.data).map fun data =>
      { out with data, pending := [] ++ out.pending
                 frozen := if isNest v then ([name, id] ++ [k]) :: out.frozen else out.frozen }) = _
  rw [if_neg (by simp [hfrozen]), hdata, modifyNest_last t hid, hadd]
  rfl

theorem isFrozen_long {frozen : List Key} (h : ∀ f ∈ frozen, f.length = 3) (a b : String) :
    isFrozen frozen [a, b] = false := by
  unfold isFrozen
  rw [List.any_eq_false]
  intro f hf hp
  have := (List.isPrefixOf_iff_prefix.1 hp).length_le
  rw [h f hf] at this
  simp at this

end Tomllib

namespace GeneratedCodemcp

/-- The table of a command. -/
def commandEntries (c : String × CommandSpec) : List Entry :=
  [.table "commands".toList (some c.1.toList),
    .pair "command".toList (.texts (c.2.argv.map String.toList)),
    .pair "doc".toList (.text ("Bridge-resolved " ++ c.2.kind ++ " command").toList)]

def headerEntries : List Entry := [.comment generatedHeader.toList.tail, .blank]

theorem plain_commandEntries (c : String × CommandSpec) : ∀ e ∈ commandEntries c, e.Plain := by
  have bare : ∀ name ∈ ["commands", "command", "doc"], Bare name.toList := by decide +kernel
  simp only [commandEntries, List.mem_cons, List.not_mem_nil, or_false]
  rintro e (rfl | rfl | rfl)
  · exact bare "commands" (by decide)
  · exact ⟨bare "command" (by decide), trivial⟩
  · exact ⟨bare "doc" (by decide), trivial⟩

/-- What the table of a command is read as. -/
def commandTable (c : String × CommandSpec) : Toml.Table :=
  [("command", .array (c.2.argv.map .str)),
    ("doc", .str ("Bridge-resolved " ++ c.2.kind ++ " command"))]

def commandsTable (cs : List (String × CommandSpec)) : Toml.Table :=
  cs.map fun c => (c.1, .table (commandTable c))

/-- The output behind the tables of some commands. -/
def outputOf (cs : List (String × CommandSpec)) : Output where
  data := if (commandsTable cs).isEmpty then [] else [("commands", .table (commandsTable cs))]
  explicit := (cs.map fun c => ["commands", c.1]).reverse
  pending := []
  frozen := (cs.map fun c => ["commands", c.1, "command"]).reverse

theorem keys_commandsTable (cs : List (String × CommandSpec)) :
    (commandsTable cs).map Prod.fst = cs.map Prod.fst := by
  unfold commandsTable
  rw [List.map_map]
  rfl

theorem applyAll_commandEntries (done : List (String × CommandSpec)) (header : Key)
    (c : String × CommandSpec) (h : c.1 ∉ done.map Prod.fst) :
    applyAll (outputOf done, header) (commandEntries c) =
      some (outputOf (done ++ [c]), ["commands", c.1]) := by
  have hnew : c.1 ∉ (commandsTable done).map Prod.fst := keys_commandsTable done ▸ h
  have hlong : ∀ f ∈ (outputOf done).frozen, f.length = 3 := by
    unfold outputOf
    simp only [List.mem_reverse, List.mem_map]
    rintro f ⟨c, -, rfl⟩
    rfl
  have hexplicit : ["commands", c.1] ∉ (outputOf done).explicit := by
    unfold outputOf
    simp only [List.mem_reverse, List.mem_map]
    rintro ⟨d, hd, he⟩
    exact h (List.mem_map.2 ⟨d, hd, (List.cons.inj (List.cons.inj he).2).1⟩)
  set created : Output :=
    { data := [("commands", .table (commandsTable done ++ [(c.1, .table [])]))]
      explicit := ["commands", c.1] :: (outputOf done).explicit
      pending := []
      frozen := (outputOf done).frozen } with hcreated
  have hcreate : (outputOf done).finalize.createDict ["commands", c.1] = some created := by
    have hfree : ¬(["commands", c.1] ∈ (outputOf done).finalize.explicit ∨
        isFrozen (outputOf done).finalize.frozen ["commands", c.1] = true) := by
      rintro (hm | hf)
      · exact hexplicit hm
      · rw [show (outputOf done).finalize.frozen = (outputOf done).frozen from rfl,
          isFrozen_long hlong] at hf
        cases hf
    unfold Output.createDict
    rw [if_neg hfree]
    change (modifyNest true some ["commands", c.1] (outputOf done).data).map _ = _
    unfold outputOf
    rw [modifyNest_new hnew]
    rfl
  set argv : Toml := .array (c.2.argv.map .str) with hargv
  set doc : Toml := .str ("Bridge-resolved " ++ c.2.kind ++ " command") with hdoc
  set filled : Output := { created with
    data := [("commands", .table (commandsTable done ++ [(c.1, .table [("command", argv)])]))]
    frozen := ["commands", c.1, "command"] :: created.frozen } with hfilled
  have hfirst : created.keyValue ["commands", c.1] ["command"] argv = some filled :=
    keyValue_last created [] rfl hnew (by simp) (isFrozen_long hlong _ _)
  have hsecond : filled.keyValue ["commands", c.1] ["doc"] doc =
      some (outputOf (done ++ [c])) := by
    rw [keyValue_last filled [("command", argv)] rfl hnew (by simp)
      (isFrozen_long (by simpa [hfilled] using hlong) _ _)]
    simp [outputOf, commandsTable, commandTable, hfilled, hcreated, hargv, hdoc, isNest]
  have hvalue : (Written.texts (c.2.argv.map String.toList)).value = argv := by
    simp [Written.value, hargv, Function.comp_def]
  unfold commandEntries
  rw [applyAll_cons (created, ["commands", c.1]), applyAll_cons
    (filled, ["commands", c.1]), applyAll_cons (outputOf (done ++ [c]),
      ["commands", c.1])]
  · rfl
  · change (filled.keyValue ["commands", c.1] [String.ofList "doc".toList]
      (.str (String.ofList _))).map _ = _
    rw [String.ofList_toList, String.ofList_toList, hsecond]
    rfl
  · change (created.keyValue ["commands", c.1] [String.ofList "command".toList] _).map _ = _
    rw [String.ofList_toList, hvalue, hfirst]
    rfl
  · simp only [Entry.apply, Option.map_some, Option.toList_some, String.ofList_toList, hcreate]

/-- The lines of commands with different ids. -/
theorem applyAll_commands (cs : List (String × CommandSpec)) (between : List Entry)
    (hb : ∀ r, applyAll r between = some r) (done : List (String × CommandSpec)) (header : Key)
    (h : ((done ++ cs).map Prod.fst).Nodup) : ∃ header',
      applyAll (outputOf done, header) (cs.flatMap fun c => commandEntries c ++ between) =
        some (outputOf (done ++ cs), header') := by
  induction cs generalizing done header with
  | nil => exact ⟨header, by simp [applyAll]⟩
  | cons c cs ih =>
    have hc : c.1 ∉ done.map Prod.fst := by
      rw [List.map_append, List.nodup_append] at h
      intro hm
      exact h.2.2 _ hm _ (List.mem_map.2 ⟨c, List.mem_cons_self, rfl⟩) rfl
    obtain ⟨header', hrest⟩ := ih (done ++ [c]) ["commands", c.1] (by simpa using h)
    refine ⟨header', ?_⟩
    rw [List.flatMap_cons, applyAll_append, applyAll_append,
      applyAll_commandEntries done header c hc,
      Option.bind_some, hb, Option.bind_some, hrest, List.append_assoc, List.singleton_append]

/-! ### The whole document -/

section Document

variable {project : ProjectSpec}

/-- The commands of a project under their ids, as they are loaded. -/
def Keyed (project : ProjectSpec) : Prop :=
  (project.commands.map Prod.fst).Nodup ∧ ∀ c ∈ project.commands, c.2.commandId = c.1

theorem find?_key {α : Type} {l : List (String × α)} (h : (l.map Prod.fst).Nodup) {e : String × α}
    (he : e ∈ l) : l.find? (fun d => d.1 == e.1) = some e := by
  induction l with
  | nil => exact absurd he List.not_mem_nil
  | cons d l ih =>
    rw [List.map_cons, List.nodup_cons] at h
    rcases List.mem_cons.1 he with rfl | he
    · rw [List.find?_cons_of_pos (by simp)]
    · rw [List.find?_cons_of_neg, ih h.2 he]
      intro hd
      exact h.1 (eq_of_beq hd ▸ List.mem_map_of_mem he)

theorem commandOf_mem (h : Keyed project) {c : String × CommandSpec} (hc : c ∈ project.commands) :
    commandOf project c.1 = some c.2 := by
  unfold commandOf
  rw [find?_key h.1 hc]
  rfl

theorem mem_sortedCommands (h : Keyed project) {c : String × CommandSpec} :
    c ∈ sortedCommands project ↔ c ∈ project.commands := by
  unfold sortedCommands
  rw [List.mem_filterMap]
  constructor
  · rintro ⟨id, hid, hc⟩
    obtain ⟨spec, hs, rfl⟩ := Option.map_eq_some_iff.1 hc
    obtain ⟨d, hd, rfl⟩ := List.mem_map.1 (Text.mem_sortedSet.1 hid)
    rw [commandOf_mem h hd] at hs
    cases hs
    exact hd
  · intro hc
    refine ⟨c.1, Text.mem_sortedSet.2 (List.mem_map.2 ⟨c, hc, rfl⟩), ?_⟩
    rw [commandOf_mem h hc]
    rfl

theorem nodup_sortedCommands (project : ProjectSpec) :
    ((sortedCommands project).map Prod.fst).Nodup := by
  have hsub : List.Sublist ((sortedCommands project).map Prod.fst)
      (Text.sortedSet (project.commands.map Prod.fst)) := by
    unfold sortedCommands
    generalize Text.sortedSet (project.commands.map Prod.fst) = ids
    induction ids with
    | nil => exact List.Sublist.slnil
    | cons id ids ih =>
      rw [List.filterMap_cons]
      rcases commandOf project id with _ | spec
      · exact ih.cons id
      · exact ih.cons_cons id
  exact (Text.nodup_sortedSet _).sublist hsub

/-- The lines of a generated configuration. -/
def entries (cs : List (String × CommandSpec)) : List Entry :=
  headerEntries ++ cs.flatMap fun c => commandEntries c ++ [Entry.blank]

theorem write_commandEntries (c : String × CommandSpec) :
    (commandEntries c ++ [Entry.blank]).map Entry.write = commandLines c.1 c.2 := by
  have hargv : (c.2.argv.map String.toList).map quote = c.2.argv.map jsonDumps := by
    rw [List.map_map]
    rfl
  unfold commandLines quotedList
  rw [← hargv]
  rfl

theorem intercalate_lines (ls : List (List Char)) :
    ['\n'].intercalate (ls ++ [[]]) = ls.flatMap fun l => l ++ ['\n'] := by
  induction ls with
  | nil => rfl
  | cons l ls ih =>
    obtain ⟨m, ms, hm⟩ : ∃ m ms, ls ++ [[]] = m :: ms :=
      List.exists_cons_of_ne_nil (by simp)
    rw [List.cons_append, hm, List.intercalate_cons_cons, ← hm, ih, List.flatMap_cons,
      List.append_assoc]

theorem sortedCommands_ne_nil (h : project.commands ≠ []) : sortedCommands project ≠ [] := by
  obtain ⟨c, cs, hc⟩ := List.exists_cons_of_ne_nil h
  have hfirst : commandOf project c.1 = some c.2 := by
    unfold commandOf
    rw [hc, List.find?_cons_of_pos (by simp)]
    rfl
  have hm : (c.1, c.2) ∈ sortedCommands project := by
    unfold sortedCommands
    refine List.mem_filterMap.2 ⟨c.1, Text.mem_sortedSet.2 (by simp [hc]), ?_⟩
    rw [hfirst]
    rfl
  exact List.ne_nil_of_mem hm

theorem commands_ne_nil (h : canGenerateCodemcpConfig project = true) : project.commands ≠ [] := by
  unfold canGenerateCodemcpConfig at h
  simp only [Bool.and_eq_true, Bool.not_eq_true', List.isEmpty_eq_false_iff] at h
  exact h.1.2

theorem write_entries (cs : List (String × CommandSpec)) : (entries cs).map Entry.write =
    [generatedHeader.toList, []] ++ cs.flatMap fun c => commandLines c.1 c.2 := by
  unfold entries
  rw [List.map_append, List.map_flatMap]
  simp only [write_commandEntries]
  rfl

/-- A generated configuration is a document of lines, the last of which is empty. -/
theorem renderGeneratedCodemcpConfig_eq (h : canGenerateCodemcpConfig project = true) :
    ∃ es, renderGeneratedCodemcpConfig project = some (document es) ∧
      entries (sortedCommands project) = es ++ [Entry.blank] := by
  obtain ⟨cs, c, hcs⟩ := (List.eq_nil_or_concat (sortedCommands project)).resolve_left
    (sortedCommands_ne_nil (commands_ne_nil h))
  set es := entries cs ++ commandEntries c with hes
  have hall : entries (sortedCommands project) = es ++ [Entry.blank] := by
    rw [hcs, hes]
    unfold entries
    simp
  refine ⟨es, ?_, hall⟩
  unfold renderGeneratedCodemcpConfig
  rw [h]
  change some (['\n'].intercalate ([generatedHeader.toList, []] ++
    (sortedCommands project).flatMap fun c => commandLines c.1 c.2)) = _
  rw [← write_entries, hall, List.map_append, List.map_singleton,
    show Entry.blank.write = [] from rfl, intercalate_lines, List.flatMap_map]
  rfl

theorem plain_entries (cs : List (String × CommandSpec)) : ∀ e ∈ entries cs, e.Plain := by
  unfold entries headerEntries
  simp only [List.mem_append, List.mem_cons, List.not_mem_nil, or_false, List.mem_flatMap]
  rintro e ((rfl | rfl) | ⟨c, -, he | rfl⟩)
  · have hlegal : generatedHeader.toList.tail.all (fun c => !illegal c) = true := by
      decide +kernel
    intro c hc
    simpa using List.all_eq_true.1 hlegal c hc
  · trivial
  · exact plain_commandEntries c e he
  · trivial

/-- No text of a command holds `DEL`. -/
def Undeleted (c : String × CommandSpec) : Prop :=
  delete ∉ c.1.toList ∧ delete ∉ c.2.kind.toList ∧ ∀ part ∈ c.2.argv, delete ∉ part.toList

theorem holdsDelete_entries (cs : List (String × CommandSpec)) :
    HoldsDelete (entries cs) ↔ ¬∀ c ∈ cs, Undeleted c := by
  have hcommand : ∀ c, HoldsDelete (commandEntries c ++ [Entry.blank]) ↔ ¬Undeleted c := by
    intro c
    have hdoc : delete ∈ ("Bridge-resolved " ++ c.2.kind ++ " command").toList ↔
        delete ∈ c.2.kind.toList := by
      have hbefore : delete ∉ "Bridge-resolved ".toList := by decide +kernel
      have hafter : delete ∉ " command".toList := by decide +kernel
      rw [String.toList_append, String.toList_append, List.mem_append, List.mem_append]
      tauto
    simp only [HoldsDelete, commandEntries, Undeleted, List.cons_append, List.nil_append,
      List.mem_cons, List.not_mem_nil, or_false, exists_eq_or_imp, exists_eq_left, Entry.quoted,
      Written.quoted, List.mem_map, hdoc, false_and, exists_false]
    constructor
    · rintro (h | ⟨t, ⟨part, hp, rfl⟩, ht⟩ | h) ⟨hid, hkind, hargv⟩
      · exact hid h
      · exact hargv part hp ht
      · exact hkind h
    · intro h
      by_contra hn
      exact h ⟨fun x => hn (.inl x), fun x => hn (.inr (.inr x)),
        fun part hp x => hn (.inr (.inl ⟨_, ⟨part, hp, rfl⟩, x⟩))⟩
  have hall : HoldsDelete (cs.flatMap fun c => commandEntries c ++ [Entry.blank]) ↔
      ∃ c ∈ cs, HoldsDelete (commandEntries c ++ [Entry.blank]) := by
    simp only [HoldsDelete, List.mem_flatMap]
    constructor
    · rintro ⟨e, ⟨c, hc, he⟩, ht⟩
      exact ⟨c, hc, e, he, ht⟩
    · rintro ⟨c, hc, e, he, ht⟩
      exact ⟨e, ⟨c, hc, he⟩, ht⟩
  unfold entries
  rw [holdsDelete_append, or_iff_right, hall]
  · simp only [hcommand]
    push Not
    rfl
  · simp [HoldsDelete, headerEntries, Entry.quoted]

theorem loads_generated (h : canGenerateCodemcpConfig project = true) :
    ∃ text, renderGeneratedCodemcpConfig project = some text ∧ loads text =
      if HoldsDelete (entries (sortedCommands project)) then none
      else some [("commands", .table (commandsTable (sortedCommands project)))] := by
  obtain ⟨es, hrender, hall⟩ := renderGeneratedCodemcpConfig_eq h
  refine ⟨document es, hrender, ?_⟩
  have hplain : ∀ e ∈ es, e.Plain := fun e he =>
    plain_entries (sortedCommands project) e (hall ▸ List.mem_append_left _ he)
  have hdelete : HoldsDelete (entries (sortedCommands project)) ↔ HoldsDelete es := by
    rw [hall, holdsDelete_append, or_iff_left]
    simp [HoldsDelete, Entry.quoted]
  rw [loads_document es hplain]
  by_cases hd : HoldsDelete es
  · rw [if_pos hd, if_pos (hdelete.2 hd)]
  rw [if_neg hd, if_neg (fun h => hd (hdelete.1 h))]
  have hblank : applyAll ({}, []) (es ++ [Entry.blank]) = applyAll ({}, []) es := by
    rw [applyAll_append]
    rcases applyAll ({}, []) es with _ | r <;> rfl
  obtain ⟨header', hcommands⟩ := applyAll_commands (sortedCommands project) [Entry.blank]
    (fun _ => rfl) [] [] (nodup_sortedCommands project)
  have hheader : applyAll ({}, []) headerEntries = some (outputOf [], []) := rfl
  rw [← hblank, ← hall]
  unfold entries
  rw [applyAll_append, hheader, Option.bind_some, hcommands]
  have hne : (commandsTable (sortedCommands project)).isEmpty = false := by
    rw [List.isEmpty_eq_false_iff]
    unfold commandsTable
    rw [ne_eq, List.map_eq_nil_iff]
    exact sortedCommands_ne_nil (commands_ne_nil h)
  unfold outputOf
  rw [List.nil_append, hne]
  rfl

theorem strings?_strs (texts : List String) :
    Toml.strings? (.array (texts.map .str)) = some texts := by
  change (texts.map Toml.str).mapM Toml.str? = some texts
  induction texts with
  | nil => rfl
  | cons text texts ih =>
    rw [List.map_cons, List.mapM_cons, ih]
    rfl

theorem configuredArgv_commandsTable {cs : List (String × CommandSpec)}
    (h : (cs.map Prod.fst).Nodup) {c : String × CommandSpec} (hc : c ∈ cs) :
    configuredArgv [("commands", .table (commandsTable cs))] c.1 =
      some (.array (c.2.argv.map .str)) := by
  have hnodup : ((commandsTable cs).map Prod.fst).Nodup := keys_commandsTable cs ▸ h
  have hmem : (c.1, Toml.table (commandTable c)) ∈ commandsTable cs := List.mem_map.2 ⟨c, hc, rfl⟩
  have hget : Toml.get (commandsTable cs) c.1 = some (.table (commandTable c)) := by
    unfold Toml.get
    rw [find?_key hnodup hmem]
    rfl
  have hcommands : Toml.get [("commands", Toml.table (commandsTable cs))] "commands" =
      some (.table (commandsTable cs)) := by
    simp [Toml.get]
  have hcommand : Toml.get (commandTable c) "command" = some (.array (c.2.argv.map .str)) := by
    simp [Toml.get, commandTable]
  unfold configuredArgv
  rw [hcommands, Option.getD_some]
  dsimp only
  rw [hget, Option.getD_some]
  exact hcommand

theorem generated_readBack (h : canGenerateCodemcpConfig project = true) (hk : Keyed project) :
    ∃ text, renderGeneratedCodemcpConfig project = some text ∧
      ((∃ config, loads text = some config ∧ ∀ c ∈ project.commands,
        configuredArgv config c.1 = some (.array (c.2.argv.map .str)) ∧
          verifyExistingConfig config c.2 = true) ↔ ∀ c ∈ project.commands, Undeleted c) := by
  obtain ⟨text, hrender, hloads⟩ := loads_generated h
  have hdelete : HoldsDelete (entries (sortedCommands project)) ↔
      ¬∀ c ∈ project.commands, Undeleted c := by
    rw [holdsDelete_entries]
    simp only [mem_sortedCommands hk]
  refine ⟨text, hrender, ?_⟩
  rw [hloads]
  by_cases hd : HoldsDelete (entries (sortedCommands project))
  · rw [if_pos hd]
    exact iff_of_false (by simp) (hdelete.1 hd)
  · rw [if_neg hd]
    refine iff_of_true ⟨_, rfl, fun c hc => ?_⟩ (not_not.1 fun hn => hd (hdelete.2 hn))
    have hargv := configuredArgv_commandsTable (nodup_sortedCommands project)
      ((mem_sortedCommands hk).2 hc)
    refine ⟨hargv, ?_⟩
    unfold verifyExistingConfig
    rw [hk.2 c hc, hargv, Option.bind_some, strings?_strs]
    simp

end Document

end GeneratedCodemcp

end CodemcpBridge

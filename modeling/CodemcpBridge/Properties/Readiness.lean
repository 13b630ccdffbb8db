import CodemcpBridge.ProjectReadiness
import CodemcpBridge.Properties.GeneratedText
import CodemcpBridge.Properties.NormalForms

/-!
# Readiness and policy

The report opens the configuration where its path leads; the policy asks `lstat` first and goes
through `resolve_path`.  The two agree on the commands of a project exactly if no link dangles in
the place of a configuration that could be generated, and the file that `resolve_path` leads to has
the commands that the file behind the path has.
-/

namespace CodemcpBridge

namespace ProjectReadiness

open ProjectRegistry GeneratedCodemcp Async

variable {files : Files} {registry : Registry} {settings : PolicySettings} {project : ProjectSpec}

/-! ## Commands in a file -/

/-- A file has a command with its argv. -/
def Lists (opened : Opened) (c : String × CommandSpec) : Prop :=
  argvIn opened c.1 = .ok (some c.2.argv)

theorem alignment_matched {configured : Toml.Table} {c : String × CommandSpec} :
    alignment configured c.1 c.2 = .matched ↔
      ∃ entry, Toml.get configured c.1 = some (.table entry) ∧
      (Toml.get entry "command").bind Toml.strings? = some c.2.argv := by
  unfold alignment
  split
  · rename_i h
    simp [h]
  · rename_i entry h
    simp [h]
  · rename_i value hne h
    simp only [h, reduceCtorEq, Option.some.injEq, false_iff, not_exists, not_and]
    rintro entry rfl
    exact absurd rfl (hne entry)

/-- The argv of a command that a table of commands has. -/
theorem alignment_matched_configuredArgv {config commands : Toml.Table} {c : String × CommandSpec}
    (h : (Toml.get config "commands").getD (.table []) = .table commands) :
    alignment commands c.1 c.2 = .matched ↔
      (configuredArgv config c.1).bind Toml.strings? = some c.2.argv := by
  unfold configuredArgv
  rw [alignment_matched, h]
  dsimp only
  generalize Toml.get commands c.1 = value
  rcases value with _ | value
  · simp [Toml.get]
  · cases value <;> simp

theorem lists_iff {opened : Opened} {c : String × CommandSpec} :
    Lists opened c ↔ ∃ configured, loadCodemcpCommands opened = .ok (true, true, configured) ∧
      alignment configured c.1 c.2 = .matched := by
  unfold Lists argvIn loadCodemcpCommands
  cases tomllibLoad opened with
  | error fault => cases fault <;> simp [bind, Except.bind]
  | ok config =>
    change Except.ok ((configuredArgv config c.1).bind Toml.strings?) = _ ↔ _
    rw [Except.ok.injEq]
    dsimp only
    split
    · rename_i commands ht
      simp [alignment_matched_configuredArgv ht]
    · rename_i hne
      have none_ : configuredArgv config c.1 = none := by
        unfold configuredArgv
        split
        · rename_i commands ht
          exact absurd ht (hne commands)
        · rfl
      simp [none_]

/-- A file that is not found has no command, and only then is no file reported. -/
theorem loadCodemcpCommands_missing {opened : Opened} {valid : Bool} {configured : Toml.Table}
    (h : loadCodemcpCommands opened = .ok (false, valid, configured)) :
    opened = .missing ∧ valid = false := by
  unfold loadCodemcpCommands at h
  split at h
  · rename_i hm
    refine ⟨?_, by cases h; rfl⟩
    cases opened with
    | missing => rfl
    | failed => cases hm
    | read bytes overlong =>
      unfold tomllibLoad at hm
      dsimp only at hm
      split at hm
      · cases hm
      · split at hm
        · split_ifs at hm <;> cases hm
        · cases hm
  · cases h
  · cases h
  · cases h
  · cases h
  · split at h <;> cases h

/-! ## The report -/

theorem mem_aligned (hk : Keyed project) {configured : Toml.Table} {a : Alignment} {id : String} :
    id ∈ aligned configured project a ↔
      ∃ c ∈ project.commands, c.1 = id ∧ alignment configured c.1 c.2 = a := by
  unfold aligned
  simp only [List.mem_map, List.mem_filter, decide_eq_true_eq, mem_sortedCommands hk]
  constructor
  · rintro ⟨c, ⟨hc, ha⟩, rfl⟩
    exact ⟨c, hc, rfl, ha⟩
  · rintro ⟨c, hc, rfl, ha⟩
    exact ⟨c, ⟨hc, ha⟩, rfl⟩

/-- The report lists a command as matched. -/
def Matched (files : Files) (project : ProjectSpec) (commandId : String) : Prop :=
  ∃ report, inspectDevelopmentReadiness files project = .ok report ∧
    commandId ∈ report.matchedCommands

/-- The report calls the project ready for development. -/
def Ready (files : Files) (project : ProjectSpec) : Prop :=
  ∃ report, inspectDevelopmentReadiness files project = .ok report ∧ report.developmentReady = true

/-- A file that was found and is valid, or that was not found. -/
theorem lists_of_loaded {opened : Opened} {found valid : Bool} {configured : Toml.Table}
    (h : loadCodemcpCommands opened = .ok (found, valid, configured)) {c : String × CommandSpec} :
    Lists opened c ↔ (found = true ∧ valid = true) ∧ alignment configured c.1 c.2 = .matched := by
  rw [lists_iff, h]
  simp only [Except.ok.injEq, Prod.mk.injEq]
  constructor
  · rintro ⟨_, ⟨hf, hv, rfl⟩, ha⟩
    exact ⟨⟨hf, hv⟩, ha⟩
  · rintro ⟨⟨hf, hv⟩, ha⟩
    exact ⟨_, ⟨hf, hv, rfl⟩, ha⟩

theorem found_iff {opened : Opened} {found valid : Bool} {configured : Toml.Table}
    (h : loadCodemcpCommands opened = .ok (found, valid, configured)) :
    found = false ↔ opened = .missing := by
  constructor
  · rintro rfl
    exact (loadCodemcpCommands_missing h).1
  · rintro rfl
    cases h
    rfl

theorem matched_iff (hk : Keyed project) {commandId : String} :
    Matched files project commandId ↔ ∃ c ∈ project.commands, c.1 = commandId ∧
      ((files.openRead (posixPath project.codemcpConfig) = .missing ∧
        canGenerateCodemcpConfig project = true) ∨
        Lists (files.openRead (posixPath project.codemcpConfig)) c) := by
  unfold Matched inspectDevelopmentReadiness
  generalize files.openRead (posixPath project.codemcpConfig) = opened
  cases hl : loadCodemcpCommands opened with
  | error fault =>
    refine iff_of_false (by rintro ⟨_, h, -⟩; cases h) ?_
    rintro ⟨c, -, -, ⟨rfl, -⟩ | h⟩
    · cases hl
    · obtain ⟨_, h, -⟩ := lists_iff.1 h
      cases hl.symm.trans h
  | ok loaded =>
    obtain ⟨found, valid, configured⟩ := loaded
    simp only [bind, Except.bind, pure, Except.pure, Except.ok.injEq, exists_eq_left',
      lists_of_loaded hl, ← found_iff hl]
    cases found with
    | false =>
      cases (loadCodemcpCommands_missing hl).2
      cases canGenerateCodemcpConfig project
      · simp
      · simp [Text.mem_sortedSet]
    | true =>
      cases valid
      · simp
      · simp [mem_aligned hk]

theorem eq_of_key (hk : Keyed project) {c d : String × CommandSpec} (hc : c ∈ project.commands)
    (hd : d ∈ project.commands) (h : d.1 = c.1) : d = c := by
  have hf := find?_key hk.1 hd
  rw [h, find?_key hk.1 hc, Option.some.injEq] at hf
  exact hf.symm

theorem matched_key (hk : Keyed project) {c : String × CommandSpec} (hc : c ∈ project.commands) :
    Matched files project c.1 ↔ (files.openRead (posixPath project.codemcpConfig) = .missing ∧
        canGenerateCodemcpConfig project = true) ∨
      Lists (files.openRead (posixPath project.codemcpConfig)) c := by
  rw [matched_iff hk]
  constructor
  · rintro ⟨d, hd, he, h⟩
    rwa [eq_of_key hk hc hd he] at h
  · exact fun h => ⟨c, hc, rfl, h⟩

/-- A project that is ready has all its commands matched. -/
theorem matched_of_ready (hk : Keyed project) (h : Ready files project) {c : String × CommandSpec}
    (hc : c ∈ project.commands) : Matched files project c.1 := by
  obtain ⟨report, hr, hready⟩ := h
  unfold inspectDevelopmentReadiness at hr
  obtain ⟨⟨found, valid, configured⟩, hl, hr⟩ := bind_eq_ok.1 hr
  refine (matched_iff hk).2 ⟨c, hc, rfl, ?_⟩
  rw [lists_of_loaded hl, ← found_iff hl]
  cases hr
  by_cases hg : (!found && canGenerateCodemcpConfig project) = true
  · left
    simpa using hg
  · right
    dsimp only at hready
    rw [Bool.not_eq_true] at hg
    simp only [hg, Bool.not_false, Bool.true_and, Bool.false_or, Bool.and_eq_true,
      List.isEmpty_iff] at hready
    obtain ⟨⟨-, ⟨⟨hf, hv⟩, hmissing⟩, hmismatched⟩, -⟩ := hready
    rw [if_pos hv] at hmissing hmismatched
    refine ⟨⟨hf, hv⟩, ?_⟩
    have none_of {a : Alignment} (he : aligned configured project a = []) :
        alignment configured c.1 c.2 ≠ a := by
      intro ha
      have : c.1 ∈ aligned configured project a := (mem_aligned hk).2 ⟨c, hc, rfl, ha⟩
      rw [he] at this
      exact absurd this List.not_mem_nil
    cases ha : alignment configured c.1 c.2 with
    | matched => rfl
    | missing => exact absurd ha (none_of hmissing)
    | mismatched => exact absurd ha (none_of hmismatched)

/-! ## The policy -/

theorem answer_configuredArgv (commandId : String) (argv : List String) :
    answer files registry (.quiet (.configuredArgv project commandId)) () = .ok (some argv) ↔
      ∃ p, resolvedConfig files registry project = .ok p ∧
        argvIn (files.openRead p) commandId = .ok (some argv) := by
  change (resolvedConfig files registry project >>= fun p =>
    (argvIn (files.openRead p) commandId).mapError LoadFault.exn) = _ ↔ _
  rw [bind_eq_ok]
  refine exists_congr fun p => and_congr_right fun _ => ?_
  cases argvIn (files.openRead p) commandId <;> simp [Except.mapError]

theorem answer_lstatConfig : answer files registry (.quiet (.lstatConfig project)) () =
    match files.lstat (posixPath project.codemcpConfig) with
      | .missing => .error (.fileNotFoundError "")
      | .failed => .error (.osError "")
      | _ => .ok () := rfl

/-- The check of a command passes where the file could be generated, and where the file has it. -/
theorem verifyCodemcpCommand_ok {command : CommandSpec} :
    (verifyCodemcpCommand project command).under (answer files registry) () = .ok () ↔
      (files.lstat (posixPath project.codemcpConfig) = .missing ∧
        canGenerateCodemcpConfig project = true) ∨
      ∃ p, resolvedConfig files registry project = .ok p ∧
        argvIn (files.openRead p) command.commandId = .ok (some command.argv) := by
  have generated : answer files registry (.quiet (.canGenerateConfig project)) () =
      .ok (canGenerateCodemcpConfig project) := rfl
  have failed : (Exn.osError "").isOSError = true := rfl
  rw [← answer_configuredArgv]
  unfold verifyCodemcpCommand
  simp only [Body.quiet, Prog.under_bind, Prog.under_attempt, Prog.under_ask]
  rw [answer_lstatConfig]
  cases hq : answer files registry (.quiet (.configuredArgv project command.commandId)) () with
  | error e =>
    cases files.lstat (posixPath project.codemcpConfig) <;>
      cases hg : canGenerateCodemcpConfig project <;>
      by_cases he : e.isOSError = true ∨ e = Exn.valueError <;>
      simp [Prog.under_handle, generated, hq, he, failed, Body.reject, hg]
  | ok argv =>
    cases files.lstat (posixPath project.codemcpConfig) <;>
      cases hg : canGenerateCodemcpConfig project <;>
      by_cases he : argv = some command.argv <;>
      simp [Prog.under_handle, generated, hq, he, failed, Body.reject, hg]

/-- The policy accepts a command. -/
def Accepted (files : Files) (registry : Registry) (settings : PolicySettings)
    (project : ProjectSpec) (commandId : String) : Prop :=
  ∃ command, registeredCommandIn files registry settings project commandId = .ok command

theorem accepted_iff (hk : Keyed project) (hs : settings.allowArbitraryCommands = false)
    {commandId : String} :
    Accepted files registry settings project commandId ↔
      ∃ c ∈ project.commands, c.1 = commandId ∧
        ((files.lstat (posixPath project.codemcpConfig) = .missing ∧
          canGenerateCodemcpConfig project = true) ∨
          ∃ p, resolvedConfig files registry project = .ok p ∧ Lists (files.openRead p) c) := by
  have accepted (command : CommandSpec) :
      (∃ result, (allowedCommand project command).under (answer files registry) () = .ok result) ↔
        (verifyCodemcpCommand project command).under (answer files registry) () = .ok () := by
    unfold allowedCommand
    rw [Prog.under_bind]
    cases (verifyCodemcpCommand project command).under (answer files registry) () <;> simp
  unfold Accepted registeredCommandIn registeredCommand
  rw [if_neg (by simp [hs])]
  cases hf : project.commands.find? fun c => c.1 == commandId with
  | none =>
    refine iff_of_false (by rintro ⟨_, h⟩; cases h) ?_
    rintro ⟨c, hc, he, -⟩
    simpa [he] using List.find?_eq_none.1 hf c hc
  | some c =>
    have hc := List.mem_of_find?_eq_some hf
    have he : c.1 = commandId := by simpa using List.find?_some hf
    refine (accepted c.2).trans (verifyCodemcpCommand_ok.trans ?_)
    rw [hk.2 c hc]
    constructor
    · intro h
      exact ⟨c, hc, he, h⟩
    · rintro ⟨d, hd, hde, h⟩
      rw [← hde, find?_key hk.1 hd] at hf
      cases hf
      exact h

theorem accepted_key (hk : Keyed project) (hs : settings.allowArbitraryCommands = false)
    {c : String × CommandSpec} (hc : c ∈ project.commands) :
    Accepted files registry settings project c.1 ↔
      (files.lstat (posixPath project.codemcpConfig) = .missing ∧
        canGenerateCodemcpConfig project = true) ∨
      ∃ p, resolvedConfig files registry project = .ok p ∧ Lists (files.openRead p) c := by
  rw [accepted_iff hk hs]
  constructor
  · rintro ⟨d, hd, he, h⟩
    rwa [eq_of_key hk hc hd he] at h
  · exact fun h => ⟨c, hc, rfl, h⟩

/-! ## Where the policy looks -/

theorem sameNames {xs ys : List String} (hl : xs.length ≤ ys.length)
    (h : (xs.zip ys).all (fun p => files.host.sameName p.1 p.2) = true) :
    ys = xs ++ ys.drop xs.length := by
  induction xs generalizing ys with
  | nil => rfl
  | cons x xs ih =>
    cases ys with
    | nil => exact absurd hl (by simp)
    | cons y ys =>
      rw [List.zip_cons_cons, List.all_cons, Bool.and_eq_true] at h
      have hxy : x = y := eq_of_beq h.1
      rw [hxy, List.length_cons, List.drop_succ_cons, List.cons_append,
        ← ih (Nat.le_of_succ_le_succ hl) h.2]

theorem relativeTo_names {base path : HostPath} {names : List String}
    (h : files.host.relativeTo base path = some names) : path = base.below names := by
  unfold Host.relativeTo at h
  split_ifs at h with hc
  obtain ⟨hd, hr, hl, hz⟩ := hc
  have hn := sameNames hl hz
  rw [Option.some.injEq] at h
  rw [h] at hn
  obtain ⟨drive, root, all⟩ := path
  have hd : base.drive = drive := eq_of_beq hd
  dsimp only at hr hn
  rw [HostPath.below, ← hn, hr, hd]

/-- What the relative path of the configuration is made of. -/
theorem relativeConfig_ok {text : String} (h : relativeConfig files project = .ok text) :
    ∃ names, posixPath project.codemcpConfig = (posixPath project.root).below names ∧
      (∀ name ∈ names, PlainName name) ∧ Text.parts text = names := by
  unfold relativeConfig at h
  have plain {names : List String} (hn : posixPath project.codemcpConfig =
      (posixPath project.root).below names) : ∀ name ∈ names, PlainName name := by
    intro name hm
    have : name ∈ (posixPath project.codemcpConfig).names := by
      rw [hn]
      exact List.mem_append_right _ hm
    exact plainName_of_mem_parts this
  split at h
  · cases h
  · rename_i hrel
    cases h
    exact ⟨[], relativeTo_names hrel, by simp, by decide⟩
  · rename_i names _ hrel
    cases h
    have hn := relativeTo_names hrel
    exact ⟨names, hn, plain hn, Text.parts_intercalate (plain hn)⟩

/-- The path that is opened has the names of the relative path between slashes. -/
theorem resolvedConfig_names (hr : registry.lookup project.projectId = some project)
    {text : String} (ht : relativeConfig files project = .ok text) {p : HostPath}
    (hp : resolvedConfig files registry project = .ok p) :
    p = files.host.joinpath (posixPath project.root) (Text.parts (slashed text)) := by
  unfold resolvedConfig at hp
  obtain ⟨text', ht', hp⟩ := bind_eq_ok.1 hp
  rw [ht] at ht'
  cases ht'
  obtain ⟨⟨found, candidate, normalized⟩, hres, hp⟩ := bind_eq_ok.1 hp
  unfold ProjectRegistry.resolvePath at hres
  obtain ⟨project', hg, hres⟩ := bind_eq_ok.1 hres
  obtain ⟨⟨path, form⟩, hl, hres⟩ := bind_eq_ok.1 hres
  obtain ⟨-, -, hres⟩ := bind_eq_ok.1 hres
  rw [get_ok, hr] at hg
  cases hg
  cases hres
  cases hp
  unfold locate at hl
  split at hl
  · cases hl
  · rename_i path hf
    obtain ⟨hs, -⟩ := Option.filter_eq_some_iff.1 hf
    cases hs
    split at hl
    · cases hl
    · rename_i normalized hn
      rw [if_neg (by simp)] at hl
      cases hl
      rw [parts_normalized hn]
      rfl

/-- A path without a backslash is itself opened. -/
theorem resolvedConfig_straight (hr : registry.lookup project.projectId = some project)
    {text : String} (ht : relativeConfig files project = .ok text) (hb : '\\' ∉ text.toList)
    {p : HostPath} (hp : resolvedConfig files registry project = .ok p) :
    p = posixPath project.codemcpConfig := by
  obtain ⟨names, hn, plain, hparts⟩ := relativeConfig_ok ht
  rw [resolvedConfig_names hr ht hp, slashed_eq_self hb, hparts, hn]
  exact Host.joinpath_takes fun name hm => ⟨plain name hm, fun hw => Bool.noConfusion hw⟩

theorem parts_slash (a b : List Char) :
    Text.parts (String.ofList (a ++ '/' :: b)) =
      Text.parts (String.ofList a) ++ Text.parts (String.ofList b) := by
  unfold Text.parts Text.split
  rw [String.toList_ofList, String.toList_ofList, String.toList_ofList,
    Text.splitBy_append_sep (by rfl), List.map_append, List.filter_append]

theorem slashes_all {l : List Char}
    (h : (l.takeWhile (· == '/')).length = l.length) : l.takeWhile (· == '/') = l :=
  (List.takeWhile_prefix _).eq_of_length h

/-- The names of a path that goes on below another one. -/
theorem parts_join {root name : String} (hn : Paths.isAbsolute name = false) (hd : name ≠ ".") :
    Text.parts (Paths.join root name) = Text.parts root ++ Text.parts name := by
  unfold Paths.join
  rw [if_neg (by simp [hn]), if_neg hd]
  by_cases he : root.toList.getLast? = some '/'
  · obtain ⟨init, hi⟩ := List.getLast?_eq_some_iff.1 he
    have hr : root = String.ofList (init ++ '/' :: []) := by rw [← hi, String.ofList_toList]
    have hj : root ++ name = String.ofList (init ++ '/' :: name.toList) := by
      rw [← String.toList_inj, String.toList_append, hi, String.toList_ofList]
      simp
    have nothing : Text.parts (String.ofList []) = [] := by decide
    rw [if_pos he, hj, parts_slash, String.ofList_toList]
    conv_rhs => rw [hr, parts_slash, nothing, List.append_nil]
  · have hj : root ++ "/" ++ name = String.ofList (root.toList ++ '/' :: name.toList) := by
      rw [← String.toList_inj, String.toList_append, String.toList_append, String.toList_ofList]
      simp
    rw [if_neg he, hj, parts_slash, String.ofList_toList, String.ofList_toList]

/-- The root of a path that goes on below another one. -/
theorem rootOf_join {root name : String} (hn : Paths.isAbsolute name = false) (hd : name ≠ ".")
    (hr : root ≠ "") : Paths.rootOf (Paths.join root name) = Paths.rootOf root := by
  have unslashed : name.toList.takeWhile (· == '/') = [] := by
    unfold Paths.isAbsolute at hn
    cases h : name.toList with
    | nil => rfl
    | cons c cs =>
      rw [h] at hn
      exact List.takeWhile_cons_of_neg (by simpa using hn)
  suffices h : (Paths.join root name).toList.takeWhile (· == '/') =
      root.toList.takeWhile (· == '/') by
    unfold Paths.rootOf
    rw [h]
  unfold Paths.join
  rw [if_neg (by simp [hn]), if_neg hd]
  by_cases he : root.toList.getLast? = some '/'
  · rw [if_pos he, String.toList_append, List.takeWhile_append, unslashed, List.append_nil]
    split_ifs with hl
    · exact (slashes_all hl).symm
    · rfl
  · rw [if_neg he, String.toList_append, String.toList_append, List.append_assoc,
      List.takeWhile_append, if_neg]
    intro hl
    have hall := List.takeWhile_eq_self_iff.1 (slashes_all hl)
    have hne : root.toList ≠ [] := by simpa using hr
    refine he ?_
    rw [List.getLast?_eq_some_getLast hne]
    exact congrArg some (eq_of_beq (hall _ (List.getLast_mem hne)))

/-- The generated configuration lies in the root. -/
theorem posixPath_join (root : String) :
    posixPath (Paths.join root generatedConfigName) =
      (posixPath root).below [generatedConfigName] := by
  have hn : Paths.isAbsolute generatedConfigName = false := by decide
  have hd : generatedConfigName ≠ "." := by decide
  have hp : Text.parts generatedConfigName = [generatedConfigName] := by decide
  unfold posixPath HostPath.below
  dsimp only
  rw [parts_join hn hd, hp]
  by_cases hr : root = ""
  · subst hr
    decide
  · rw [rootOf_join hn hd hr]

theorem relativeConfig_generated (h : canGenerateCodemcpConfig project = true) :
    relativeConfig files project = .ok generatedConfigName := by
  have hc : project.codemcpConfig = Paths.join project.root generatedConfigName := by
    unfold canGenerateCodemcpConfig at h
    simp only [Bool.and_eq_true, beq_iff_eq] at h
    exact h.2
  unfold relativeConfig
  rw [hc, posixPath_join, Host.relativeTo_below]
  rfl

theorem commands_of_generated (h : canGenerateCodemcpConfig project = true) :
    ∃ c, c ∈ project.commands := by
  unfold canGenerateCodemcpConfig at h
  simp only [Bool.and_eq_true, Bool.not_eq_true', List.isEmpty_eq_false_iff] at h
  exact List.exists_mem_of_ne_nil _ h.1.2

/-! ## Agreement -/

/-- Nothing stands between the report and the policy. -/
structure Agreeable (files : Files) (registry : Registry) (project : ProjectSpec) : Prop where
  /-- No link dangles in the place of a configuration that could be generated. -/
  undangled : canGenerateCodemcpConfig project = true →
    files.lstat (posixPath project.codemcpConfig) ≠ .missing →
      files.openRead (posixPath project.codemcpConfig) ≠ .missing
  /-- `resolve_path` accepts the path, if the file behind it has a command of the project. -/
  accepted : ∀ c ∈ project.commands, Lists (files.openRead (posixPath project.codemcpConfig)) c →
    ∃ p, resolvedConfig files registry project = .ok p
  /-- If a backslash leads it past that file, it finds the same commands there. -/
  straight : ∀ text p, relativeConfig files project = .ok text → '\\' ∈ text.toList →
    resolvedConfig files registry project = .ok p →
      ∀ c ∈ project.commands, Lists (files.openRead p) c ↔
        Lists (files.openRead (posixPath project.codemcpConfig)) c

theorem not_lists_missing {c : String × CommandSpec} : ¬ Lists .missing c := by
  intro h
  obtain ⟨_, h, -⟩ := lists_iff.1 h
  cases h

/-- Where the report and the policy agree, nothing stands between them. -/
theorem agreeable_of_agree (hr : registry.lookup project.projectId = some project)
    (hk : Keyed project) (hs : settings.allowArbitraryCommands = false)
    (agree : ∀ commandId, Matched files project commandId ↔
      Accepted files registry settings project commandId) : Agreeable files registry project := by
  have agree {c : String × CommandSpec} (hc : c ∈ project.commands) :=
    (matched_key hk hc).symm.trans ((agree c.1).trans (accepted_key hk hs hc))
  have reached {c : String × CommandSpec} (hc : c ∈ project.commands)
      (h : Lists (files.openRead (posixPath project.codemcpConfig)) c) :
      ∃ p, resolvedConfig files registry project = .ok p ∧ Lists (files.openRead p) c := by
    rcases (agree hc).1 (.inr h) with ⟨hl, -⟩ | hp
    · rw [files.openRead_of_lstat _ hl] at h
      exact absurd h not_lists_missing
    · exact hp
  refine ⟨?_, ?_, ?_⟩
  · intro hg hl hm
    obtain ⟨c, hc⟩ := commands_of_generated hg
    rcases (agree hc).1 (.inl ⟨hm, hg⟩) with ⟨h, -⟩ | ⟨p, hp, h⟩
    · exact hl h
    · rw [resolvedConfig_straight hr (relativeConfig_generated hg) (by decide) hp, hm] at h
      exact not_lists_missing h
  · intro c hc h
    obtain ⟨p, hp, -⟩ := reached hc h
    exact ⟨p, hp⟩
  · intro text p ht hb hp c hc
    constructor
    · intro h
      rcases (agree hc).2 (.inr ⟨p, hp, h⟩) with ⟨-, hg⟩ | h
      · rw [relativeConfig_generated hg] at ht
        cases ht
        exact absurd hb (by decide)
      · exact h
    · intro h
      obtain ⟨p', hp', h'⟩ := reached hc h
      rw [hp] at hp'
      cases hp'
      exact h'

/-- What the policy opens has the same commands of the project, straight or not. -/
theorem Agreeable.lists (h : Agreeable files registry project)
    (hr : registry.lookup project.projectId = some project) {c : String × CommandSpec}
    (hc : c ∈ project.commands) {p : HostPath}
    (hp : resolvedConfig files registry project = .ok p) :
    Lists (files.openRead p) c ↔ Lists (files.openRead (posixPath project.codemcpConfig)) c := by
  obtain ⟨text, ht, -⟩ := bind_eq_ok.1 hp
  by_cases hb : '\\' ∈ text.toList
  · exact h.straight text p ht hb hp c hc
  · rw [resolvedConfig_straight hr ht hb hp]

theorem Agreeable.agree (h : Agreeable files registry project)
    (hr : registry.lookup project.projectId = some project) (hk : Keyed project)
    (hs : settings.allowArbitraryCommands = false) (commandId : String) :
    Matched files project commandId ↔ Accepted files registry settings project commandId := by
  rw [matched_iff hk, accepted_iff hk hs]
  refine exists_congr fun c => and_congr_right fun hc => and_congr_right fun _ => ?_
  constructor
  · rintro (⟨hm, hg⟩ | hlists)
    · by_contra hno
      exact h.undangled hg (fun hl => hno (.inl ⟨hl, hg⟩)) hm
    · obtain ⟨p, hp⟩ := h.accepted c hc hlists
      exact .inr ⟨p, hp, (h.lists hr hc hp).2 hlists⟩
  · rintro (⟨hl, hg⟩ | ⟨p, hp, hlists⟩)
    · exact .inl ⟨files.openRead_of_lstat _ hl, hg⟩
    · exact .inr ((h.lists hr hc hp).1 hlists)

/-- On a POSIX host, the report and the policy agree on every command of a project, and a project
that is ready has them all accepted, exactly if nothing stands between the two. -/
theorem readiness_agrees_iff (files : Files) (registry : Registry) (settings : PolicySettings)
    (project : ProjectSpec) (hr : registry.lookup project.projectId = some project)
    (hk : Keyed project) (hs : settings.allowArbitraryCommands = false) :
    ((∀ commandId, Matched files project commandId ↔
        Accepted files registry settings project commandId) ∧
      (Ready files project → ∀ c ∈ project.commands,
        Accepted files registry settings project c.1)) ↔ Agreeable files registry project := by
  constructor
  · rintro ⟨agree, -⟩
    exact agreeable_of_agree hr hk hs agree
  · intro h
    have agree := h.agree hr hk hs
    exact ⟨agree, fun hready c hc => (agree c.1).1 (matched_of_ready hk hready hc)⟩

/-- A project with a test that prints. -/
def testedProject : ProjectSpec where
  projectId := "demo"
  root := "/srv/demo"
  allowedBranches := []
  requireCleanWorkspace := true
  codemcpConfig := "/srv/demo/codemcp.toml"
  commands := [("test", { commandId := "test", kind := "test", argv := ["pytest", "-q"]
                          timeoutSeconds := .finite 60, approval := .notRequired })]
  profile := some "python"
  profileSource := "explicit"

/-- Directories everywhere, but for the configuration of the project. -/
def filesWith (stat : Stat) (opened : Opened)
    (h : stat = .missing → opened = .missing) : Files where
  lstat path := if path = posixPath "/srv/demo/codemcp.toml" then stat else .other
  exists_ _ := true
  resolve := some
  openRead path := if path = posixPath "/srv/demo/codemcp.toml" then opened else .failed
  openRead_of_lstat path hl := by
    split_ifs at hl ⊢ with hp
    exact h hl

theorem lstat_filesWith {stat : Stat} {opened : Opened} {h : stat = .missing → opened = .missing} :
    (filesWith stat opened h).lstat (posixPath "/srv/demo/codemcp.toml") = stat := by
  simp [filesWith]

theorem openRead_filesWith {stat : Stat} {opened : Opened}
    {h : stat = .missing → opened = .missing} :
    (filesWith stat opened h).openRead (posixPath "/srv/demo/codemcp.toml") = opened := by
  simp [filesWith]

/-- The configuration of the test. -/
def testedConfig : Opened :=
  .read "[commands.test]\ncommand = [\"pytest\", \"-q\"]\n".toUTF8 false

theorem keyed_testedProject : Keyed testedProject := by
  refine ⟨by simp [testedProject], ?_⟩
  intro c hc
  rw [List.mem_singleton.1 hc]

/-- A regular file with the command of the project. -/
theorem readiness_agrees_regular :
    Matched (filesWith .regular testedConfig (by simp)) testedProject "test" ∧
      Accepted (filesWith .regular testedConfig (by simp)) [("demo", testedProject)] {}
        testedProject "test" := by
  have direct : Agreeable (filesWith .regular testedConfig (by simp)) [("demo", testedProject)]
      testedProject := by
    have resolved : resolvedConfig (filesWith .regular testedConfig (by simp))
        [("demo", testedProject)] testedProject = .ok (posixPath "/srv/demo/codemcp.toml") := by
      decide +kernel
    refine ⟨fun _ _ h => ?_, fun c hc h => ⟨_, resolved⟩, fun text p ht hb => ?_⟩
    · have opened : (filesWith .regular testedConfig (by simp)).openRead
          (posixPath testedProject.codemcpConfig) = testedConfig := openRead_filesWith
      cases opened.symm.trans h
    · have relative : relativeConfig (filesWith .regular testedConfig (by simp)) testedProject =
          .ok "codemcp.toml" := by decide +kernel
      rw [relative] at ht
      cases ht
      exact absurd hb (by decide)
  have agree := ((readiness_agrees_iff _ _ {} _ (by decide +kernel) keyed_testedProject rfl).2
    direct).1 "test"
  have lists : Lists testedConfig ("test", { commandId := "test", kind := "test"
                                             argv := ["pytest", "-q"], timeoutSeconds := .finite 60
                                             approval := .notRequired }) := by
    unfold Lists
    decide +kernel
  have matched : Matched (filesWith .regular testedConfig (by simp)) testedProject "test" :=
    (matched_key keyed_testedProject List.mem_cons_self).2 (.inr lists)
  exact ⟨matched, agree.1 matched⟩

theorem ready_of_map {files : Files} {project : ProjectSpec}
    (h : (inspectDevelopmentReadiness files project).map (fun r => r.developmentReady) = .ok true) :
    Ready files project := by
  unfold Ready
  cases hi : inspectDevelopmentReadiness files project with
  | error fault => rw [hi] at h; cases h
  | ok report =>
    rw [hi] at h
    exact ⟨report, rfl, Except.ok.inj h⟩

theorem resolvedConfig_link {opened : Opened} :
    resolvedConfig (filesWith .link opened (by simp)) [("demo", testedProject)] testedProject =
      .error (.bridge { code := .pathEscape,
                        message := "symlink or reparse-point paths are denied" }) := by
  rfl

/-- Behind a link nothing is accepted. -/
theorem not_accepted_link {opened : Opened} :
    ¬ Accepted (filesWith .link opened (by simp)) [("demo", testedProject)] {} testedProject
      "test" := by
  rw [accepted_iff keyed_testedProject rfl]
  rintro ⟨c, -, -, ⟨hl, -⟩ | ⟨p, hp, -⟩⟩
  · have found : (filesWith .link opened (by simp)).lstat
        (posixPath testedProject.codemcpConfig) = .link := lstat_filesWith
    cases found.symm.trans hl
  · rw [resolvedConfig_link] at hp
    cases hp

/-- A configuration that is reached through a link is ready and refused, and so is one whose link
dangles. -/
theorem linked_ready_refused :
    (Ready (filesWith .link testedConfig (by simp)) testedProject ∧
      ¬ Accepted (filesWith .link testedConfig (by simp)) [("demo", testedProject)] {}
        testedProject "test") ∧
    Ready (filesWith .link .missing (by simp)) testedProject ∧
      ¬ Accepted (filesWith .link .missing (by simp)) [("demo", testedProject)] {}
        testedProject "test" := by
  refine ⟨⟨ready_of_map ?_, not_accepted_link⟩, ready_of_map ?_, not_accepted_link⟩
  · decide +kernel
  · decide +kernel

end ProjectReadiness

end CodemcpBridge

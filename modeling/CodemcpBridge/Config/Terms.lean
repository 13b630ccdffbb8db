import CodemcpBridge.Config.Reload

/-!
# The terms of a command

The kind, the timeout and the approval of a registered command, read off `projects.toml` alone.
Whatever the files in a project root say, a loaded command has these terms.
-/

namespace CodemcpBridge

open Async Loader

/-- What decides how a command is run: its kind, its timeout and whether it needs an approval. -/
structure Terms where
  kind : String
  timeoutSeconds : PyFloat
  approval : Approval
  deriving DecidableEq

def CommandSpec.terms (c : CommandSpec) : Terms :=
  { kind := c.kind, timeoutSeconds := c.timeoutSeconds, approval := c.approval }

/-! ## Of an explicit command -/

def explicitTimeout (kind : String) : Option Toml → Option PyFloat
  | none => some (defaultCommandTimeoutSeconds kind)
  | some (.int n) => if n ≤ 0 then none else PyFloat.ofInt n
  | some (.float x) => if x.nonpositive then none else some x
  | some _ => none

def explicitApproval (kind : String) (value : Option Toml) : Option Approval :=
  let given : Option Approval := match value with
    | none => some (defaultCommandApproval kind)
    | some value => approval? value
  given.filter fun approval =>
    ¬(defaultCommandApproval kind = .required ∧ approval ≠ .required)

/-- The terms of a command table. -/
def explicitTerms : Toml → Option Terms
  | .table t => do
    let kind ← ((Toml.get t "kind").bind Toml.str?).filter (· ≠ "")
    let approval ← explicitApproval kind (Toml.get t "approval")
    let timeoutSeconds ← explicitTimeout kind (Toml.get t "timeout_seconds")
    pure { kind, timeoutSeconds, approval }
  | _ => none

/-! ## Of a built-in command -/

/-- The terms of the built-in commands of this id. -/
def builtinTerms (commandId : String) : Option Terms :=
  ((builtinProfiles.flatMap Prod.snd).find? fun c => c.1 == commandId).map fun c => c.2.terms

/-- Built-in commands of one id have the same terms in every profile. -/
theorem builtinTerms_of_builtin {profileId : String} {commands : Commands}
    (h : builtinProfile profileId = some commands) :
    ∀ c ∈ commands, builtinTerms c.1 = some c.2.terms := by
  obtain ⟨p, hp, rfl⟩ := Option.map_eq_some_iff.1 h
  have all : ∀ p ∈ builtinProfiles, ∀ c ∈ p.2, builtinTerms c.1 = some c.2.terms := by
    decide +kernel
  exact all p (List.mem_of_find?_eq_some hp)

/-! ## Of a project's command -/

/-- The terms of a command in a table of explicit commands, or else of the built-in one. -/
def commandTerms (explicit : Toml.Table) (commandId : String) : Option Terms :=
  match Toml.get explicit commandId with
  | some raw => explicitTerms raw
  | none => builtinTerms commandId

/-- The table at a key, where the loader takes an absent one for an empty one. -/
def subtable (t : Toml.Table) (key : String) : Toml.Table :=
  match Toml.get t key with
  | some (.table entries) => entries
  | _ => []

/-- The terms of a command of a project, read off the document. -/
def termsOf (document : Toml.Table) (projectId commandId : String) : Option Terms :=
  commandTerms (subtable (subtable (subtable document "projects") projectId) "commands") commandId

/-- A kind that does not run by itself needs an approval. -/
def Terms.Guarded (t : Terms) : Prop := t.kind ∉ autoApprovalKinds → t.approval = .required

theorem explicitTerms_guarded {raw : Toml} {t : Terms} (h : explicitTerms raw = some t) :
    t.Guarded := by
  intro hkind
  unfold explicitTerms at h
  split at h
  · simp only [Option.bind_eq_bind, Option.bind_eq_some_iff] at h
    obtain ⟨kind, -, approval, happroval, timeout, -, ht⟩ := h
    obtain rfl := Option.some.inj ht
    have hrequired : defaultCommandApproval kind = .required := if_neg hkind
    unfold explicitApproval at happroval
    have hpass := (Option.filter_eq_some_iff.1 happroval).2
    simpa [hrequired] using hpass
  · cases h

theorem builtinTerms_guarded {commandId : String} {t : Terms}
    (h : builtinTerms commandId = some t) : t.Guarded := by
  obtain ⟨c, hc, rfl⟩ := Option.map_eq_some_iff.1 h
  obtain ⟨p, hp, hcp⟩ := List.mem_flatMap.1 (List.mem_of_find?_eq_some hc)
  have all : ∀ p ∈ builtinProfiles, ∀ c ∈ p.2, c.2.kind ∉ autoApprovalKinds →
      c.2.approval = .required := by decide +kernel
  exact all p hp c hcp

theorem termsOf_guarded {document : Toml.Table} {projectId commandId : String} {t : Terms}
    (h : termsOf document projectId commandId = some t) : t.Guarded := by
  unfold termsOf commandTerms at h
  split at h
  · exact explicitTerms_guarded h
  · exact builtinTerms_guarded h

/-! ## What the loader makes of a document -/

/-- The answers of moments at which `projects.toml` holds a document in `D`, or none. -/
def Holding (D : Toml.Table → Prop) (q : Probe) (a : Except ConfigExn q.Result) : Prop :=
  ∃ m : Moment, (∀ document, m.tomlLoad = .ok document → D document) ∧ a = Moment.answer q m

section Yields

variable {D : Toml.Table → Prop}

theorem yields_parseApproval (kind name : String) (value : Option Toml) :
    (parseApproval kind name value).Yields (Holding D) fun approval =>
      explicitApproval kind value = some approval := by
  have checked {approval : Approval}
      (h : ¬(defaultCommandApproval kind = .required ∧ approval ≠ .required) →
        explicitApproval kind value = some approval) :
      (checkApproval kind name approval).Yields (Holding D) fun approval =>
        explicitApproval kind value = some approval :=
    Prog.yields_ite (fun _ => Prog.yields_raise _) fun hc => Prog.yields_pure (h hc)
  cases value with
  | none =>
    refine checked fun hc => ?_
    unfold explicitApproval
    simp [Option.filter]
  | some value =>
    refine Prog.yields_bind (Prog.yields_true _) fun _ _ => ?_
    cases hv : approval? value with
    | none => exact Prog.yields_raise _
    | some approval =>
      refine checked fun hc => ?_
      unfold explicitApproval
      simpa [Option.filter, hv] using hc

theorem yields_parseTimeout (kind name : String) (value : Option Toml) :
    (parseTimeout kind name value).Yields (Holding D) fun timeout =>
      explicitTimeout kind value = some timeout := by
  unfold parseTimeout
  split
  · exact Prog.yields_pure rfl
  · next n =>
    refine Prog.yields_ite (fun _ => Prog.yields_raise _) fun hn => Prog.yields_ask fun x hx => ?_
    obtain ⟨m, -, hx⟩ := hx
    unfold Moment.answer Moment.outcome at hx
    change (if n ≤ 0 then none else PyFloat.ofInt n) = some x
    rw [if_neg hn]
    cases hf : PyFloat.ofInt n with
    | none => simp [hf, Except.mapError] at hx
    | some y => simpa [hf, Except.mapError, eq_comm] using hx
  · next x =>
    refine Prog.yields_ite (fun _ => Prog.yields_raise _) fun hx => Prog.yields_pure ?_
    change (if x.nonpositive then none else some x) = some x
    rw [if_neg hx]
  · exact Prog.yields_raise _

theorem yields_parseCommand (commandId : String) (raw : Toml) :
    (parseCommand commandId raw).Yields (Holding D) fun c =>
      explicitTerms raw = some c.terms := by
  unfold parseCommand
  split
  · next t =>
    split
    · exact Prog.yields_raise _
    · split
      · exact Prog.yields_raise _
      · next kind hkind =>
        refine Prog.yields_bind (yields_parseApproval _ _ _) fun approval happroval => ?_
        refine Prog.yields_bind (yields_parseTimeout _ _ _) fun timeout htimeout => ?_
        refine Prog.yields_pure ?_
        simp only [explicitTerms, hkind, Option.bind_eq_bind, Option.bind_some, happroval,
          htimeout]
        rfl
  · exact Prog.yields_raise _

/-- The commands of a profile keep the terms of their ids, whatever the script in the root says. -/
theorem yields_applyProfileRootCommandDefaults (root : String) (profileId : Option String)
    {commands : Commands} (h : ∀ c ∈ commands, builtinTerms c.1 = some c.2.terms) :
    (applyProfileRootCommandDefaults root profileId commands).Yields (Holding D) fun commands =>
      ∀ c ∈ commands, builtinTerms c.1 = some c.2.terms := by
  unfold applyProfileRootCommandDefaults
  refine Prog.yields_ite (fun _ => Prog.yields_pure h) fun _ => ?_
  split
  · exact Prog.yields_pure h
  · next id existing hfind =>
    refine Prog.yields_bind (Prog.yields_true _) fun argv _ => ?_
    cases argv with
    | none => exact Prog.yields_pure h
    | some argv =>
      refine Prog.yields_pure fun c hc => ?_
      obtain ⟨b, hb, rfl⟩ := List.mem_map.1 hc
      by_cases htest : b.1 = "test"
      · have hid : id = "test" := by simpa using List.find?_some hfind
        have hexisting := h _ (List.mem_of_find?_eq_some hfind)
        simp only [hid] at hexisting
        have hkind : existing.kind = "test" := by
          have hterms : builtinTerms "test" =
              some { kind := "test", timeoutSeconds := 900, approval := .notRequired } := by
            decide +kernel
          exact congrArg Terms.kind (Option.some.inj (hexisting.symm.trans hterms))
        rw [if_pos htest, hexisting]
        simp only [CommandSpec.terms, hkind]
      · rw [if_neg htest]
        exact h b hb

end Yields

/-- Explicit commands stand over those of a profile. -/
theorem find?_mergeCommands (commands explicit : Commands) (commandId : String) :
    (mergeCommands commands explicit).find? (fun c => c.1 == commandId) =
      match explicit.find? fun c => c.1 == commandId with
      | some e => some e
      | none => commands.find? fun c => c.1 == commandId := by
  unfold mergeCommands
  rw [List.find?_append, List.find?_map, List.find?_filter]
  have keep : (fun c : String × CommandSpec => c.1 == commandId) ∘ (fun c : String × CommandSpec =>
      (c.1, ((explicit.find? fun e => e.1 == c.1).map Prod.snd).getD c.2)) =
        fun c => c.1 == commandId := rfl
  rw [keep]
  cases hc : commands.find? fun c => c.1 == commandId with
  | some c =>
    have hid : c.1 = commandId := by simpa using List.find?_some hc
    cases he : explicit.find? fun c => c.1 == commandId with
    | some e =>
      obtain rfl : e.1 = commandId := by simpa using List.find?_some he
      simp [hid, he]
    | none => simp [hid, he, Prod.ext_iff]
  | none =>
    have fresh : (fun e : String × CommandSpec => decide
        ((!commands.any fun c => c.1 == e.1) = true ∧ (e.1 == commandId) = true)) =
        fun e => e.1 == commandId := by
      funext e
      by_cases he : e.1 = commandId
      · have hnone := List.find?_eq_none.1 hc
        simp only [beq_iff_eq] at hnone
        simpa [he] using fun a b h hab => hnone (a, b) h hab
      · simp [he]
    simp only [Option.map_none, Option.none_or]
    rw [fresh]
    cases explicit.find? fun c => c.1 == commandId <;> rfl

/-- A lookup in a table whose entries were worked on one by one finds the work on the entry that the
lookup in the first table finds. -/
theorem find?_of_results {α β : Type} {O : String × α → String × β → Prop} {l : List (String × α)}
    {l' : List (String × β)} (h : List.Forall₂ O l l') (hkey : ∀ a b, O a b → b.1 = a.1)
    {key : String} {b : β} (hb : (l'.find? fun e => e.1 == key).map Prod.snd = some b) :
    ∃ a, (l.find? fun e => e.1 == key).map Prod.snd = some a ∧ O (key, a) (key, b) := by
  induction h with
  | nil => cases hb
  | @cons x y l l' hxy _ ih =>
    have hk := hkey x y hxy
    by_cases hx : x.1 = key
    · rw [List.find?_cons_of_pos (by simpa [hk] using hx)] at hb
      rw [List.find?_cons_of_pos (by simpa using hx)]
      obtain rfl := Option.some.inj hb
      obtain ⟨k, a⟩ := x
      obtain ⟨k', b⟩ := y
      subst hx hk
      exact ⟨a, rfl, hxy⟩
    · rw [List.find?_cons_of_neg (by simpa [hk] using hx)] at hb
      rw [List.find?_cons_of_neg (by simpa using hx)]
      exact ih hb

theorem find?_of_results_none {α β : Type} {O : String × α → String × β → Prop}
    {l : List (String × α)} {l' : List (String × β)} (h : List.Forall₂ O l l')
    (hkey : ∀ a b, O a b → b.1 = a.1) {key : String} (hb : l'.find? (fun e => e.1 == key) = none) :
    l.find? (fun e => e.1 == key) = none := by
  simp only [List.find?_eq_none, beq_iff_eq] at hb ⊢
  intro a ha hak
  induction h with
  | nil => cases ha
  | @cons x y l l' hxy _ ih =>
    rcases List.mem_cons.1 ha with rfl | ha
    · exact hb y List.mem_cons_self ((hkey _ _ hxy).trans hak)
    · exact ih (fun b hb' => hb b (List.mem_cons_of_mem _ hb')) ha

section Yields

variable {D : Toml.Table → Prop}

/-- The built-in commands of a profile, or none. -/
def ProfileResolution.Builtin (resolution : ProfileResolution) : Prop :=
  ∀ profile ∈ resolution.profile, ∀ c ∈ profile.2, builtinTerms c.1 = some c.2.terms

theorem yields_resolved (profileId source : String) :
    (resolved profileId source).Yields (Holding D) ProfileResolution.Builtin := by
  unfold resolved
  split
  · exact Prog.yields_raise _
  · next commands h =>
    refine Prog.yields_pure fun profile hprofile => ?_
    cases hprofile
    exact builtinTerms_of_builtin h

theorem yields_resolveProjectProfile (root : String) (explicitProfile : Option String) :
    (resolveProjectProfile root explicitProfile).Yields (Holding D)
      ProfileResolution.Builtin := by
  refine Prog.yields_bind (Prog.yields_true _) fun detected _ => ?_
  split
  · exact yields_resolved _ _
  · exact Prog.yields_pure fun profile hprofile => nomatch hprofile
  · exact yields_resolved _ _

theorem yields_asMapping (value : Toml) (name : String) :
    (asMapping value name).Yields (Holding D) fun entries => value = .table entries := by
  unfold asMapping
  split
  · exact Prog.yields_pure rfl
  · exact Prog.yields_raise _

/-- The table at a key is what the loader goes on with. -/
theorem subtable_of_mapping {t entries : Toml.Table} {key : String}
    (h : (Toml.get t key).getD (.table []) = .table entries) : subtable t key = entries := by
  unfold subtable
  cases hg : Toml.get t key with
  | none => simpa [hg] using h
  | some value =>
    rw [hg] at h
    obtain rfl : value = .table entries := h
    rfl

theorem yields_parseCommands (root name : String) {resolution : ProfileResolution}
    (hres : resolution.Builtin) (raw : Toml.Table) :
    (parseCommands root name resolution raw).Yields (Holding D) fun commands =>
      ∀ commandId c, (commands.find? fun c => c.1 == commandId).map Prod.snd = some c →
        commandTerms (subtable raw "commands") commandId = some c.terms := by
  have hprofile : ∀ c ∈ (resolution.profile.map Prod.snd).getD [],
      builtinTerms c.1 = some c.2.terms := by
    cases hp : resolution.profile with
    | none => simp
    | some profile => exact hres profile hp
  refine Prog.yields_bind (yields_applyProfileRootCommandDefaults _ _ hprofile)
    fun profileCommands hcommands => ?_
  refine Prog.yields_bind (yields_asMapping _ _) fun commandsRaw hraw => ?_
  have parsed (c : String × Toml) : (do
      let command ← parseCommand c.1 c.2
      pure (c.1, command) : Loader (String × CommandSpec)).Yields (Holding D) fun r =>
        r.1 = c.1 ∧ explicitTerms c.2 = some r.2.terms :=
    Prog.yields_bind (yields_parseCommand _ _) fun command hterms =>
      Prog.yields_pure ⟨rfl, hterms⟩
  refine Prog.yields_bind (Prog.yields_collect parsed _) fun explicitCommands hexplicit => ?_
  refine Prog.yields_pure fun commandId c hc => ?_
  rw [find?_mergeCommands] at hc
  unfold commandTerms Toml.get
  rw [subtable_of_mapping hraw]
  cases he : explicitCommands.find? fun c => c.1 == commandId with
  | some e =>
    rw [he] at hc
    obtain rfl := Option.some.inj hc
    have hfound : (explicitCommands.find? fun c => c.1 == commandId).map Prod.snd = some e.2 := by
      rw [he]
      rfl
    obtain ⟨raw, hraw, -, hterms⟩ := find?_of_results hexplicit (fun _ _ h => h.1) hfound
    rw [hraw]
    exact hterms
  | none =>
    rw [he] at hc
    rw [find?_of_results_none hexplicit (fun _ _ h => h.1) he]
    obtain ⟨c, hfind, rfl⟩ := Option.map_eq_some_iff.1 hc
    obtain rfl : c.1 = commandId := by simpa using List.find?_some hfind
    exact hcommands c (List.mem_of_find?_eq_some hfind)

/-- A project of a document: the id of its entry, and commands whose terms stand in its table. -/
def ProjectTerms (entry : String × Toml) (p : String × ProjectSpec) : Prop :=
  p.1 = entry.1 ∧ ∃ raw, entry.2 = .table raw ∧ ∀ commandId c, p.2.command? commandId = some c →
    commandTerms (subtable raw "commands") commandId = some c.terms

theorem yields_parseProject (base : String) (entry : String × Toml) :
    (parseProject base entry).Yields (Holding D) (ProjectTerms entry) := by
  refine Prog.yields_ite (fun _ => Prog.yields_raise _) fun _ => ?_
  refine Prog.yields_bind (yields_asMapping _ _) fun raw hraw => ?_
  refine Prog.yields_bind (Prog.yields_true _) fun root _ => ?_
  refine Prog.yields_bind (Prog.yields_true _) fun branches _ => ?_
  refine Prog.yields_bind (Prog.yields_true _) fun configName _ => ?_
  refine Prog.yields_bind (Prog.yields_true _) fun explicit _ => ?_
  refine Prog.yields_bind (yields_resolveProjectProfile _ _) fun resolution hres => ?_
  refine Prog.yields_bind (yields_parseCommands _ _ hres _) fun commands hcommands => ?_
  refine Prog.yields_bind (Prog.yields_true _) fun clean _ => ?_
  exact Prog.yields_pure ⟨rfl, raw, hraw, hcommands⟩

/-- The terms of every loaded command stand in the document. -/
def TermsIn (document : Toml.Table) (projects : Registry) : Prop :=
  ∀ projectId p commandId c, projects.spec? projectId = some p → p.command? commandId = some c →
    termsOf document projectId commandId = some c.terms

theorem yields_readToml (path : String) : (readToml path).Yields (Holding D) D := by
  refine Prog.yields_handle (Prog.yields_ask fun document h => ?_) fun e y hy => ?_
  · obtain ⟨m, hm, ha⟩ := h
    refine hm document ?_
    have hload : (Except.ok document : Except ConfigExn Toml.Table) =
        m.tomlLoad.mapError .failure := ha
    cases ht : m.tomlLoad with
    | ok document' =>
      rw [ht] at hload
      cases hload
      rfl
    | error f =>
      rw [ht] at hload
      cases hload
  · split at hy
    · cases hy
      exact Prog.yields_raise _
    · cases hy
      exact Prog.yields_raise _
    · cases hy

/-- Whatever the project roots hold, the terms of a loaded command stand in the document that was
read. -/
theorem yields_loadProjects (path : String) : (loadProjects path).Yields (Holding D)
    fun projects => ∃ document, D document ∧ TermsIn document projects := by
  refine Prog.yields_bind (Prog.yields_true _) fun expanded _ => ?_
  refine Prog.yields_bind (Prog.yields_true _) fun path _ => ?_
  refine Prog.yields_bind (yields_readToml _) fun document hdocument => ?_
  refine Prog.yields_bind (yields_asMapping _ _) fun rawProjects hraw => ?_
  refine (Prog.yields_collect (yields_parseProject _) rawProjects).mono fun projects h => ?_
  refine ⟨document, hdocument, fun projectId p commandId c hp hc => ?_⟩
  obtain ⟨value, hvalue, -, raw, rfl, hterms⟩ := find?_of_results h (fun _ _ h => h.1) hp
  unfold termsOf
  rw [subtable_of_mapping hraw]
  have hsub : subtable rawProjects projectId = raw := by
    unfold subtable Toml.get
    rw [hvalue]
  rw [hsub]
  exact hterms commandId c hc

end Yields

/-- `load_projects` accepted this snapshot at some moments. -/
def Loaded (projects : Registry) : Prop :=
  ∃ path moments, ((loadProjects path).run Moment.answer moments).1 = .ok projects

/-- In a loaded snapshot a command whose kind does not run by itself needs an approval. -/
theorem Loaded.guarded {projects : Registry} (h : Loaded projects) {projectId commandId : String}
    {p : ProjectSpec} {c : CommandSpec} (hp : projects.spec? projectId = some p)
    (hc : p.command? commandId = some c) : c.terms.Guarded := by
  obtain ⟨path, moments, hrun⟩ := h
  obtain ⟨document, -, hterms⟩ := (yields_loadProjects (D := fun _ => True) path).run
    (fun q n => ⟨moments n, fun _ _ => trivial, rfl⟩) hrun
  exact termsOf_guarded (hterms projectId p commandId c hp hc)

/-- Two loads of one document agree on the terms of every command that both have, whatever the files
in the project roots were. -/
theorem terms_of_document {path : String} {document : Toml.Table} {moments moments' : ℕ → Moment}
    {projects projects' : Registry} (hdoc : ∀ n, (moments n).tomlLoad = .ok document)
    (hdoc' : ∀ n, (moments' n).tomlLoad = .ok document)
    (h : ((loadProjects path).run Moment.answer moments).1 = .ok projects)
    (h' : ((loadProjects path).run Moment.answer moments').1 = .ok projects')
    {projectId commandId : String} {p p' : ProjectSpec} {c c' : CommandSpec}
    (hp : projects.spec? projectId = some p) (hp' : projects'.spec? projectId = some p')
    (hc : p.command? commandId = some c) (hc' : p'.command? commandId = some c') :
    c.terms = c'.terms := by
  have holding {moments : ℕ → Moment} (hdoc : ∀ n, (moments n).tomlLoad = .ok document) (q n) :
      Holding (fun d => d = document) q (Moment.answer q (moments n)) :=
    ⟨moments n, fun d hd => Except.ok.inj (hd.symm.trans (hdoc n)), rfl⟩
  obtain ⟨_, rfl, hterms⟩ := (yields_loadProjects path).run (holding hdoc) h
  obtain ⟨_, rfl, hterms'⟩ := (yields_loadProjects path).run (holding hdoc') h'
  exact Option.some.inj ((hterms projectId p commandId c hp hc).symm.trans
    (hterms' projectId p' commandId c' hp' hc'))

end CodemcpBridge

import CodemcpBridge.Config.Reload

/-!
# Which exceptions leave the loader

Every question of the loader has some exceptions that are met where it is asked.  All others leave
the loader at once; apart from them it ends only with a value or with a `SettingsError`.
-/

namespace CodemcpBridge

open Async Loader

/-- The exceptions that are met where the question is asked. -/
def Probe.meets : Probe → Failure → Bool
  | stat _, .osError => true
  | tomlLoad _, .osError => true
  | tomlLoad _, .tomlDecodeError _ => true
  | isRegular _, .osError => true
  | readText _ .strict, .osError => true
  | readText _ .strict, .unicodeError => true
  | _, _ => false

/-- An exception that is not met where its question is asked. -/
def Unmet (q : Probe) (a : Except ConfigExn q.Result) : Prop :=
  ∃ f, a = .error (.failure f) ∧ q.meets f = false

/-- Only the loader itself raises a `SettingsError`. -/
def Unsettled (q : Probe) (a : Except ConfigExn q.Result) : Prop :=
  ∀ m, a ≠ .error (.settingsError m)

/-- `SettingsError`. -/
def IsSettings (e : ConfigExn) : Prop := ∃ m, e = .settingsError m

/-- The program ends with an exception other than a `SettingsError` only when it meets one. -/
structure Exposed {α : Type} (x : Loader α) : Prop where
  exposes : Prog.Exposes Unsettled Unmet IsSettings x

theorem not_isSettings (f : Failure) : ¬IsSettings (.failure f) := by
  rintro ⟨m, h⟩
  cases h

theorem not_unmet_ok {q : Probe} (b : q.Result) : ¬Unmet q (.ok b) := by
  rintro ⟨f, h, -⟩
  cases h

theorem unsettled_error {q : Probe} {e : ConfigExn} (h : Unsettled q (.error e)) :
    ∃ f, e = .failure f := by
  cases e with
  | settingsError m => exact absurd rfl (h m)
  | failure f => exact ⟨f, rfl⟩

section Rules

variable {α β : Type} {q : Probe}

theorem exposed_probe (h : ∀ f, q.meets f = false) : Exposed (probe q) := by
  refine ⟨Prog.exposes_ask not_unmet_ok fun e he => ?_⟩
  obtain ⟨f, rfl⟩ := unsettled_error he
  exact ⟨⟨f, rfl, h f⟩, not_isSettings f⟩

/-- A handler that meets just the exceptions that its question says are met. -/
theorem exposed_handle {h : ConfigExn → Option (Loader q.Result)}
    (hmet : ∀ f, q.meets f = true → ∃ x, h (.failure f) = some x ∧ Exposed x)
    (hpass : ∀ f, q.meets f = false → h (.failure f) = none) : Exposed ((probe q).handle h) := by
  refine ⟨Prog.exposes_handle not_unmet_ok (fun e x he hx => ?_) fun e he hx => ?_⟩
  · obtain ⟨f, rfl⟩ := unsettled_error he
    cases hf : q.meets f with
    | false => cases (hpass f hf).symm.trans hx
    | true =>
      obtain ⟨y, hy, hexp⟩ := hmet f hf
      cases hy.symm.trans hx
      refine ⟨?_, hexp.exposes⟩
      rintro ⟨g, hg, hfalse⟩
      cases hg
      simp [hf] at hfalse
  · obtain ⟨f, rfl⟩ := unsettled_error he
    refine ⟨⟨f, rfl, ?_⟩, not_isSettings f⟩
    by_contra hf
    obtain ⟨y, hy, -⟩ := hmet f (by simpa using hf)
    cases hy.symm.trans hx

theorem exposed_pure (a : α) : Exposed (pure a : Loader α) := ⟨Prog.exposes_pure a⟩

theorem exposed_refuse (m : String) : Exposed (refuse m : Loader α) :=
  ⟨Prog.exposes_raise ⟨m, rfl⟩⟩

theorem Exposed.bind_of {P : α → Prop} {x : Loader α} {g : α → Loader β} (hx : Exposed x)
    (hy : x.Yields Unsettled P) (hg : ∀ a, P a → Exposed (g a)) : Exposed (x >>= g) :=
  ⟨hx.exposes.bind_of hy fun a ha => (hg a ha).exposes⟩

theorem Exposed.bind {x : Loader α} {g : α → Loader β} (hx : Exposed x)
    (hg : ∀ a, Exposed (g a)) : Exposed (x >>= g) :=
  ⟨hx.exposes.bind fun a => (hg a).exposes⟩

theorem exposed_collect {g : α → Loader β} (hg : ∀ a, Exposed (g a)) (l : List α) :
    Exposed (Prog.collect g l) :=
  ⟨Prog.exposes_collect (fun a => (hg a).exposes) l⟩

theorem exposed_ite {c : Prop} [Decidable c] {x y : Loader α} (hx : Exposed x) (hy : Exposed y) :
    Exposed (if c then x else y) := by
  by_cases h : c
  · rwa [if_pos h]
  · rwa [if_neg h]

end Rules

/-! ## The loader -/

theorem exposed_asMapping (value : Toml) (name : String) : Exposed (asMapping value name) := by
  unfold asMapping
  split
  · exact exposed_pure _
  · exact exposed_refuse _

theorem exposed_readToml (path : String) : Exposed (readToml path) := by
  refine exposed_handle (fun f hf => ?_) fun f hf => ?_
  · cases f with
    | osError => exact ⟨_, rfl, exposed_refuse _⟩
    | tomlDecodeError m => exact ⟨_, rfl, exposed_refuse _⟩
    | _ => cases hf
  · cases f with
    | osError => cases hf
    | tomlDecodeError m => cases hf
    | _ => rfl

theorem exposed_expandUser (path : String) : Exposed (expandUser path) := by
  exact exposed_ite (exposed_probe fun _ => rfl) (exposed_pure _)

theorem exposed_resolvePath (base : String) (value : Option Toml) (name : String) :
    Exposed (resolvePath base value name) := by
  unfold resolvePath
  split
  · exact exposed_refuse _
  · exact (exposed_expandUser _).bind fun _ => exposed_probe fun _ => rfl

theorem exposed_relativeConfigPath (value : Toml) (name : String) :
    Exposed (relativeConfigPath value name) := by
  unfold relativeConfigPath
  split
  · exact exposed_refuse _
  · exact exposed_ite (exposed_refuse _) (exposed_ite (exposed_refuse _) (exposed_pure _))

theorem exposed_parseApproval (kind name : String) (value : Option Toml) :
    Exposed (parseApproval kind name value) := by
  have checked (approval : Approval) : Exposed (checkApproval kind name approval) :=
    exposed_ite (exposed_refuse _) (exposed_pure _)
  cases value with
  | none => exact checked _
  | some value =>
    refine (exposed_probe fun _ => rfl).bind fun _ => ?_
    cases approval? value with
    | none => exact exposed_refuse _
    | some approval => exact checked approval

theorem exposed_parseTimeout (kind name : String) (value : Option Toml) :
    Exposed (parseTimeout kind name value) := by
  unfold parseTimeout
  split
  · exact exposed_pure _
  · exact exposed_ite (exposed_refuse _) (exposed_probe fun _ => rfl)
  · exact exposed_ite (exposed_refuse _) (exposed_pure _)
  · exact exposed_refuse _

theorem exposed_parseCommand (commandId : String) (raw : Toml) :
    Exposed (parseCommand commandId raw) := by
  unfold parseCommand
  split
  · split
    · exact exposed_refuse _
    · split
      · exact exposed_refuse _
      · exact (exposed_parseApproval _ _ _).bind fun _ =>
          (exposed_parseTimeout _ _ _).bind fun _ => exposed_pure _
  · exact exposed_refuse _

theorem exposed_isRegularFile (path : String) : Exposed (isRegularFile path) := by
  refine exposed_handle (fun f hf => ?_) fun f hf => ?_
  · cases f with
    | osError => exact ⟨_, rfl, exposed_pure _⟩
    | _ => cases hf
  · cases f with
    | osError => cases hf
    | _ => rfl

theorem exposed_detectMarkers (root : String) (enough : List Bool → Bool)
    (m : String × List String) : Exposed (detectMarkers root enough m) :=
  (exposed_collect (fun _ => exposed_isRegularFile _) _).bind fun _ => exposed_pure _

theorem exposed_detectProjectProfile (root : String) : Exposed (detectProjectProfile root) := by
  refine (exposed_collect (fun _ => exposed_detectMarkers _ _ _) _).bind fun _ => ?_
  refine (exposed_collect (fun _ => exposed_detectMarkers _ _ _) _).bind fun _ => ?_
  split
  · exact exposed_pure _
  · exact exposed_pure _

/-! ## Profiles -/

/-- Only built-in profiles. -/
def Builtin (profileId : Option String) : Prop :=
  ∀ p ∈ profileId, (builtinProfile p).isSome

section Builtin

variable {may : (q : Probe) → Except ConfigExn q.Result → Prop}

theorem yields_detectMarkers (root : String) (enough : List Bool → Bool)
    (m : String × List String) :
    (detectMarkers root enough m).Yields may fun found => ∀ p ∈ found, p = m.1 := by
  refine Prog.yields_bind (Prog.yields_true _) fun found _ => Prog.yields_pure fun p hp => ?_
  split_ifs at hp
  · cases hp
    rfl
  · cases hp

theorem yields_detectProjectProfile (root : String) :
    (detectProjectProfile root).Yields may Builtin := by
  refine Prog.yields_bind (Prog.yields_collect (fun m => yields_detectMarkers _ _ m) _)
    fun xs hxs => ?_
  refine Prog.yields_bind (Prog.yields_collect (fun m => yields_detectMarkers _ _ m) _)
    fun ys hys => ?_
  split
  · next p hp =>
    refine Prog.yields_pure fun p' hp' => ?_
    obtain rfl := Option.some.inj hp'
    have hmem : p ∈ (xs ++ ys).filterMap id := by
      rw [hp]
      exact List.mem_cons_self
    obtain ⟨o, ho, rfl⟩ := List.mem_filterMap.1 hmem
    rcases List.mem_append.1 ho with ho | ho
    · obtain ⟨m, hm, hmo⟩ := Prog.exists_of_results hxs _ ho
      rw [hmo p rfl]
      exact builtinProfile_of_marker (List.mem_append_left _ hm)
    · obtain ⟨m, hm, hmo⟩ := Prog.exists_of_results hys _ ho
      rw [hmo p rfl]
      exact builtinProfile_of_marker (List.mem_append_right _ hm)
  · exact Prog.yields_pure fun p hp => nomatch hp

theorem yields_parseProfile (name : String) (value : Option Toml) :
    (parseProfile name value).Yields may Builtin := by
  unfold parseProfile
  split
  · exact Prog.yields_pure fun p hp => nomatch hp
  · split
    · exact Prog.yields_raise _
    · refine Prog.yields_ite (fun h => Prog.yields_pure fun p hp => ?_) fun _ =>
        Prog.yields_raise _
      cases hp
      exact builtinProfile_of_supported h

end Builtin

theorem exposed_resolved {profileId source : String} (h : (builtinProfile profileId).isSome) :
    Exposed (resolved profileId source) := by
  unfold resolved
  split
  · rename_i hnone
    simp [hnone] at h
  · exact exposed_pure _

theorem exposed_resolveProjectProfile {root : String} {explicitProfile : Option String}
    (h : Builtin explicitProfile) : Exposed (resolveProjectProfile root explicitProfile) := by
  refine Exposed.bind_of (exposed_detectProjectProfile root)
    (yields_detectProjectProfile root) fun detected hd => ?_
  split
  · exact exposed_resolved (h _ rfl)
  · exact exposed_pure _
  · exact exposed_resolved (hd _ rfl)

theorem exposed_readScript (path : String) : Exposed (readScript path) := by
  refine ⟨fun a ha => ?_⟩
  cases a with
  | ok text => exact ⟨fun h => absurd h (not_unmet_ok text), fun _ => Prog.exposes_pure _⟩
  | error e =>
    obtain ⟨f, rfl⟩ := unsettled_error ha
    by_cases hf : (Probe.readText path .strict).meets f = true
    · refine ⟨?_, fun _ => ?_⟩
      · rintro ⟨g, hg, hfalse⟩
        cases hg
        simp [hf] at hfalse
      · cases f with
        | osError => exact Prog.exposes_pure _
        | unicodeError => exact Prog.exposes_pure _
        | _ => cases hf
    · refine ⟨fun _ => ⟨.failure f, ?_, not_isSettings f⟩, fun h => ?_⟩
      · cases f with
        | osError => exact absurd rfl hf
        | unicodeError => exact absurd rfl hf
        | _ => rfl
      · exact absurd ⟨f, rfl, by simpa using hf⟩ h

theorem exposed_argvOfScript (path text : String) : Exposed (argvOfScript path text) := by
  unfold argvOfScript
  exact exposed_ite (exposed_pure _) ((exposed_probe fun _ => rfl).bind fun _ => exposed_pure _)

theorem exposed_scriptArgv (path : String) : Exposed (scriptArgv path) := by
  refine (exposed_isRegularFile _).bind fun regular => exposed_ite (exposed_pure _) ?_
  refine (exposed_readScript _).bind fun text => ?_
  cases text with
  | none => exact exposed_pure _
  | some text => exact exposed_argvOfScript _ _

theorem exposed_applyProfileRootCommandDefaults (root : String) (profileId : Option String)
    (commands : Commands) :
    Exposed (applyProfileRootCommandDefaults root profileId commands) := by
  refine exposed_ite (exposed_pure _) ?_
  split
  · exact exposed_pure _
  · refine (exposed_scriptArgv _).bind fun argv => ?_
    cases argv with
    | none => exact exposed_pure _
    | some argv => exact exposed_pure _

/-! ## Projects -/

theorem exposed_parseBranches (name : String) (value : Option Toml) :
    Exposed (parseBranches name value) := by
  unfold parseBranches
  split
  · exact exposed_pure _
  · split
    · exact exposed_refuse _
    · exact exposed_pure _

theorem exposed_parseProfile (name : String) (value : Option Toml) :
    Exposed (parseProfile name value) := by
  unfold parseProfile
  split
  · exact exposed_pure _
  · split
    · exact exposed_refuse _
    · exact exposed_ite (exposed_pure _) (exposed_refuse _)

theorem exposed_parseCommands (root name : String) (resolution : ProfileResolution)
    (raw : Toml.Table) : Exposed (parseCommands root name resolution raw) :=
  (exposed_applyProfileRootCommandDefaults _ _ _).bind fun _ =>
    (exposed_asMapping _ _).bind fun _ =>
      (exposed_collect (fun _ => (exposed_parseCommand _ _).bind fun _ => exposed_pure _)
        _).bind fun _ => exposed_pure _

theorem exposed_parseRequireClean (name : String) (value : Option Toml) :
    Exposed (parseRequireClean name value) := by
  unfold parseRequireClean
  split
  · exact exposed_pure _
  · exact exposed_pure _
  · exact exposed_refuse _

theorem exposed_parseProject (base : String) (entry : String × Toml) :
    Exposed (parseProject base entry) := by
  refine exposed_ite (exposed_refuse _) ?_
  refine (exposed_asMapping _ _).bind fun raw => ?_
  refine (exposed_resolvePath _ _ _).bind fun root => ?_
  refine (exposed_parseBranches _ _).bind fun branches => ?_
  refine (exposed_relativeConfigPath _ _).bind fun configName => ?_
  refine Exposed.bind_of (exposed_parseProfile _ _) (yields_parseProfile _ _)
    fun explicit hexplicit => ?_
  refine (exposed_resolveProjectProfile hexplicit).bind fun resolution => ?_
  refine (exposed_parseCommands _ _ _ _).bind fun commands => ?_
  exact (exposed_parseRequireClean _ _).bind fun _ => exposed_pure _

/-- Every exception that leaves `load_projects` is a `SettingsError` or was met by one of its
questions and not caught there. -/
theorem exposed_loadProjects (path : String) : Exposed (loadProjects path) := by
  refine (exposed_expandUser _).bind fun expanded => ?_
  refine (exposed_probe fun _ => rfl).bind fun path => ?_
  refine (exposed_readToml _).bind fun document => ?_
  refine (exposed_asMapping _ _).bind fun rawProjects => ?_
  exact exposed_collect (exposed_parseProject _) _

end CodemcpBridge

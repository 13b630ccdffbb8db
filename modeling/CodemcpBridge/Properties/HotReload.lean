import CodemcpBridge.Config.Exceptions

/-!
# Reloading fails closed

What a call of `refresh_if_changed` leaves behind, for every content of `projects.toml` and every
order in which the file and the project roots change under it.  A call returns, unless one of its
questions meets an exception that is not caught where it is asked; it installs only a candidate that
was accepted in full between two looks at one fingerprint; otherwise snapshot and generation stay.
-/

namespace CodemcpBridge

open Async Loader

/-! ## What can leave a call -/

/-- The program ends with an exception only when it meets one that is not caught. -/
structure Closed {α : Type} (x : Loader α) : Prop where
  exposes : Prog.Exposes Unsettled Unmet (fun _ => False) x

section Rules

variable {α β : Type}

theorem closed_pure (a : α) : Closed (pure a : Loader α) := ⟨Prog.exposes_pure a⟩

theorem closed_probe {q : Probe} (h : ∀ f, q.meets f = false) : Closed (probe q) := by
  refine ⟨Prog.exposes_ask not_unmet_ok fun e he => ?_⟩
  obtain ⟨f, rfl⟩ := unsettled_error he
  exact ⟨⟨f, rfl, h f⟩, not_false⟩

theorem Closed.bind {x : Loader α} {g : α → Loader β} (hx : Closed x)
    (hg : ∀ a, Closed (g a)) : Closed (x >>= g) :=
  ⟨hx.exposes.bind fun a => (hg a).exposes⟩

theorem closed_ite {c : Prop} [Decidable c] {x y : Loader α} (hx : Closed x) (hy : Closed y) :
    Closed (if c then x else y) := by
  by_cases h : c
  · rwa [if_pos h]
  · rwa [if_neg h]

theorem closed_exceptSettings {x : Loader α} {h : String → Loader β} {k : α → Loader β}
    (hx : Exposed x) (hh : ∀ m, Closed (h m)) (hk : ∀ a, Closed (k a)) :
    Closed (x.exceptSettings h k) := by
  refine ⟨hx.exposes.andThen (fun a => (hk a).exposes) (fun e he => ?_) fun e he => ?_⟩
  · obtain ⟨m, rfl⟩ := he
    exact (hh m).exposes
  · cases e with
    | settingsError m => exact absurd ⟨m, rfl⟩ he
    | failure f => exact ⟨.failure f, rfl, not_false⟩

end Rules

theorem exposed_projectsConfigFingerprint (path : String) :
    Exposed (projectsConfigFingerprint path) := by
  refine exposed_handle (fun f hf => ?_) fun f hf => ?_
  · cases f with
    | osError => exact ⟨_, rfl, exposed_refuse _⟩
    | _ => cases hf
  · cases f with
    | osError => cases hf
    | _ => rfl

theorem closed_movedRoot (current candidate : Registry) :
    ∀ ids, Closed (movedRoot current candidate ids)
  | [] => closed_pure _
  | id :: ids => by
      unfold movedRoot
      split
      · refine (closed_probe fun _ => rfl).bind fun _ => ?_
        refine (closed_probe fun _ => rfl).bind fun _ => ?_
        exact closed_ite (closed_pure _) (closed_movedRoot current candidate ids)
      · exact closed_movedRoot current candidate ids

namespace ProjectRegistry

variable (r : ProjectRegistry)

theorem closed_verify (candidate : Registry) (observed : Fingerprint) :
    Closed (r.verify candidate observed) :=
  closed_exceptSettings (exposed_projectsConfigFingerprint _) (fun _ => closed_pure _) fun _ =>
    closed_ite (closed_pure _) (closed_pure _)

theorem closed_consider (observed : Fingerprint) (candidate : Registry) :
    Closed (r.consider observed candidate) := by
  refine (closed_movedRoot _ _ _).bind fun moved => ?_
  cases moved with
  | none => exact r.closed_verify candidate observed
  | some projectId => exact closed_pure _

theorem closed_observing {k : Fingerprint → Loader (Bool × ProjectRegistry)}
    (hk : ∀ f, Closed (k f)) : Closed (r.observing k) :=
  closed_exceptSettings (exposed_projectsConfigFingerprint _) (fun _ => closed_pure _) fun f =>
    closed_ite (closed_pure _) (hk f)

theorem closed_refreshIfChanged : Closed r.refreshIfChanged :=
  r.closed_observing fun _ => r.closed_observing fun observed =>
    closed_exceptSettings (exposed_loadProjects _) (fun _ => closed_pure _)
      (r.closed_consider observed)

end ProjectRegistry

theorem unsettled_answer (q : Probe) (m : Moment) : Unsettled q (Moment.answer q m) := by
  intro message h
  unfold Moment.answer at h
  cases ho : m.outcome q with
  | ok a => simp [ho, Except.mapError] at h
  | error f => simp [ho, Except.mapError] at h

/-! ## The properties of a call -/

/-- At this moment the question raises an exception that is not caught where it is asked. -/
def Escapes (q : Probe) (m : Moment) : Prop := ∃ f, m.outcome q = .error f ∧ q.meets f = false

theorem unmet_answer_iff {q : Probe} {m : Moment} : Unmet q (Moment.answer q m) ↔ Escapes q m := by
  unfold Unmet Escapes Moment.answer
  cases m.outcome q with
  | ok a => simp [Except.mapError]
  | error f => simp [Except.mapError]

namespace ProjectRegistry

variable (r : ProjectRegistry) (moments : ℕ → Moment)

/-- The questions of a call. -/
def asked : List (Probe × Moment) := r.refreshIfChanged.asked Moment.answer moments

/-- `load_projects` accepted the candidate in full, under a fingerprint that was the same before and
after, and no project that both snapshots have had another root. -/
structure Accepts (candidate : Registry) (observed : Fingerprint) : Prop where
  before : (moments 1).file.map Version.fingerprint = .ok observed
  loaded : ((loadProjects r.projectsConfigPath).run Moment.answer fun n => moments (n + 2)).1 =
    .ok candidate
  after : ∃ m, (r.asked moments).getLast? = some (.stat r.projectsConfigPath, m) ∧
    m.file.map Version.fingerprint = .ok observed
  roots : ∀ projectId old new, r.projects.spec? projectId = some old →
    candidate.spec? projectId = some new → ∃ m₁ m₂ root,
      (.resolve old.root, m₁) ∈ r.asked moments ∧ (.resolve new.root, m₂) ∈ r.asked moments ∧
      m₁.resolve old.root = .ok root ∧ m₂.resolve new.root = .ok root

/-- A call returns; it installs what it accepted, or changes neither snapshot nor generation. -/
structure FailsClosed : Prop where
  returns : ∃ installed, (r.refreshed moments).1 = .ok installed
  installs : (r.refreshed moments).1 = .ok true → ∃ candidate observed,
    r.Accepts moments candidate observed ∧
      (r.refreshed moments).2 = r.install candidate observed
  keeps : (r.refreshed moments).1 ≠ .ok true →
    (r.refreshed moments).2.projects = r.projects ∧
      (r.refreshed moments).2.generation = r.generation

/-- The call read this content and did not install it. -/
def Rejects (v : Version) : Prop :=
  (∃ path m, (.tomlLoad path, m) ∈ r.asked moments ∧ m.file = .ok v) ∧
    (r.refreshed moments).1 = .ok false

/-- The file has this content, which is a candidate that keeps all roots. -/
structure Valid (m : Moment) (v : Version) (candidate : Registry) : Prop where
  file : m.file = .ok v
  loaded : ((loadProjects r.projectsConfigPath).run Moment.answer fun _ => m).1 = .ok candidate
  unmoved : ((movedRoot r.projects candidate (r.projects.map Prod.fst)).run Moment.answer
    fun _ => m).1 = .ok none

/-- The calls install nothing, and read no content but this one. -/
def Standing (v : Version) : ProjectRegistry → List (ℕ → Moment) → Prop
  | _, [] => True
  | r, moments :: rest => (r.refreshed moments).1 = .ok false ∧
      (∀ path m v', (.tomlLoad path, m) ∈ r.asked moments → m.file = .ok v' → v' = v) ∧
      Standing v (r.refreshed moments).2 rest

/-- The registry after some calls. -/
def after (calls : List (ℕ → Moment)) : ProjectRegistry :=
  calls.foldl (fun r moments => (r.refreshed moments).2) r

/-- A call rejects a content, which stays for as long as calls follow; then a valid content with
another fingerprint stands in its place. -/
structure Replaced (rejecting : ℕ → Moment) (meanwhile : List (ℕ → Moment)) (m : Moment)
    (v v' : Version) (candidate : Registry) : Prop where
  rejected : r.Rejects rejecting v
  standing : Standing v (r.refreshed rejecting).2 meanwhile
  valid : (r.after (rejecting :: meanwhile)).Valid m v' candidate
  fingerprint : v'.fingerprint ≠ v.fingerprint

/-- The first call after the replacement installs the valid content. -/
def Recovers (rejecting : ℕ → Moment) (meanwhile : List (ℕ → Moment)) (m : Moment) : Prop :=
  ∀ v v' candidate, r.Replaced rejecting meanwhile m v v' candidate →
    (r.after (rejecting :: meanwhile)).refreshed (fun _ => m) =
      (.ok true, (r.after (rejecting :: meanwhile)).install candidate v'.fingerprint)

end ProjectRegistry

/-- The properties of all calls of a sequence, each with its moments. -/
structure HotReload (r : ProjectRegistry) (calls : List (ℕ → Moment)) : Prop where
  closed : ∀ before moments rest, calls = before ++ moments :: rest →
    (r.after before).FailsClosed moments
  recovers : ∀ before rejecting meanwhile m rest,
    calls = before ++ rejecting :: meanwhile ++ (fun _ => m) :: rest →
      (r.after before).Recovers rejecting meanwhile m

/-- In no call does an exception escape, and no valid content that replaces a rejected one has a
fingerprint that the registry remembers. -/
structure Unhindered (r : ProjectRegistry) (calls : List (ℕ → Moment)) : Prop where
  caught : ∀ before moments rest, calls = before ++ moments :: rest →
    ∀ s ∈ (r.after before).asked moments, ¬Escapes s.1 s.2
  unknown : ∀ before rejecting meanwhile m rest,
    calls = before ++ rejecting :: meanwhile ++ (fun _ => m) :: rest →
      ∀ v v' candidate, (r.after before).Replaced rejecting meanwhile m v v' candidate →
        ¬((r.after before).after (rejecting :: meanwhile)).knows v'.fingerprint

/-! ## One call -/

section Run

variable {α β : Type} (moments : ℕ → Moment)

theorem run_exceptSettings (x : Loader α) (h : String → Loader β) (k : α → Loader β) :
    (x.exceptSettings h k).run Moment.answer moments =
      match x.run Moment.answer moments with
      | (.ok a, rest) => (k a).run Moment.answer rest
      | (.error (.settingsError m), rest) => (h m).run Moment.answer rest
      | (.error e, rest) => (.error e, rest) := by
  unfold exceptSettings
  rw [Prog.run_andThen]
  rcases x.run Moment.answer moments with ⟨res, rest⟩
  cases res with
  | ok a => rfl
  | error e => cases e <;> rfl

theorem asked_exceptSettings {x : Loader α} {h : String → Loader β} {k : α → Loader β} {a : α}
    {rest : ℕ → Moment} (hx : x.run Moment.answer moments = (.ok a, rest)) :
    (x.exceptSettings h k).asked Moment.answer moments =
      x.asked Moment.answer moments ++ (k a).asked Moment.answer rest := by
  unfold exceptSettings
  rw [Prog.asked_andThen, hx]

/-- A look at the file sees the fingerprint of its content, or a `SettingsError`. -/
theorem run_projectsConfigFingerprint (path : String) :
    (projectsConfigFingerprint path).run Moment.answer moments =
      (match (moments 0).file with
        | .ok v => .ok v.fingerprint
        | .error .osError =>
          .error (.settingsError ("cannot stat project configuration: " ++ path))
        | .error f => .error (.failure f), fun n => moments (n + 1)) := by
  have hstat : Moment.answer (.stat path) (moments 0) =
      ((moments 0).file.map Version.fingerprint).mapError .failure := rfl
  unfold projectsConfigFingerprint Prog.handle probe
  rw [Prog.run_andThen, Prog.run_ask, hstat]
  cases (moments 0).file with
  | ok v => rfl
  | error f => cases f <;> rfl

theorem asked_projectsConfigFingerprint {path : String} {v : Version}
    (h : (moments 0).file = .ok v) :
    (projectsConfigFingerprint path).asked Moment.answer moments =
      [(.stat path, moments 0)] := by
  have hstat : Moment.answer (.stat path) (moments 0) =
      ((moments 0).file.map Version.fingerprint).mapError .failure := rfl
  unfold projectsConfigFingerprint Prog.handle probe
  rw [Prog.asked_andThen, Prog.run_ask, hstat, h]
  rfl

variable {moments} in
theorem answer_resolve {path root : String} {rest : ℕ → Moment}
    (h : (probe (.resolve path)).run Moment.answer moments = (.ok root, rest)) :
    (moments 0).resolve path = .ok root := by
  have hanswer : Moment.answer (.resolve path) (moments 0) = .ok root := congrArg Prod.fst h
  unfold Moment.answer Moment.outcome at hanswer
  cases hr : (moments 0).resolve path with
  | ok root' => simpa [hr, Except.mapError] using hanswer
  | error f => simp [hr, Except.mapError] at hanswer

end Run

/-- A project that both snapshots have had one root when no project was found to have moved. -/
theorem roots_of_unmoved {current candidate : Registry} {ids : List String}
    {moments rest : ℕ → Moment}
    (h : (movedRoot current candidate ids).run Moment.answer moments = (.ok none, rest)) :
    ∀ projectId ∈ ids, ∀ old new, current.spec? projectId = some old →
      candidate.spec? projectId = some new → ∃ m₁ m₂ root,
        (.resolve old.root, m₁) ∈ (movedRoot current candidate ids).asked Moment.answer moments ∧
        (.resolve new.root, m₂) ∈ (movedRoot current candidate ids).asked Moment.answer moments ∧
        m₁.resolve old.root = .ok root ∧ m₂.resolve new.root = .ok root := by
  induction ids generalizing moments with
  | nil => simp
  | cons id ids ih =>
    intro projectId hid old new hold hnew
    unfold movedRoot at h ⊢
    split at h
    · next first second hfirst hsecond =>
      obtain ⟨root, es₁, h₁, h, hasked⟩ := Prog.run_bind_eq_ok _ h
      obtain ⟨root', es₂, h₂, h, hasked'⟩ := Prog.run_bind_eq_ok _ h
      rw [hasked, hasked']
      split_ifs at h with hne
      · cases h
      · obtain rfl := not_not.1 hne
        rw [if_neg hne]
        by_cases hsame : projectId = id
        · subst hsame
          obtain rfl := Option.some.inj (hfirst.symm.trans hold)
          obtain rfl := Option.some.inj (hsecond.symm.trans hnew)
          exact ⟨moments 0, es₁ 0, root, List.mem_append_left _ List.mem_cons_self,
            List.mem_append_right _ (List.mem_append_left _ List.mem_cons_self),
            answer_resolve h₁, answer_resolve h₂⟩
        · have hmem := (List.mem_cons.1 hid).resolve_left hsame
          obtain ⟨m₁, m₂, x, hm₁, hm₂, hx⟩ := ih h projectId hmem old new hold hnew
          exact ⟨m₁, m₂, x, List.mem_append_right _ (List.mem_append_right _ hm₁),
            List.mem_append_right _ (List.mem_append_right _ hm₂), hx⟩
    · next hneither =>
      refine ih h projectId ?_ old new hold hnew
      refine (List.mem_cons.1 hid).resolve_left ?_
      rintro rfl
      exact hneither old new hold hnew

namespace ProjectRegistry

variable (r : ProjectRegistry)

/-- The call installs nothing and changes neither snapshot nor generation. -/
def Keeps (res : Except ConfigExn (Bool × ProjectRegistry)) : Prop :=
  ∀ installed r', res = .ok (installed, r') →
    installed = false ∧ r'.projects = r.projects ∧ r'.generation = r.generation

variable {r} in
theorem keeps_error (e : ConfigExn) : r.Keeps (.error e) := by
  intro installed r' h
  cases h

variable {r} in
theorem keeps_ok {r' : ProjectRegistry} (hp : r'.projects = r.projects)
    (hg : r'.generation = r.generation) : r.Keeps (.ok (false, r')) := by
  intro installed r'' h
  cases h
  exact ⟨rfl, hp, hg⟩

/-- A reload ends in one of two ways: the snapshot stays, or what was verified last is installed. -/
theorem verify_cases (candidate : Registry) (observed : Fingerprint) (moments : ℕ → Moment) :
    r.Keeps ((r.verify candidate observed).run Moment.answer moments).1 ∨
      ((r.verify candidate observed).run Moment.answer moments).1 =
          .ok (true, r.install candidate observed) ∧
        (r.verify candidate observed).asked Moment.answer moments =
          [(.stat r.projectsConfigPath, moments 0)] ∧
        (moments 0).file.map Version.fingerprint = .ok observed := by
  unfold verify
  have hrun := run_projectsConfigFingerprint moments r.projectsConfigPath
  cases hfile : (moments 0).file with
  | ok v =>
    rw [hfile] at hrun
    rw [run_exceptSettings, asked_exceptSettings _ hrun, hrun,
      asked_projectsConfigFingerprint _ hfile]
    by_cases hne : v.fingerprint ≠ observed
    · simp only [if_pos hne]
      exact .inl (keeps_ok rfl rfl)
    · obtain rfl := not_not.1 hne
      simp only [if_neg hne]
      exact .inr ⟨rfl, rfl, rfl⟩
  | error f =>
    rw [hfile] at hrun
    rw [run_exceptSettings, hrun]
    refine .inl ?_
    cases f with
    | osError => exact keeps_ok rfl rfl
    | _ => exact keeps_error _

/-- A candidate that is installed has left every root where it was. -/
theorem consider_cases (observed : Fingerprint) (candidate : Registry) (moments : ℕ → Moment) :
    r.Keeps ((r.consider observed candidate).run Moment.answer moments).1 ∨
      ((r.consider observed candidate).run Moment.answer moments).1 =
          .ok (true, r.install candidate observed) ∧
        ∃ rest m, (movedRoot r.projects candidate (r.projects.map Prod.fst)).run Moment.answer
            moments = (.ok none, rest) ∧
          (r.consider observed candidate).asked Moment.answer moments =
            (movedRoot r.projects candidate (r.projects.map Prod.fst)).asked
              Moment.answer moments ++
              [(.stat r.projectsConfigPath, m)] ∧
          m.file.map Version.fingerprint = .ok observed := by
  rcases hres : (r.consider observed candidate).run Moment.answer moments with ⟨res, rest⟩
  cases res with
  | error e => exact .inl (keeps_error e)
  | ok b =>
    obtain ⟨moved, es, hmoved, h, hasked⟩ := Prog.run_bind_eq_ok _ hres
    cases moved with
    | some projectId =>
      cases h
      exact .inl (keeps_ok rfl rfl)
    | none =>
      have hcases := r.verify_cases candidate observed es
      rw [h] at hcases
      refine hcases.imp_right fun hin => ?_
      obtain ⟨hb, hv, hf⟩ := hin
      exact ⟨hb, es, es 0, hmoved, hasked.trans (congrArg _ hv), hf⟩

/-- What a call of `reload` does: it installs what `load_projects` accepted, or it changes nothing
but the record of the failure. -/
theorem reload_cases (observed : Fingerprint) (moments : ℕ → Moment) :
    r.Keeps ((r.reload observed).run Moment.answer moments).1 ∨
      ∃ candidate, ((r.reload observed).run Moment.answer moments).1 =
          .ok (true, r.install candidate observed) ∧
        ((loadProjects r.projectsConfigPath).run Moment.answer moments).1 = .ok candidate ∧
        ∃ before es rest m, (movedRoot r.projects candidate (r.projects.map Prod.fst)).run
            Moment.answer es = (.ok none, rest) ∧
          (r.reload observed).asked Moment.answer moments =
            before ++ (movedRoot r.projects candidate (r.projects.map Prod.fst)).asked
              Moment.answer es ++ [(.stat r.projectsConfigPath, m)] ∧
          m.file.map Version.fingerprint = .ok observed := by
  unfold reload
  rw [run_exceptSettings]
  rcases hload : (loadProjects r.projectsConfigPath).run Moment.answer moments with ⟨res, es⟩
  cases res with
  | error e =>
    refine .inl ?_
    cases e with
    | settingsError m => exact keeps_ok rfl rfl
    | failure f => exact keeps_error _
  | ok candidate =>
    refine (r.consider_cases observed candidate es).imp_right fun h => ?_
    obtain ⟨hb, rest, m, hmoved, hasked, hm⟩ := h
    refine ⟨candidate, hb, rfl, (loadProjects r.projectsConfigPath).asked Moment.answer moments,
      es, rest, m, hmoved, ?_, hm⟩
    rw [asked_exceptSettings _ hload, hasked, List.append_assoc]

/-- A look at the file ends the call, or a fingerprint that is not known is gone on with. -/
theorem observing_cases (k : Fingerprint → Loader (Bool × ProjectRegistry))
    (moments : ℕ → Moment) :
    r.Keeps ((r.observing k).run Moment.answer moments).1 ∨
      ∃ v, (moments 0).file = .ok v ∧ ¬r.knows v.fingerprint ∧
        (r.observing k).run Moment.answer moments =
          (k v.fingerprint).run Moment.answer (fun n => moments (n + 1)) ∧
        (r.observing k).asked Moment.answer moments = (.stat r.projectsConfigPath, moments 0) ::
          (k v.fingerprint).asked Moment.answer (fun n => moments (n + 1)) := by
  unfold observing
  have hrun := run_projectsConfigFingerprint moments r.projectsConfigPath
  rw [run_exceptSettings, hrun]
  cases hfile : (moments 0).file with
  | ok v =>
    rw [hfile] at hrun
    by_cases hknown : r.knows v.fingerprint
    · simp only [if_pos hknown]
      exact .inl (keeps_ok rfl rfl)
    · refine .inr ⟨v, rfl, hknown, ?_, ?_⟩
      · simp only [if_neg hknown]
      · rw [asked_exceptSettings _ hrun, asked_projectsConfigFingerprint _ hfile]
        simp only [if_neg hknown]
        rfl
  | error f =>
    refine .inl ?_
    cases f with
    | osError => exact keeps_ok rfl rfl
    | _ => exact keeps_error _

/-- A call installs what it accepts, or it changes neither snapshot nor generation. -/
theorem refresh_cases (moments : ℕ → Moment) :
    r.Keeps (r.refreshIfChanged.run Moment.answer moments).1 ∨
      ∃ candidate observed, (r.refreshIfChanged.run Moment.answer moments).1 =
          .ok (true, r.install candidate observed) ∧
        r.Accepts moments candidate observed := by
  obtain hkeeps | ⟨v₀, -, -, hrun₀, hasked₀⟩ := r.observing_cases (fun _ => r.observing r.reload)
    moments
  · exact .inl hkeeps
  · unfold refreshIfChanged
    rw [hrun₀]
    obtain hkeeps | ⟨v, hfile, -, hrun, hasked⟩ := r.observing_cases r.reload
      fun n => moments (n + 1)
    · exact .inl hkeeps
    · rw [hrun]
      refine (r.reload_cases v.fingerprint fun n => moments (n + 2)).imp_right fun h => ?_
      obtain ⟨candidate, hb, hload, before, es, rest, m, hmoved, hreload, hm⟩ := h
      have hall : r.asked moments = (.stat r.projectsConfigPath, moments 0) ::
          (.stat r.projectsConfigPath, moments 1) ::
            (before ++ (movedRoot r.projects candidate (r.projects.map Prod.fst)).asked
              Moment.answer es) ++ [(.stat r.projectsConfigPath, m)] :=
        hasked₀.trans (congrArg _ (hasked.trans (congrArg _ hreload)))
      refine ⟨candidate, v.fingerprint, hb, by rw [hfile]; rfl, hload, ⟨m, ?_, hm⟩, ?_⟩
      · rw [hall, List.getLast?_concat]
      · intro projectId old new hold hnew
        obtain ⟨p, hp, -⟩ := Option.map_eq_some_iff.1 hold
        have hid : projectId ∈ r.projects.map Prod.fst := by
          refine List.mem_map.2 ⟨p, List.mem_of_find?_eq_some hp, ?_⟩
          simpa using List.find?_some hp
        obtain ⟨m₁, m₂, root, hm₁, hm₂, hroot⟩ :=
          roots_of_unmoved hmoved projectId hid old new hold hnew
        refine ⟨m₁, m₂, root, ?_, ?_, hroot⟩ <;> simp [hall, hm₁, hm₂]

/-! ## Sequences of calls -/

theorem returns_iff (moments : ℕ → Moment) :
    (∃ installed, (r.refreshed moments).1 = .ok installed) ↔
      ∀ s ∈ r.asked moments, ¬Escapes s.1 s.2 := by
  have hiff := r.closed_refreshIfChanged.exposes.iff unsettled_answer moments
  simp only [unmet_answer_iff, not_false_eq_true, and_true] at hiff
  unfold refreshed asked
  cases hres : (r.refreshIfChanged.run Moment.answer moments).1 with
  | ok b =>
    rw [hres] at hiff
    simp only [reduceCtorEq, exists_false, false_iff, not_exists, not_and] at hiff
    exact iff_of_true ⟨b.1, rfl⟩ hiff
  | error e =>
    rw [hres] at hiff
    obtain ⟨s, hs, hesc⟩ := hiff.1 ⟨e, rfl⟩
    refine iff_of_false ?_ fun h => h s hs hesc
    rintro ⟨b, hb⟩
    cases hb

theorem failsClosed_iff (moments : ℕ → Moment) :
    r.FailsClosed moments ↔ ∀ s ∈ r.asked moments, ¬Escapes s.1 s.2 := by
  refine ⟨fun h => (r.returns_iff moments).1 h.returns, fun h =>
    ⟨(r.returns_iff moments).2 h, ?_, ?_⟩⟩
  · intro htrue
    obtain hkeeps | ⟨candidate, observed, hrun, haccepts⟩ := r.refresh_cases moments
    · unfold refreshed at htrue
      split at htrue
      · next installed r' hrun =>
        cases htrue
        cases (hkeeps _ _ hrun).1
      · cases htrue
    · refine ⟨candidate, observed, haccepts, ?_⟩
      unfold refreshed
      rw [hrun]
  · intro hfalse
    obtain hkeeps | ⟨candidate, observed, hrun, -⟩ := r.refresh_cases moments
    · unfold refreshed
      split
      · next installed r' hrun => exact (hkeeps _ _ hrun).2
      · exact ⟨rfl, rfl⟩
    · unfold refreshed at hfalse
      rw [hrun] at hfalse
      exact absurd rfl hfalse

/-! ## A valid content -/

variable {r} {m : Moment} {v : Version} {candidate : Registry}

theorem run_observing_const (hfile : m.file = .ok v)
    (k : Fingerprint → Loader (Bool × ProjectRegistry)) :
    (r.observing k).run Moment.answer (fun _ => m) =
      if r.knows v.fingerprint then (.ok (false, r), fun _ => m)
      else (k v.fingerprint).run Moment.answer fun _ => m := by
  unfold observing
  rw [run_exceptSettings, run_projectsConfigFingerprint, hfile]
  by_cases hknown : r.knows v.fingerprint
  · simp only [if_pos hknown]
    rfl
  · simp only [if_neg hknown]

/-- A fingerprint that is known ends the call at once. -/
theorem refreshed_of_known (hfile : m.file = .ok v) (hknown : r.knows v.fingerprint) :
    r.refreshed (fun _ => m) = (.ok false, r) := by
  unfold refreshed refreshIfChanged
  rw [run_observing_const hfile, if_pos hknown]

theorem verify_const (hfile : m.file = .ok v) :
    (r.verify candidate v.fingerprint).run Moment.answer (fun _ => m) =
      (.ok (true, r.install candidate v.fingerprint), fun _ => m) := by
  unfold verify
  rw [run_exceptSettings, run_projectsConfigFingerprint, hfile]
  simp only [ne_eq, not_true_eq_false, if_false]
  rfl

theorem Valid.run_reload (h : r.Valid m v candidate) :
    (r.reload v.fingerprint).run Moment.answer (fun _ => m) =
      (.ok (true, r.install candidate v.fingerprint), fun _ => m) := by
  have hload : (loadProjects r.projectsConfigPath).run Moment.answer (fun _ => m) =
      (.ok candidate, fun _ => m) := Prod.ext h.loaded (Prog.run_const _ _ m)
  have hmoved : (movedRoot r.projects candidate (r.projects.map Prod.fst)).run Moment.answer
      (fun _ => m) = (.ok none, fun _ => m) := Prod.ext h.unmoved (Prog.run_const _ _ m)
  unfold reload
  rw [run_exceptSettings, hload]
  refine (Prog.run_andThen _ _ _ _).trans ?_
  rw [hmoved]
  exact verify_const h.file

theorem Valid.refreshed_of_unknown (h : r.Valid m v candidate)
    (hunknown : ¬r.knows v.fingerprint) :
    r.refreshed (fun _ => m) = (.ok true, r.install candidate v.fingerprint) := by
  unfold refreshed refreshIfChanged
  rw [run_observing_const h.file, if_neg hunknown, run_observing_const h.file, if_neg hunknown,
    h.run_reload]

theorem recovers_iff (rejecting : ℕ → Moment) (meanwhile : List (ℕ → Moment)) (m : Moment) :
    r.Recovers rejecting meanwhile m ↔
      ∀ v v' candidate, r.Replaced rejecting meanwhile m v v' candidate →
        ¬(r.after (rejecting :: meanwhile)).knows v'.fingerprint := by
  refine forall_congr' fun v => forall_congr' fun v' => forall_congr' fun candidate =>
    forall_congr' fun h => ?_
  constructor
  · intro hinstalled hknown
    rw [refreshed_of_known h.valid.file hknown] at hinstalled
    cases congrArg Prod.fst hinstalled
  · exact h.valid.refreshed_of_unknown

end ProjectRegistry

/-- For every sequence of contents and of calls: the calls return, install only what they accepted
in full, keep snapshot and generation otherwise, and the first call after a rejected content was
replaced installs a valid one, if and only if no exception escapes and no such content has a
fingerprint that is remembered. -/
theorem hot_reload_iff (r : ProjectRegistry) (calls : List (ℕ → Moment)) :
    HotReload r calls ↔ Unhindered r calls := by
  constructor
  · intro h
    refine ⟨fun before moments rest he => ?_, fun before rejecting meanwhile m rest he => ?_⟩
    · exact (ProjectRegistry.failsClosed_iff _ moments).1 (h.closed before moments rest he)
    · exact (ProjectRegistry.recovers_iff rejecting meanwhile m).1
        (h.recovers before rejecting meanwhile m rest he)
  · intro h
    refine ⟨fun before moments rest he => ?_, fun before rejecting meanwhile m rest he => ?_⟩
    · exact (ProjectRegistry.failsClosed_iff _ moments).2 (h.caught before moments rest he)
    · exact (ProjectRegistry.recovers_iff rejecting meanwhile m).2
        (h.unknown before rejecting meanwhile m rest he)

/-- A file whose bytes are not UTF-8, in surroundings that raise nothing else. -/
def notUtf8 : Moment where
  file := .ok { fingerprint := { mtimeNs := 2, size := 1 }, bytes := ⟨#[0xff]⟩ }
  parse _ := .ok []
  bytes _ := .error .osError
  isRegular _ := .ok false
  expandUser path := .ok path
  resolve path := .ok path

/-- The registry of a file without projects. -/
def emptyRegistry : ProjectRegistry where
  projectsConfigPath := "/c/projects.toml"
  projects := []
  fingerprint := some { mtimeNs := 1, size := 0 }

/-- One byte that is not UTF-8 makes a call raise. -/
theorem hot_reload_raises_not_utf8 : ¬HotReload emptyRegistry [fun _ => notUtf8] := by
  intro h
  obtain ⟨installed, hret⟩ := (h.closed [] _ [] rfl).returns
  have hraised : (emptyRegistry.refreshed fun _ => notUtf8).1 =
      .error (.failure .unicodeError) := by decide +kernel
  cases hraised.symm.trans hret

end CodemcpBridge

import Volley.Proofs.Latest
import Volley.Proofs.Settings.Precedence

namespace Volley

variable {files : Files} {path root environment name : String} {f : Service.Field}

theorem Toml.Decode.keys_of_mapM {α : Type} {item : Toml → Except Toml.Error α}
    {entries : List (String × Toml)} {read : List (String × α)}
    (built : (entries.mapM fun (key, value) => (item value).map (key, ·)) = .ok read) :
    read.map Prod.fst = entries.map Prod.fst := by
  induction entries generalizing read with
  | nil =>
      cases built
      rfl
  | cons entry rest ih =>
      rw [List.mapM_cons] at built
      obtain ⟨first, made, built⟩ := Except.bind_eq_ok.1 built
      obtain ⟨later, more, built⟩ := Except.bind_eq_ok.1 built
      obtain ⟨x, -, rfl⟩ := Except.map_eq_ok.1 made
      cases built
      exact congrArg (entry.1 :: ·) (ih more)

theorem Toml.Decode.sorted_of_map {α : Type} {item : Toml → Except Toml.Error α} {value : Toml}
    {read : List (String × α)} (ordered : value.Ordered)
    (built : Toml.Decode.map .fragments item value = .ok read) : Keyed.Sorted read := by
  cases ordered with
  | table sorted each =>
      rw [Keyed.Sorted, ← List.pairwise_map, keys_of_mapM built]
      exact List.pairwise_map.2 sorted
  | _ => exact absurd built (mismatch_ne_ok _ _ _ _)

theorem Overlay.targets_of_ofToml {entries : List (String × Toml)} {o : Overlay}
    (sorted : Keyed.Sorted entries) (built : Overlay.ofToml (.table entries) = .ok o) :
    match entries.lookup "targets" with
    | none => o.targets = []
    | some value =>
      Toml.Decode.map .fragments (Target.ofToml .fragments) value = .ok o.targets := by
  refine Toml.Decode.part_of_record Overlay.targets ?_ ?_ sorted built
  · intro before value after changed
    obtain ⟨targets, read, made⟩ := Except.bind_eq_ok.1 changed
    cases made
    exact read
  · intro before name value after different changed
    unfold Overlay.set at changed
    split at changed
    case h_1 => exact absurd rfl different
    all_goals
      obtain ⟨_, -, made⟩ := Except.bind_eq_ok.1 changed
      cases made
      rfl

theorem Overlay.sorted_targets {entries : List (String × Toml)} {o : Overlay}
    (ordered : (Toml.table entries).Ordered) (built : Overlay.ofToml (.table entries) = .ok o) :
    Keyed.Sorted o.targets := by
  cases ordered with
  | table sorted each =>
      have targets := targets_of_ofToml sorted built
      cases found : entries.lookup "targets" with
      | none =>
          rw [found] at targets
          exact targets ▸ Keyed.sorted_nil
      | some value =>
          rw [found] at targets
          exact Toml.Decode.sorted_of_map (each _ (Keyed.mem_of_lookup found)) targets

inductive EnvironmentFile (files : Files) (path : String) :
    Except Failure (Option Overlay) → Prop
  | missing (absent : files.at? path = none) : EnvironmentFile files path (.ok none)
  | flawed {f : Failure} (there : files.isThere path = true) (flaw : Settings.Flaw files path f) :
      EnvironmentFile files path (.error f)
  | misshapen {value : Toml} {cause : Toml.Error}
      (read : Settings.readFragment files path = .ok value)
      (shape : Overlay.ofToml value = .error cause) :
      EnvironmentFile files path (.error ⟨[.overlay path], .toml cause⟩)
  | given {value : Toml} {o : Overlay} (read : Settings.readFragment files path = .ok value)
      (built : Overlay.ofToml value = .ok o) : EnvironmentFile files path (.ok (some o))

theorem exists_environmentFile (files : Files) (path : String) :
    ∃ found, EnvironmentFile files path found := by
  cases at? : files.at? path with
  | none => exact ⟨_, .missing at?⟩
  | some there =>
      cases read : Settings.readFragment files path with
      | error f =>
          exact ⟨_, .flawed (by simp [Files.isThere, at?]) (Settings.readFragment_eq_error.1 read)⟩
      | ok value =>
          cases built : Overlay.ofToml value with
          | error cause => exact ⟨_, .misshapen read built⟩
          | ok o => exact ⟨_, .given read built⟩

namespace Settings

variable {found : Except Failure (Option Overlay)}

theorem isThere_of_readFragment {value : Toml} (read : readFragment files path = .ok value) :
    files.isThere path = true := by
  cases at? : files.at? path with
  | none => cases read.symm.trans (readFragment_eq_error.2 (.missing at?))
  | some there => simp [Files.isThere, at?]

theorem eq_of_environmentFile (stands : EnvironmentFile files path found) :
    (if files.isThere path then do
      return some (← Failure.of (.overlay path) .toml
        (Overlay.ofToml (← readFragment files path)))
    else .ok none) = found := by
  cases stands with
  | missing absent => simp [Files.isThere, absent]
  | flawed there flaw => simp [there, readFragment_eq_error.2 flaw, bind, Except.bind]
  | misshapen read shape =>
      simp [isThere_of_readFragment read, read, shape, Failure.of, bind, Except.bind]
  | given read built =>
      rw [if_pos (isThere_of_readFragment read), read]
      simp only [bind, Except.bind, built]
      rfl

theorem overlayOf_of_environmentFile
    (stands : EnvironmentFile files (environmentPath root environment) found) :
    overlayOf files root environment = found.map (·.getD {}) := by
  rw [← eq_of_environmentFile stands, overlayOf]
  split
  · cases readFragment files (environmentPath root environment) with
    | error f => rfl
    | ok value =>
        simp only [bind, Except.bind]
        cases Failure.of (.overlay (environmentPath root environment)) .toml
          (Overlay.ofToml value) <;> rfl
  · rfl

theorem on_putTargets (targets : List (String × Target)) (s : Settings) :
    Update.on (targets.forM fun (name, target) => putTarget name target) s =
      (.ok (), s.overlay { targets }) := by
  induction targets generalizing s with
  | nil => rfl
  | cons entry rest ih => exact ih { s with targets := Keyed.insert entry.1 entry.2 s.targets }

theorem on_bind {α β : Type} (work : Update α) (next : α → Update β) (s : Settings) :
    Update.on (work >>= next) s = match Update.on work s with
      | (.ok a, changed) => Update.on (next a) changed
      | (.error f, changed) => (.error f, changed) := by
  rcases ran : Update.on work s with ⟨f | a, changed⟩
  · simp only [Update.on, ExceptT.run_bind, StateT.run_bind, Id.run_bind] at ran ⊢
    rw [ran]
    rfl
  · simp only [Update.on, ExceptT.run_bind, StateT.run_bind, Id.run_bind] at ran ⊢
    rw [ran]

theorem on_lift {α : Type} (x : Except Failure α) (s : Settings) :
    Update.on (liftM x) s = (x, s) := by
  cases x <;> rfl

theorem on_layServices (service? : Option Service) (s : Settings) :
    Update.on (service?.forM layService) s = (.ok (), s.overlay { service := service? }) := by
  cases service? <;> rfl

theorem on_enter (files : Files) (root environment : String) (s : Settings) :
    (enter files root environment).on s = match s.inEnvironment files root environment with
      | .ok changed => (.ok (), changed)
      | .error f => (.error f, s) := by
  unfold enter inEnvironment overlayOf
  dsimp only
  split
  · simp only [on_bind, on_lift]
    cases readFragment files (environmentPath root environment) with
    | error f => rfl
    | ok value =>
        simp only [bind, Except.bind]
        cases Failure.of (.overlay (environmentPath root environment)) .toml
          (Overlay.ofToml value) with
        | error f => rfl
        | ok o =>
            simp only [on_putTargets]
            exact on_layServices o.service _
  · rfl

/-- What comes of laying a file over settings: an overlay is laid over them as a whole, and nothing
else changes them. -/
def taking (s : Settings) : Except Failure (Option Overlay) → Except Failure Unit × Settings
  | .ok none => (.ok (), s)
  | .ok (some o) => (.ok (), s.overlay o)
  | .error f => (.error f, s)

theorem on_enter_of_environmentFile
    (stands : EnvironmentFile files (environmentPath root environment) found) (s : Settings) :
    (enter files root environment).on s = s.taking found := by
  rw [on_enter, inEnvironment, overlayOf_of_environmentFile stands]
  cases found with
  | error f => rfl
  | ok o? => cases o? <;> rfl

def entered (files : Files) (s : Settings) (calls : List (String × String)) : Settings :=
  calls.foldl (fun s call => ((enter files call.1 call.2).on s).2) s

def Takes (files : Files) (call : String × String) (o : Overlay) : Prop :=
  EnvironmentFile files (environmentPath call.1 call.2) (.ok (some o))

def Gives {α : Type} (files : Files) (told : Overlay → Option α) (call : String × String)
    (given : Option α) : Prop :=
  ∃ o a, Takes files call o ∧ told o = some a ∧ given = some a

theorem Takes.unique {call : String × String} {o o' : Overlay} (takes : Takes files call o)
    (other : Takes files call o') : o = o' := by
  have same := (eq_of_environmentFile takes).symm.trans (eq_of_environmentFile other)
  simpa using same

theorem enter_cases (files : Files) (call : String × String) :
    (∃ o, Takes files call o ∧ ∀ s, ((enter files call.1 call.2).on s).2 = s.overlay o) ∨
      (∀ o, ¬ Takes files call o) ∧ ∀ s, ((enter files call.1 call.2).on s).2 = s := by
  obtain ⟨found, stands⟩ := exists_environmentFile files (environmentPath call.1 call.2)
  have none_taken : found.toOption.join = none → ∀ o, ¬ Takes files call o := by
    intro silent o takes
    cases (eq_of_environmentFile stands).symm.trans (eq_of_environmentFile takes)
    cases silent
  match found with
  | .ok (some o) =>
      exact .inl ⟨o, stands, fun s => by rw [on_enter_of_environmentFile stands, taking]⟩
  | .ok none =>
      exact .inr ⟨none_taken rfl, fun s => by rw [on_enter_of_environmentFile stands, taking]⟩
  | .error f =>
      exact .inr ⟨none_taken rfl, fun s => by rw [on_enter_of_environmentFile stands, taking]⟩

theorem Takes.sorted {call : String × String} {o : Overlay} (takes : Takes files call o) :
    Keyed.Sorted o.targets := by
  cases takes with
  | given read built =>
      obtain ⟨ordered, entries, rfl⟩ := eq_table_of_readFragment read
      exact Overlay.sorted_targets ordered built

theorem lookup_overlay {o : Overlay} (sorted : Keyed.Sorted o.targets) (s : Settings)
    (name : String) :
    (s.overlay o).targets.lookup name = (o.targets.lookup name <|> s.targets.lookup name) :=
  Keyed.lookup_foldl_insert sorted s.targets name

theorem latest_entered {α : Type} {told : Overlay → Option α} (part : Settings → Option α)
    (laid : ∀ call o, Takes files call o → ∀ s, part (s.overlay o) = (told o <|> part s))
    (s : Settings) (calls : List (String × String)) :
    Latest (Gives files told) calls (part s) (part (s.entered files calls)) := by
  refine latest_foldl part (fun call _ s given => ?_) (fun call _ s silent => ?_) s
  · rintro ⟨o, a, takes, tells, rfl⟩
    rcases enter_cases files call with ⟨o', takes', changed⟩ | ⟨refused, -⟩
    · cases takes.unique takes'
      rw [changed, laid call o takes, tells]
      rfl
    · exact absurd takes (refused o)
  · rcases enter_cases files call with ⟨o, takes, changed⟩ | ⟨-, kept⟩
    · rw [changed, laid call o takes]
      cases tells : told o with
      | none => rfl
      | some a => exact absurd ⟨o, a, takes, tells, rfl⟩ (silent (some a))
    · rw [kept]

theorem service_entered {s : Settings} {calls : List (String × String)} :
    (s.entered files calls).service = none ↔
      s.service = none ∧ ∀ call ∈ calls, ∀ o, Takes files call o → o.service = none := by
  induction calls generalizing s with
  | nil => simp [entered]
  | cons call rest ih =>
      have first : ((enter files call.1 call.2).on s).2.service = none ↔
          s.service = none ∧ ∀ o, Takes files call o → o.service = none := by
        rcases enter_cases files call with ⟨o, takes, changed⟩ | ⟨refused, kept⟩
        · have only : (∀ o', Takes files call o' → o'.service = none) ↔ o.service = none :=
            ⟨fun all => all o takes, fun same o' takes' => takes.unique takes' ▸ same⟩
          rw [changed, only, overlay]
          cases o.service <;> simp
        · simp [kept, refused]
      rw [entered, List.foldl_cons, ← entered, ih, first, List.forall_mem_cons, and_assoc]

theorem logging_entered (s : Settings) (calls : List (String × String)) :
    (s.entered files calls).logging = s.logging := by
  induction calls generalizing s with
  | nil => rfl
  | cons call rest ih =>
      rw [entered, List.foldl_cons, ← entered, ih]
      rcases enter_cases files call with ⟨o, -, changed⟩ | ⟨-, kept⟩
      · rw [changed, overlay]
      · rw [kept]

/-- The file of an environment is taken as a whole or changes nothing, and only a missing one does
so without a failure. -/
theorem entered_course (files : Files) (s : Settings) (calls : List (String × String)) :
    (∀ root environment, ∃ found,
      EnvironmentFile files (environmentPath root environment) found ∧
      ∀ t : Settings, (enter files root environment).on t = t.taking found) ∧
    (s.entered files calls).logging = s.logging ∧
    (∀ name, Latest (Gives files (·.targets.lookup name)) calls (s.targets.lookup name)
      ((s.entered files calls).targets.lookup name)) ∧
    (∀ name, (s.targets.lookup name).isSome →
      ((s.entered files calls).targets.lookup name).isSome) ∧
    (∀ f, Latest (Gives files fun o => o.service.bind (·.get f)) calls
      (s.serviceOrEmpty.get f) ((s.entered files calls).serviceOrEmpty.get f)) ∧
    ((s.entered files calls).service = none ↔
      s.service = none ∧ ∀ call ∈ calls, ∀ o, Takes files call o → o.service = none) := by
  have targets : ∀ name, Latest (Gives files (·.targets.lookup name)) calls
      (s.targets.lookup name) ((s.entered files calls).targets.lookup name) := fun name =>
    latest_entered (fun s => s.targets.lookup name)
      (fun _ _ takes s => lookup_overlay takes.sorted s name) s calls
  refine ⟨fun root environment => ?_, logging_entered s calls, targets, fun name given => ?_,
    fun f => ?_, service_entered⟩
  · obtain ⟨found, stands⟩ := exists_environmentFile files (environmentPath root environment)
    exact ⟨found, stands, on_enter_of_environmentFile stands⟩
  · exact (targets name).isSome (fun _ _ ⟨_, _, _, _, same⟩ => same ▸ rfl) given
  · refine latest_entered (fun s => s.serviceOrEmpty.get f) (fun _ o _ s => ?_) s calls
    rw [get_overlay]
    cases o.service with
    | none => rw [Option.getD_none, Service.get_empty, Option.bind_none]
    | some service => rfl

def environmentTree : Files :=
  .directory [("conf", .directory [("environments", .directory [
    ("load.toml", .file (Utf8.encode
      "targets.x.base_url = 'http://b'\n[services.push_loadtest]\nseed = 4\n")),
    ("odd.toml", .file (Utf8.encode
      "targets.y.base_url = 'http://y'\nservices.push_loadtest.seed = 'many'\n"))])])]

def servedSettings : Settings where
  targets := [("x", ⟨"http://a", some "/a", none, []⟩)]
  service := some { seed := some 1, path := some "/p" }

example : servedSettings.entered environmentTree
    [("conf", "load"), ("conf", "odd"), ("conf", "none")] =
      { targets := [("x", ⟨"http://b", none, none, []⟩)]
        service := some { seed := some 4, path := some "/p" } } := by
  decide +kernel

end Settings

end Volley

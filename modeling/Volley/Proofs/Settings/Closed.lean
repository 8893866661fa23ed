import Volley.Proofs.Settings.Environments

namespace Volley.Settings

variable {files other : Files} {directory path source environment : String} {vars : Variables}
  {names : List String} {base : Toml} {path? : Option String}

def mergeOrder (files : Files) (source : String) : List String :=
  Path.join source "base.toml" ::
    fragmentDirectories.flatMap fun name => fragmentsIn files (Path.join source name)

def Shelved (files : Files) (source : String) : Prop :=
  ∀ name ∈ fragmentDirectories, files.isThere (Path.join source name) = true →
    files.isDirectory (Path.join source name) = true

theorem fragmentPaths_of_shelved
    (shelved : files.isThere directory = true → files.isDirectory directory = true) :
    fragmentPaths files directory = .ok (fragmentsIn files directory) := by
  rw [fragmentPaths_eq]
  unfold Files.isThere Files.isDirectory at shelved
  unfold Files.sight
  cases found : files.at? directory with
  | none => rfl
  | some there =>
      cases there with
      | directory entries => rfl
      | file bytes => simp [found] at shelved

theorem mergeDirectory_of_shelved
    (shelved : files.isThere directory = true → files.isDirectory directory = true) :
    mergeDirectory files base directory =
      ((fragmentsIn files directory).mapM (readFragment files)).map (·.foldl Toml.merge base) := by
  rw [mergeDirectory, fragmentPaths_of_shelved shelved]
  exact Except.foldlM_eq_map_mapM

theorem foldlM_mergeDirectory
    (shelved : ∀ name ∈ names, files.isThere (Path.join source name) = true →
      files.isDirectory (Path.join source name) = true) :
    names.foldlM (fun merged name => mergeDirectory files merged (Path.join source name)) base =
      ((names.flatMap fun name => fragmentsIn files (Path.join source name)).mapM
        (readFragment files)).map (·.foldl Toml.merge base) := by
  -- `base` changes along the list: it holds what the directories before gave.
  induction names generalizing base with
  | nil => rfl
  | cons name rest ih =>
      rw [List.foldlM_cons, mergeDirectory_of_shelved (shelved name List.mem_cons_self),
        List.flatMap_cons, List.mapM_append]
      cases (fragmentsIn files (Path.join source name)).mapM (readFragment files) with
      | error f => rfl
      | ok layers =>
          refine (ih fun name' later => shelved name' (List.mem_cons_of_mem name later)).trans ?_
          simp only [bind, Except.bind]
          cases (rest.flatMap fun name => fragmentsIn files (Path.join source name)).mapM
            (readFragment files) with
          | error f => rfl
          | ok more => exact congrArg Except.ok List.foldl_append.symm

theorem mergedDirectory_of_shelved (shelved : Shelved files source)
    (based : files.isThere (Path.join source "base.toml") = true) :
    mergedDirectory files source = ((mergeOrder files source).mapM (readFragment files)).map
      fun layers => layers.tail.foldl Toml.merge (layers.headD (.table [])) := by
  unfold mergedDirectory mergeOrder
  dsimp only
  rw [if_pos based, List.mapM_cons]
  cases readFragment files (Path.join source "base.toml") with
  | error f => rfl
  | ok base =>
      refine (foldlM_mergeDirectory shelved).trans ?_
      cases (fragmentDirectories.flatMap fun name =>
        fragmentsIn files (Path.join source name)).mapM (readFragment files) <;> rfl

/-- The path is the first one with a flaw, and this is what is told of it. -/
def FirstFlaw (files : Files) (paths : List String) (path : String) (f : Failure) : Prop :=
  ∃ before after, paths = before ++ path :: after ∧ (∀ p ∈ before, ∀ g, ¬ Flaw files p g) ∧
    Flaw files path f

theorem exists_firstFlaw {paths : List String} {g : Failure} (member : path ∈ paths)
    (flaw : Flaw files path g) :
    ∃ first f, FirstFlaw files paths first f ∧ paths.mapM (readFragment files) = .error f := by
  obtain ⟨before, first, after, f, split, clean, refused, read⟩ :=
    Except.exists_first_of_error member (readFragment_eq_error.2 flaw)
  refine ⟨first, f, ⟨before, after, split, fun p member g flaw => ?_, ?_⟩, read⟩
  · exact clean p member g (readFragment_eq_error.2 flaw)
  · exact readFragment_eq_error.1 refused

theorem resolve_of_source (found : sourceOf files path? = some source) :
    resolve files environment vars path? =
      (ofSource files environment source).map (override vars) := by
  rw [resolve, beforeVariables, found]

theorem resolve_of_load_error {f : Failure} (found : sourceOf files path? = some source)
    (failed : load files source = .error f) :
    resolve files environment vars path? =
      .error { f with contexts := .loading source :: f.contexts } := by
  rw [resolve_of_source found, ofSource, failed]
  rfl

theorem resolve_of_flaw (found : sourceOf files path? = some source)
    (directory : files.isDirectory source = true)
    (based : files.isThere (Path.join source "base.toml") = true)
    (shelved : Shelved files source) {g : Failure} (member : path ∈ mergeOrder files source)
    (flaw : Flaw files path g) :
    ∃ first f, FirstFlaw files (mergeOrder files source) first f ∧
      resolve files environment vars path? =
        .error { f with contexts := .loading source :: f.contexts } := by
  obtain ⟨first, f, isFirst, read⟩ := exists_firstFlaw member flaw
  have merged : mergedDirectory files source = .error f := by
    rw [mergedDirectory_of_shelved shelved based, read]
    rfl
  refine ⟨first, f, isFirst, resolve_of_load_error found ?_⟩
  unfold Files.isDirectory at directory
  split at directory
  · rename_i there
    rw [load, there]
    simp only [ofDirectory, merged]
    rfl
  · cases directory

theorem resolve_of_environmentFile (found : sourceOf files path? = some source) {f : Failure}
    (stands : EnvironmentFile files (environmentPath (rootOf files source) environment)
      (.error f)) :
    ∃ g, resolve files environment vars path? = .error g ∧
      ∀ s, load files source = .ok s →
        g = { f with contexts := .environment (rootOf files source) :: f.contexts } := by
  cases loaded : load files source with
  | error g =>
      refine ⟨{ g with contexts := .loading source :: g.contexts },
        resolve_of_load_error found loaded, ?_⟩
      intro s given
      cases given
  | ok s =>
      refine ⟨{ f with contexts := .environment (rootOf files source) :: f.contexts }, ?_,
        fun _ _ => rfl⟩
      rw [resolve_of_source found, ofSource, loaded]
      simp only [Failure.within, bind, Except.bind, inEnvironment,
        overlayOf_of_environmentFile stands]
      rfl

theorem parts_of_resolve {s : Settings} (found : sourceOf files path? = some source)
    (resolved : resolve files environment vars path? = .ok s) :
    ∃ loaded o, load files source = .ok loaded ∧
      overlayOf files (rootOf files source) environment = .ok o ∧
      s = (loaded.overlay o).override vars := by
  rw [resolve_of_source found] at resolved
  obtain ⟨before, built, rfl⟩ := Except.map_eq_ok.1 resolved
  obtain ⟨loaded, load, built⟩ := Except.bind_eq_ok.1 built
  rw [Failure.within_eq_ok] at load built
  obtain ⟨o, overlaid, rfl⟩ := Except.map_eq_ok.1 built
  exact ⟨loaded, o, load, overlaid, rfl⟩

theorem sourceOf_eq_none_iff : sourceOf files path? = none ↔
    path? = none ∧ ∀ candidate ∈ ["config", "config.toml"], files.at? candidate = none := by
  cases path? <;> simp [sourceOf, defaultSources, Files.isThere]

structure ShelfAlike (files other : Files) (directory : String) : Prop where
  sight : files.sight directory = other.sight directory
  listed : fragmentsIn files directory = fragmentsIn other directory
  each : ∀ path ∈ fragmentsIn files directory, files.sight path = other.sight path

/-- Two trees look alike wherever something is looked up on the way to the settings. Where no path
is given, this is only whether a default is there. -/
structure LookAlike (files other : Files) (environment : String) (path? : Option String) :
    Prop where
  defaults : path? = none →
    ∀ candidate ∈ defaultSources, files.isThere candidate = other.isThere candidate
  source : ∀ source, sourceOf files path? = some source → files.sight source = other.sight source
  base : ∀ source, sourceOf files path? = some source → files.isDirectory source = true →
    files.sight (Path.join source "base.toml") = other.sight (Path.join source "base.toml")
  shelves : ∀ source, sourceOf files path? = some source → files.isDirectory source = true →
    ∀ name ∈ fragmentDirectories, ShelfAlike files other (Path.join source name)
  environment : ∀ source, sourceOf files path? = some source →
    files.sight (environmentPath (rootOf files source) environment) =
      other.sight (environmentPath (rootOf files source) environment)

theorem readFragment_congr (same : files.sight path = other.sight path) :
    readFragment files path = readFragment other path := by
  rw [readFragment, Files.read_congr same, readFragment]

theorem mergeDirectory_congr (alike : ShelfAlike files other directory) :
    mergeDirectory files base directory = mergeDirectory other base directory := by
  rw [mergeDirectory, mergeDirectory, fragmentPaths_eq, fragmentPaths_eq, alike.sight,
    ← alike.listed]
  cases other.sight directory with
  | file bytes => rfl
  | _ =>
      refine Except.foldlM_congr (fun path member merged => ?_) base
      rw [readFragment_congr (alike.each path member)]

theorem mergedDirectory_congr
    (based : files.sight (Path.join source "base.toml") =
      other.sight (Path.join source "base.toml"))
    (shelves : ∀ name ∈ fragmentDirectories, ShelfAlike files other (Path.join source name)) :
    mergedDirectory files source = mergedDirectory other source := by
  unfold mergedDirectory
  dsimp only
  rw [Files.isThere_congr based, readFragment_congr based]
  split
  · refine congrArg (readFragment other _ >>= ·) (funext fun base => ?_)
    exact Except.foldlM_congr
      (fun name member merged => mergeDirectory_congr (shelves name member)) base
  · rfl

theorem load_congr (same : files.sight source = other.sight source)
    (merged : files.isDirectory source = true →
      mergedDirectory files source = mergedDirectory other source) :
    load files source = load other source := by
  have read := Files.read_congr same
  unfold load
  rcases Files.at?_of_sight same with ⟨mine, its⟩ | ⟨entries, others, mine, its⟩ | ⟨_, mine, its⟩
  · rw [mine, its]
  · have merged := merged (by rw [Files.isDirectory, mine])
    rw [mine, its]
    simp only [ofDirectory, merged]
  · rw [mine, its]
    simp only [ofFile, read]

theorem inEnvironment_congr {root : String} {s : Settings}
    (same : files.sight (environmentPath root environment) =
      other.sight (environmentPath root environment)) :
    s.inEnvironment files root environment = s.inEnvironment other root environment := by
  unfold inEnvironment overlayOf
  dsimp only
  rw [Files.isThere_congr same, readFragment_congr same]

theorem LookAlike.sourceOf (alike : LookAlike files other environment path?) :
    sourceOf files path? = sourceOf other path? := by
  cases path? with
  | some path => rfl
  | none =>
      have same := alike.defaults rfl
      simp only [defaultSources, List.mem_cons, List.not_mem_nil, or_false, forall_eq_or_imp,
        forall_eq] at same
      simp [Settings.sourceOf, defaultSources, List.find?_cons, same]

theorem resolve_congr (alike : LookAlike files other environment path?) :
    resolve files environment vars path? = resolve other environment vars path? := by
  unfold resolve beforeVariables
  rw [← alike.sourceOf]
  cases found : Settings.sourceOf files path? with
  | none => rfl
  | some source =>
      have same := alike.source source found
      have loaded : load files source = load other source :=
        load_congr same fun directory =>
          mergedDirectory_congr (alike.base source found directory)
            (alike.shelves source found directory)
      have root : rootOf files source = rootOf other source := by
        rw [rootOf, Files.isDirectory_congr same, rootOf]
      simp only [ofSource, loaded, ← root, inEnvironment_congr (alike.environment source found)]

theorem Flaw.named {f : Failure} (flaw : Flaw files path f) :
    f.contexts = [.readingFragment path] ∨ f.contexts = [.fragment path] := by
  cases flaw with
  | missing | directory | notUtf8 => exact .inl rfl
  | notToml => exact .inr rfl

inductive RootOf (files : Files) (source : String) : String → Prop
  | inside (directory : files.isDirectory source = true) : RootOf files source source
  | beside {root name : String} (noDirectory : files.isDirectory source = false)
      (joined : source = Path.join root name) (isName : Path.IsName name) (given : root ≠ "")
      (trimmed : Path.trimBack root.toList.reverse = root.toList.reverse) :
      RootOf files source root
  | standard (noDirectory : files.isDirectory source = false) (isName : Path.IsName source) :
      RootOf files source "config"

theorem rootOf_eq {root : String} (isRoot : RootOf files source root) :
    rootOf files source = root := by
  cases isRoot with
  | inside directory => exact if_pos directory
  | beside noDirectory joined isName given trimmed =>
      rw [rootOf, noDirectory, joined, Path.parent_join given trimmed isName]
      simp [given]
  | standard noDirectory isName =>
      rw [rootOf, noDirectory, Path.parent_of_isName isName]
      rfl

/-- Settings come from what is given, as a whole, or not at all; among fragments with flaws the
first is told. What is not on the way to the settings has no influence on them. -/
theorem resolve_closed (files : Files) (environment : String) (vars : Variables) :
    (∀ path, files.at? path = none →
      resolve files environment vars (some path) = .error ⟨[.loading path], .missing path⟩) ∧
    (∀ path?, sourceOf files path? = none ↔
      path? = none ∧ ∀ candidate ∈ ["config", "config.toml"], files.at? candidate = none) ∧
    (sourceOf files none = none →
      resolve files environment vars none = .ok (builtin.override vars)) ∧
    (∀ path? source, sourceOf files path? = some source →
      (∀ s, resolve files environment vars path? = .ok s → ∃ loaded o,
        load files source = .ok loaded ∧
        overlayOf files (rootOf files source) environment = .ok o ∧
        s = (loaded.overlay o).override vars) ∧
      (files.isDirectory source = true → files.isThere (Path.join source "base.toml") = true →
        Shelved files source → ∀ path ∈ mergeOrder files source, ∀ g, Flaw files path g →
        ∃ first f, FirstFlaw files (mergeOrder files source) first f ∧
          (f.contexts = [.readingFragment first] ∨ f.contexts = [.fragment first]) ∧
          resolve files environment vars path? =
            .error { f with contexts := .loading source :: f.contexts }) ∧
      (∀ f, EnvironmentFile files (environmentPath (rootOf files source) environment) (.error f) →
        ∃ g, resolve files environment vars path? = .error g ∧ ∀ s, load files source = .ok s →
          g = { f with contexts := .environment (rootOf files source) :: f.contexts })) ∧
    (∀ source root, RootOf files source root → rootOf files source = root) ∧
    ∀ other path?, LookAlike files other environment path? →
      resolve files environment vars path? = resolve other environment vars path? := by
  refine ⟨fun path absent => ?_, fun _ => sourceOf_eq_none_iff, fun unsourced => ?_,
    fun path? source found => ⟨fun s resolved => parts_of_resolve found resolved,
      fun directory based shelved path member g flaw => ?_,
      fun f stands => resolve_of_environmentFile found stands⟩,
    fun _ _ => rootOf_eq, fun other path? alike => resolve_congr alike⟩
  · have failed : load files path = .error ⟨[], .missing path⟩ := by rw [load, absent]
    exact resolve_of_load_error rfl failed
  · rw [resolve, beforeVariables, unsourced]
    rfl
  · obtain ⟨first, f, isFirst, resolved⟩ :=
      resolve_of_flaw found directory based shelved member flaw
    obtain ⟨-, -, -, -, refused⟩ := id isFirst
    exact ⟨first, f, isFirst, refused.named, resolved⟩

def flawedTree : Files :=
  .directory [("conf", .directory [
    ("base.toml", .file (Utf8.encode "services.push_loadtest.seed = 1\n")),
    ("overrides", .directory [("a.toml", .file (Utf8.encode "seed = \n"))]),
    ("services", .directory [("b.TOML", .file [0xFF]), ("notes.txt", .file [0xFF])])])]

example : resolve flawedTree "prod" (fun _ => none) (some "conf") =
    .error ⟨[.loading "conf", .readingFragment "conf/services/b.TOML"], .unreadable .notUtf8⟩ := by
  have shared : fragmentPaths flawedTree (Path.join "conf" "shared") = .ok [] := by
    decide +kernel
  have services : fragmentPaths flawedTree (Path.join "conf" "services") =
      .ok ["conf/services/b.TOML"] := by
    have listed : flawedTree.list (Path.join "conf" "services") = .ok ["b.TOML", "notes.txt"] := by
      decide +kernel
    have tomls : ["b.TOML", "notes.txt"].filter Path.isToml = ["b.TOML"] := by decide +kernel
    rw [fragmentPaths, if_pos (by decide +kernel), listed]
    simp only [Failure.of, bind, Except.bind, tomls, List.mergeSort_singleton]
    decide +kernel
  change (ofSource flawedTree "prod" "conf").map _ = _
  unfold ofSource load ofDirectory mergedDirectory
  simp only [fragmentDirectories, List.foldlM_cons, mergeDirectory, shared, services]
  decide +kernel

end Volley.Settings

import Volley.Proofs.Checked
import Volley.Proofs.Files
import Volley.Proofs.Settings.Field
import Volley.Proofs.Settings.Source
import Volley.Proofs.Text.Utf8

namespace Volley

open Toml (Origin)

namespace Toml.Decode

variable {ι α β : Type} {read : Origin → ι → Except Error α} {plain : ι → Bool}

/-- Both ways of reading give the same for what is plain, and for nothing else do both give a
value. -/
structure Alike (read : Origin → ι → Except Error α) (plain : ι → Bool) : Prop where
  same : ∀ x, plain x = true → ∀ a, read .text x = .ok a ↔ read .fragments x = .ok a
  plain : ∀ x a b, read .text x = .ok a → read .fragments x = .ok b → plain x = true

/-! ## Building up readers -/

theorem alike_of_eq (same : ∀ x a, read .text x = .ok a ↔ read .fragments x = .ok a) :
    Alike read fun _ => true :=
  ⟨fun x _ => same x, fun _ _ _ _ _ => rfl⟩

theorem Alike.bind (alike : Alike read plain) (next : ι → α → Except Error β) :
    Alike (fun origin x => read origin x >>= next x) plain := by
  refine ⟨fun x holds b => ?_, fun x b c straight merged => ?_⟩
  · simp only [Except.bind_eq_ok, alike.same x holds]
  · obtain ⟨a, straight, -⟩ := Except.bind_eq_ok.1 straight
    obtain ⟨a', merged, -⟩ := Except.bind_eq_ok.1 merged
    exact alike.plain x a a' straight merged

theorem Alike.map (alike : Alike read plain) (f : ι → α → β) :
    Alike (fun origin x => (read origin x).map (f x)) plain := by
  refine ⟨fun x holds b => ?_, fun x b c straight merged => ?_⟩
  · simp only [Except.map_eq_ok, alike.same x holds]
  · obtain ⟨a, straight, -⟩ := Except.map_eq_ok.1 straight
    obtain ⟨a', merged, -⟩ := Except.map_eq_ok.1 merged
    exact alike.plain x a a' straight merged

theorem Alike.comp {κ : Type} (alike : Alike read plain) (f : κ → ι) :
    Alike (fun origin x => read origin (f x)) fun x => plain (f x) :=
  ⟨fun x => alike.same (f x), fun x => alike.plain (f x)⟩

theorem Alike.mapM (alike : Alike read plain) :
    Alike (fun origin (xs : List ι) => xs.mapM (read origin)) fun xs => xs.all plain := by
  refine ⟨fun xs => ?_, fun xs => ?_⟩
  · induction xs with
    | nil => exact fun _ _ => .rfl
    | cons x rest ih =>
        intro holds as
        obtain ⟨first, others⟩ := Bool.and_eq_true_iff.1 (List.all_cons ▸ holds)
        simp only [List.mapM_cons, Except.bind_eq_ok, alike.same x first, ih others]
  · induction xs with
    | nil => exact fun _ _ _ _ => rfl
    | cons x rest ih =>
        intro as bs straight merged
        simp only [List.mapM_cons, Except.bind_eq_ok] at straight merged
        obtain ⟨a, straight, as, straightRest, -⟩ := straight
        obtain ⟨b, merged, bs, mergedRest, -⟩ := merged
        rw [List.all_cons, alike.plain x a b straight merged, ih as bs straightRest mergedRest]
        rfl

theorem Alike.foldlM {set : Origin → α → String → Toml → Except Error α}
    {plain : String → Toml → Bool}
    (alike : ∀ a name, Alike (fun origin value => set origin a name value) (plain name))
    (start : α) :
    Alike (fun origin (entries : List (String × Toml)) =>
      entries.foldlM (fun a (name, value) => set origin a name value) start)
      fun entries => entries.all fun e => plain e.1 e.2 := by
  refine ⟨fun entries => ?_, fun entries => ?_⟩
  · induction entries generalizing start with
    | nil => exact fun _ _ => .rfl
    | cons e rest ih =>
        intro holds a
        obtain ⟨first, others⟩ := Bool.and_eq_true_iff.1 (List.all_cons ▸ holds)
        simp only [List.foldlM_cons, Except.bind_eq_ok, (alike start e.1).same e.2 first,
          fun b => ih b others]
  · induction entries generalizing start with
    | nil => exact fun _ _ _ _ => rfl
    | cons e rest ih =>
        intro a b straight merged
        simp only [List.foldlM_cons, Except.bind_eq_ok] at straight merged
        obtain ⟨next, straight, straightRest⟩ := straight
        obtain ⟨next', merged, mergedRest⟩ := merged
        have first := (alike start e.1).plain e.2 next next' straight merged
        cases (((alike start e.1).same e.2 first next).1 straight).symm.trans merged
        rw [List.all_cons, first, ih next a b straightRest mergedRest]
        rfl

/-! ## The readers of values -/

def plainText : Toml → Bool
  | .moment _ => false
  | _ => true

def plainTexts : Toml → Bool
  | .array items => items.all plainText
  | _ => true

def plainMap (item : Toml → Bool) : Toml → Bool
  | .table entries => entries.all fun e => item e.2
  | .moment _ => false
  | _ => true

def plainRecord (names : List String) (field : String → Toml → Bool) : Toml → Bool
  | .table entries => entries.all fun e => field e.1 e.2
  | .array items =>
    decide (items.length ≤ names.length) && (names.zip items).all fun e => field e.1 e.2
  | .moment _ => false
  | _ => true

theorem alike_text : Alike text plainText := by
  refine ⟨fun value holds a => ?_, fun value a b straight merged => ?_⟩
  · cases value with
    | text => rfl
    | moment => cases holds
    | _ => exact iff_of_false (mismatch_ne_ok _ _ _ _) (mismatch_ne_ok _ _ _ _)
  · cases value with
    | moment shown => exact absurd straight (mismatch_ne_ok _ _ _ _)
    | _ => rfl

theorem alike_boolean : Alike boolean fun _ => true := by
  refine alike_of_eq fun value a => ?_
  cases value with
  | boolean => rfl
  | _ => exact iff_of_false (mismatch_ne_ok _ _ _ _) (mismatch_ne_ok _ _ _ _)

theorem alike_integer (expected : String) (low high : Int) :
    Alike (fun origin => integer origin expected low high) fun _ => true := by
  refine alike_of_eq fun value a => ?_
  cases value with
  | integer n =>
      simp only [integer]
      split
      · rfl
      · split
        · rfl
        · exact iff_of_false (mismatch_ne_ok _ _ _ _) (mismatch_ne_ok _ _ _ _)
  | _ => exact iff_of_false (mismatch_ne_ok _ _ _ _) (mismatch_ne_ok _ _ _ _)

theorem alike_texts : Alike texts plainTexts := by
  refine ⟨fun value holds a => ?_, fun value a b straight merged => ?_⟩
  · cases value with
    | array items => exact alike_text.mapM.same items holds a
    | _ => exact iff_of_false (mismatch_ne_ok _ _ _ _) (mismatch_ne_ok _ _ _ _)
  · cases value with
    | array items => exact alike_text.mapM.plain items a b straight merged
    | _ => rfl

theorem alike_choice (allowed : List (String × α)) :
    Alike (fun origin => choice origin allowed) fun _ => true := by
  refine alike_of_eq fun value a => ?_
  unfold choice
  split
  · rfl
  · rfl
  · rfl
  · exact iff_of_false nofun nofun

theorem alike_ignore : Alike (fun _ => ignore) fun _ => true :=
  alike_of_eq fun _ _ => .rfl

theorem Alike.entries {item : Origin → Toml → Except Error α} {plain : Toml → Bool}
    (alike : Alike item plain) :
    Alike (fun origin => Decode.map origin (item origin)) (plainMap plain) := by
  have each := ((alike.comp Prod.snd).map fun (e : String × Toml) x => (e.1, x)).mapM
  refine ⟨fun value holds a => ?_, fun value a b straight merged => ?_⟩
  · cases value with
    | table entries => exact each.same entries holds a
    | moment => cases holds
    | _ => exact iff_of_false (mismatch_ne_ok _ _ _ _) (mismatch_ne_ok _ _ _ _)
  · cases value with
    | table entries => exact each.plain entries a b straight merged
    | moment shown => exact absurd merged (mismatch_ne_ok _ _ _ _)
    | _ => rfl

theorem Alike.record {set : Origin → α → String → Toml → Except Error α}
    {plain : String → Toml → Bool}
    (alike : ∀ a name, Alike (fun origin value => set origin a name value) (plain name))
    (expected : String) (names : List String) (start : α) :
    Alike (fun origin => Decode.record origin expected names (set origin) start)
      (plainRecord names plain) := by
  have each := Alike.foldlM alike start
  refine ⟨fun value holds a => ?_, fun value a b straight merged => ?_⟩
  · cases value with
    | table entries => exact each.same entries holds a
    | array items =>
        obtain ⟨fits, all⟩ := Bool.and_eq_true_iff.1 holds
        have short : ¬ names.length < items.length := Nat.not_lt.2 (of_decide_eq_true fits)
        simp only [Decode.record, short, and_false, if_false, Except.bind_eq_ok,
          each.same (names.zip items) all]
    | moment => cases holds
    | _ => exact iff_of_false (mismatch_ne_ok _ _ _ _) (mismatch_ne_ok _ _ _ _)
  · cases value with
    | table entries => exact each.plain entries a b straight merged
    | array items =>
        obtain ⟨_, straight, -⟩ := Except.bind_eq_ok.1 straight
        obtain ⟨_, merged, checked⟩ := Except.bind_eq_ok.1 merged
        have fits : items.length ≤ names.length := by
          by_contra surplus
          rw [if_pos ⟨rfl, Nat.not_le.1 surplus⟩] at checked
          cases checked
        exact Bool.and_eq_true_iff.2 ⟨decide_eq_true fits, each.plain _ _ _ straight merged⟩
    | moment shown => exact absurd merged (mismatch_ne_ok _ _ _ _)
    | _ => rfl

end Toml.Decode

open Toml.Decode

/-! ## The readers of settings -/

namespace Logging

def plainField : String → Toml → Bool
  | "level" => plainText
  | _ => fun _ => true

theorem alike_set (l : Logging) (name : String) :
    Alike (fun origin => set origin l name) (plainField name) := by
  unfold set
  split
  · exact alike_text.bind _
  · exact alike_boolean.bind _
  · exact alike_boolean.bind _
  · exact alike_boolean.bind _
  · exact alike_boolean.bind _
  · exact (alike_choice _).bind _
  · rename_i notLevel _ _ _ _ _
    rw [plainField]
    · exact alike_ignore.bind _
    · exact notLevel

theorem alike_ofToml : Alike ofToml (plainRecord fields plainField) :=
  Alike.record alike_set _ _ _

end Logging

namespace Target

def plainField : String → Toml → Bool
  | "base_url" | "path" => plainText
  | "headers" => plainMap plainText
  | _ => fun _ => true

theorem alike_set (p : Parts) (name : String) :
    Alike (fun origin => set origin p name) (plainField name) := by
  unfold set
  dsimp only
  split
  · exact (alike_text.map fun _ => some).bind _
  · exact (alike_text.map fun _ => some).bind _
  · exact (((alike_integer _ _ _).map fun _ n => n.toNat.toUInt64).map fun _ => some).bind _
  · exact alike_text.entries.bind _
  · rename_i notUrl notPath _ notHeaders
    rw [plainField]
    · exact alike_ignore.bind _
    · exact notUrl
    · exact notPath
    · exact notHeaders

theorem alike_ofToml : Alike ofToml (plainRecord fields plainField) :=
  (Alike.record alike_set _ _ _).bind _

end Target

namespace Service

def plainField : String → Toml → Bool
  | "target" | "target_url" | "path" => plainText
  | "to_user_ids" | "phrases" => plainTexts
  | _ => fun _ => true

theorem alike_read (f : Field) : Alike f.read (plainField f.name) := by
  cases f with
  | target | targetUrl | path => exact alike_text
  | toUserIds | phrases => exact alike_texts
  | _ => exact (alike_integer _ _ _).map _

theorem alike_set (s : Service) (name : String) :
    Alike (fun origin => set origin s name) (plainField name) := by
  by_cases known : name ∈ fields
  · obtain ⟨f, -, rfl⟩ := List.mem_map.1 (show name ∈ Field.all.map Field.name from known)
    have same : (fun origin => set origin s f.name) =
        fun origin value => (f.read origin value).map fun x => s.put f (some x) := by
      funext origin value
      exact set_name origin s f value
    rw [same]
    exact (alike_read f).map _
  · have same : (fun origin => set origin s name) =
        fun _ value => (ignore value).map fun _ => s := by
      funext origin value
      exact set_of_not_mem known
    have other : plainField name = fun _ => true := by
      unfold plainField
      split <;> first
        | exact absurd (by decide) known
        | rfl
    rw [same, other]
    exact alike_ignore.map _

theorem alike_ofToml : Alike ofToml (plainRecord fields plainField) :=
  Alike.record alike_set _ _ _

def plainSection : String → Toml → Bool
  | "push_loadtest" => plainRecord fields plainField
  | _ => fun _ => true

theorem alike_ofSection : Alike ofSection (plainRecord ["push_loadtest"] plainSection) := by
  refine Alike.record (fun section? name => ?_) _ _ _
  split
  · exact alike_ofToml.bind _
  · rename_i notPushes
    rw [plainSection]
    · exact alike_ignore.bind _
    · exact notPushes

end Service

namespace Settings

def plainField : String → Toml → Bool
  | "logging" => plainRecord Logging.fields Logging.plainField
  | "targets" => plainMap (plainRecord Target.fields Target.plainField)
  | "services" => plainRecord ["push_loadtest"] Service.plainSection
  | _ => fun _ => true

theorem alike_set (s : Settings) (name : String) :
    Alike (fun origin => set origin s name) (plainField name) := by
  unfold set
  split
  · exact Logging.alike_ofToml.bind _
  · exact Target.alike_ofToml.entries.bind _
  · exact Service.alike_ofSection.bind _
  · rename_i notLogging notTargets notServices
    rw [plainField]
    · exact alike_ignore.bind _
    · exact notLogging
    · exact notTargets
    · exact notServices

theorem alike_ofToml :
    Alike ofToml (plainRecord ["logging", "targets", "services"] plainField) :=
  Alike.record alike_set _ _ _

/-! ## A file and a directory of one fragment -/

variable {files tree : Files} {file directory text : String}

/-- A text that means the same in a file and in a fragment. -/
def Portable (text : String) : Prop :=
  ∃ value, Toml.parse text = .ok value ∧ value.numbersFit Toml.fitsWord = true ∧
    plainRecord ["logging", "targets", "services"] plainField value = true

instance (text : String) : Decidable (Portable text) :=
  decidable_of_iff ((Toml.parse text).toOption.any fun value =>
      value.numbersFit Toml.fitsWord &&
        plainRecord ["logging", "targets", "services"] plainField value) <| by
    cases parsed : Toml.parse text <;> simp [Portable, parsed, Except.toOption]

theorem read_encode (single : files.at? file = some (.file (Utf8.encode text))) :
    files.read file = .ok text := by
  unfold Files.read
  rw [single]
  dsimp only
  rw [Utf8.decode_encode]

theorem load_file_eq_ok {s : Settings}
    (single : files.at? file = some (.file (Utf8.encode text))) :
    load files file = .ok s ↔ ∃ value, Toml.parse text = .ok value ∧
      ∃ parts, ofToml .text value = .ok parts ∧ parts.withDefaults = s := by
  unfold load
  rw [single]
  simp only [ofFile, read_encode single, Except.map_eq_ok, Except.bind_eq_ok, Failure.of_eq_ok]
  constructor
  · rintro ⟨parts, ⟨_, read, value, parsed, built⟩, same⟩
    cases read
    exact ⟨value, parsed, parts, built, same⟩
  · rintro ⟨value, parsed, parts, built, same⟩
    exact ⟨parts, ⟨text, rfl, value, parsed, built⟩, same⟩

theorem mergedDirectory_of_base {leaf : Files}
    (found : tree.at? directory = some (.directory [("base.toml", leaf)])) :
    mergedDirectory tree directory = readFragment tree (Path.join directory "base.toml") := by
  have there : tree.isThere (Path.join directory "base.toml") = true := by
    rw [Files.isThere, Files.at?_join found (by decide)]
    rfl
  have skip : ∀ name, Path.IsName name → name ≠ "base.toml" → ∀ merged,
      mergeDirectory tree merged (Path.join directory name) = .ok merged := by
    intro name isName other merged
    have missing : [("base.toml", leaf)].lookup name = none := by simp [other]
    rw [mergeDirectory, fragmentPaths, Files.isThere, Files.at?_join found isName, missing]
    rfl
  unfold mergedDirectory
  dsimp only
  rw [if_pos there]
  cases readFragment tree (Path.join directory "base.toml") with
  | error f => rfl
  | ok base =>
      simp only [fragmentDirectories, List.foldlM_cons, List.foldlM_nil,
        skip "shared" (by decide) (by decide), skip "services" (by decide) (by decide),
        skip "overrides" (by decide) (by decide)]
      rfl

theorem load_directory_eq_ok {s : Settings}
    (fragment : tree.at? directory =
      some (.directory [("base.toml", .file (Utf8.encode text))])) :
    load tree directory = .ok s ↔ ∃ value, Toml.parse text = .ok value ∧
      value.numbersFit Toml.fitsWord = true ∧
      ∃ parts, ofToml .fragments value = .ok parts ∧ parts.withDefaults = s := by
  have base : tree.at? (Path.join directory "base.toml") = some (.file (Utf8.encode text)) :=
    Files.at?_join fragment (by decide)
  unfold load
  rw [fragment]
  simp only [ofDirectory, mergedDirectory_of_base fragment, Except.map_eq_ok, Except.bind_eq_ok,
    Failure.of_eq_ok, readFragment_eq_ok, read_encode base]
  constructor
  · rintro ⟨parts, ⟨value, ⟨_, read, parsed, fits⟩, built⟩, same⟩
    cases read
    exact ⟨value, parsed, fits, parts, built, same⟩
  · rintro ⟨value, parsed, fits, parts, built, same⟩
    exact ⟨parts, ⟨value, ⟨text, rfl, parsed, fits⟩, built⟩, same⟩

/-- A portable text means the same as a file and as a fragment, and no other text can be loaded
both ways. -/
theorem load_file_iff_load_directory
    (single : files.at? file = some (.file (Utf8.encode text)))
    (fragment : tree.at? directory =
      some (.directory [("base.toml", .file (Utf8.encode text))])) :
    (Portable text → ∀ s, load files file = .ok s ↔ load tree directory = .ok s) ∧
      ∀ s s', load files file = .ok s → load tree directory = .ok s' → Portable text := by
  refine ⟨?_, ?_⟩
  · rintro ⟨value, parsed, fits, plain⟩ s
    rw [load_file_eq_ok single, load_directory_eq_ok fragment]
    simp only [parsed, Except.ok.injEq, exists_eq_left', fits, true_and,
      alike_ofToml.same value plain]
  · intro s s' straight merged
    obtain ⟨value, parsed, parts, straight, -⟩ := (load_file_eq_ok single).1 straight
    obtain ⟨value', parsed', fits, parts', merged, -⟩ := (load_directory_eq_ok fragment).1 merged
    cases parsed.symm.trans parsed'
    exact ⟨value, parsed, fits, alike_ofToml.plain value parts parts' straight merged⟩

/-! ## The highest seeds -/

def loneFile (text : String) : Files :=
  .directory [("conf.toml", .file (Utf8.encode text))]

def loneFragment (text : String) : Files :=
  .directory [("conf", .directory [("base.toml", .file (Utf8.encode text))])]

def seeded (seed : UInt64) : Settings :=
  { targets := [("local", defaultTarget)], service := some { seed := some seed } }

theorem load_file_iff_load_directory_seed :
    load (loneFile "services.push_loadtest.seed = 9223372036854775807") "conf.toml" =
        .ok (seeded 9223372036854775807) ∧
      load (loneFragment "services.push_loadtest.seed = 9223372036854775807") "conf" =
        .ok (seeded 9223372036854775807) := by
  have loaded : load (loneFile "services.push_loadtest.seed = 9223372036854775807") "conf.toml" =
      .ok (seeded 9223372036854775807) := by
    decide +kernel
  have single : (loneFile "services.push_loadtest.seed = 9223372036854775807").at? "conf.toml" =
      some (.file (Utf8.encode "services.push_loadtest.seed = 9223372036854775807")) := rfl
  have fragment : (loneFragment "services.push_loadtest.seed = 9223372036854775807").at? "conf" =
      some (.directory [("base.toml",
        .file (Utf8.encode "services.push_loadtest.seed = 9223372036854775807"))]) := rfl
  have portable : Portable "services.push_loadtest.seed = 9223372036854775807" := by
    decide +kernel
  exact ⟨loaded, ((load_file_iff_load_directory single fragment).1 portable _).1 loaded⟩

/-- A seed that takes all 64 bits can be given in a file but not in a fragment. -/
theorem highest_seed_is_no_fragment :
    load (loneFile "services.push_loadtest.seed = 9223372036854775808") "conf.toml" =
        .ok (seeded 9223372036854775808) ∧
      load (loneFragment "services.push_loadtest.seed = 9223372036854775808") "conf" =
        .error ⟨[.fragment "conf/base.toml"], .toml .range⟩ := by
  decide +kernel

end Settings

end Volley

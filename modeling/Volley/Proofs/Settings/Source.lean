import Volley.Proofs.Checked
import Volley.Proofs.Files
import Volley.Proofs.Toml.Merge
import Volley.Settings.Source

namespace Volley

namespace Failure

variable {ε α : Type} {context : Context} {cause : ε → Cause} {a : α}

theorem within_eq_ok {x : Except Failure α} : within context x = .ok a ↔ x = .ok a := by
  cases x <;> simp [within]

theorem of_eq_ok {x : Except ε α} : of context cause x = .ok a ↔ x = .ok a := by
  cases x <;> simp [of]

end Failure

namespace Settings

variable {files : Files} {path source environment : String} {base merged value : Toml}
  {names paths : List String} {layers : List Toml}

def fragmentsIn (files : Files) (directory : String) : List String :=
  match files.at? directory with
  | some (.directory entries) =>
    ((entries.map Prod.fst).filter Path.isToml).mergeSort.map (Path.join directory)
  | _ => []

theorem fragmentsIn_of_directory {entries : List (String × Files)}
    (found : files.at? path = some (.directory entries)) :
    ∃ names : List String, fragmentsIn files path = names.map (Path.join path) ∧
      names.Pairwise (· ≤ ·) ∧ names.Perm ((entries.map Prod.fst).filter Path.isToml) := by
  refine ⟨((entries.map Prod.fst).filter Path.isToml).mergeSort, ?_, ?_, List.mergeSort_perm _ _⟩
  · rw [fragmentsIn, found]
  · refine (List.pairwise_mergeSort ?_ ?_ _).imp of_decide_eq_true
    · intro a b c first second
      exact decide_eq_true (String.le_trans (of_decide_eq_true first) (of_decide_eq_true second))
    · intro a b
      simpa using String.le_total a b

theorem fragmentPaths_eq (files : Files) (directory : String) :
    fragmentPaths files directory = match files.sight directory with
      | .file _ => .error ⟨[.listing directory], .unreadable .notDirectory⟩
      | _ => .ok (fragmentsIn files directory) := by
  unfold fragmentPaths fragmentsIn Files.list Files.isThere Files.sight
  cases files.at? directory with
  | none => rfl
  | some there => cases there <;> rfl

def fragments (files : Files) (source : String) : Except Failure (List String) := do
  let groups ← fragmentDirectories.mapM fun name => fragmentPaths files (Path.join source name)
  return Path.join source "base.toml" :: groups.flatten

theorem readFragment_eq_ok : readFragment files path = .ok value ↔
    ∃ text, files.read path = .ok text ∧ Toml.parse text = .ok value ∧
      value.numbersFit Toml.fitsWord = true := by
  simp only [readFragment, parseFragment, Except.bind_eq_ok, Failure.of_eq_ok]
  constructor
  · rintro ⟨text, read, document, parsed, kept⟩
    split at kept
    · rename_i fits
      cases kept
      exact ⟨text, read, parsed, fits⟩
    · cases kept
  · rintro ⟨text, read, parsed, fits⟩
    exact ⟨text, read, value, parsed, if_pos fits⟩

/-- What keeps a path from being read as a fragment, with what is told of it. -/
inductive Flaw (files : Files) (path : String) : Failure → Prop
  | missing (absent : files.at? path = none) :
      Flaw files path ⟨[.readingFragment path], .unreadable .missing⟩
  | directory {entries : List (String × Files)}
      (found : files.at? path = some (.directory entries)) :
      Flaw files path ⟨[.readingFragment path], .unreadable .isDirectory⟩
  | notUtf8 {bytes : List UInt8} {fault : Utf8.Error}
      (found : files.at? path = some (.file bytes)) (garbled : Utf8.decode bytes = .error fault) :
      Flaw files path ⟨[.readingFragment path], .unreadable .notUtf8⟩
  | notToml {text : String} {cause : Toml.Error} (read : files.read path = .ok text)
      (malformed : parseFragment text = .error cause) :
      Flaw files path ⟨[.fragment path], .toml cause⟩

theorem readFragment_eq_error {f : Failure} :
    readFragment files path = .error f ↔ Flaw files path f := by
  constructor
  · intro failed
    cases read : files.read path with
    | ok text =>
        cases parsed : parseFragment text with
        | ok value => simp [readFragment, read, parsed, Failure.of, bind, Except.bind] at failed
        | error cause =>
            have named : f = ⟨[.fragment path], .toml cause⟩ := by
              simpa [readFragment, read, parsed, Failure.of, bind, Except.bind] using failed.symm
            exact named ▸ .notToml read parsed
    | error cause =>
        have named : f = ⟨[.readingFragment path], .unreadable cause⟩ := by
          simpa [readFragment, read, Failure.of, bind, Except.bind] using failed.symm
        subst named
        unfold Files.read at read
        split at read
        · rename_i absent
          cases read
          exact .missing absent
        · rename_i found
          cases read
          exact .directory found
        · rename_i found
          split at read
          · cases read
          · rename_i garbled
            cases read
            exact .notUtf8 found garbled
  · intro flaw
    cases flaw with
    | missing absent =>
        simp [readFragment, Files.read, absent, Failure.of, bind, Except.bind]
    | directory found =>
        simp [readFragment, Files.read, found, Failure.of, bind, Except.bind]
    | notUtf8 found garbled =>
        simp [readFragment, Files.read, found, garbled, Failure.of, bind, Except.bind]
    | notToml read malformed =>
        simp [readFragment, read, malformed, Failure.of, bind, Except.bind]

theorem eq_table_of_readFragment (read : readFragment files path = .ok value) :
    value.Ordered ∧ ∃ entries, value = .table entries := by
  obtain ⟨text, -, parsed, -⟩ := readFragment_eq_ok.1 read
  exact Toml.ordered_of_parse parsed

end Settings

end Volley

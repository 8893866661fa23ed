import Volley.Files.Tree

namespace Volley

namespace Path

/-- A name that stands for itself: no slash in it, and neither blank nor one or two points. -/
def IsName (name : String) : Prop :=
  '/' ∉ name.toList ∧ name ≠ "" ∧ name ≠ "." ∧ name ≠ ".."

instance (name : String) : Decidable (IsName name) := inferInstanceAs (Decidable (_ ∧ _))

variable {base name : String} {cs acc : List Char}

theorem namesFrom_append (acc cs rest : List Char) :
    namesFrom acc (cs ++ '/' :: rest) = namesFrom acc cs ++ namesFrom [] rest := by
  induction cs generalizing acc with
  | nil => simp [namesFrom]
  | cons c cs ih =>
      rw [List.cons_append, namesFrom, namesFrom]
      split
      · rw [ih, List.cons_append]
      · exact ih _

theorem namesFrom_of_not_mem (noSlash : '/' ∉ cs) :
    namesFrom acc cs = [String.ofList (acc.reverse ++ cs)] := by
  induction cs generalizing acc with
  | nil => simp [namesFrom]
  | cons c cs ih =>
      simp only [List.mem_cons, not_or] at noSlash
      rw [namesFrom, if_neg (Ne.symm noSlash.1), ih noSlash.2]
      simp

theorem join_cases (given : base ≠ "") (isName : IsName name) :
    base.toList.getLast? = some '/' ∧ join base name = base ++ name ∨
      join base name = base ++ "/" ++ name := by
  have relative : ¬ (name.toList.head? = some '/' ∨ base.isEmpty) := by
    rintro (slash | empty)
    · exact isName.1 (List.mem_of_mem_head? slash)
    · exact given (by simpa using empty)
  rw [join, if_neg relative]
  split
  · rename_i slash
    exact .inl ⟨slash, rfl⟩
  · exact .inr rfl

theorem names_join (given : base ≠ "") (isName : IsName name) :
    ∃ front, names (join base name) = front ++ [name] ∧
      (names base = front ∨ names base = front ++ [""]) := by
  have last : namesFrom [] name.toList = [name] := by
    rw [namesFrom_of_not_mem isName.1]
    simp
  rcases join_cases given isName with ⟨slash, joined⟩ | joined
  · obtain ⟨front, ended⟩ := List.getLast?_eq_some_iff.1 slash
    refine ⟨namesFrom [] front, ?_, .inr ?_⟩
    · rw [names, joined, String.toList_append, ended, List.append_assoc, List.singleton_append,
        namesFrom_append, last]
    · rw [names, ended, namesFrom_append]
      rfl
  · refine ⟨names base, ?_, .inl rfl⟩
    rw [names, joined, String.toList_append, String.toList_append, List.append_assoc]
    exact (namesFrom_append [] base.toList name.toList).trans (by rw [last, names])

theorem isAbsolute_join (given : base ≠ "") (isName : IsName name) :
    isAbsolute (join base name) = isAbsolute base := by
  obtain ⟨c, rest, chars⟩ : ∃ c rest, base.toList = c :: rest := by
    cases chars : base.toList with
    | nil => exact absurd (String.toList_eq_nil_iff.1 chars) given
    | cons c rest => exact ⟨c, rest, rfl⟩
  rcases join_cases given isName with ⟨-, same⟩ | same <;> simp [isAbsolute, same, chars]

theorem join_ne_blank (given : base ≠ "") (isName : IsName name) : join base name ≠ "" := by
  rcases join_cases given isName with ⟨-, same⟩ | same <;> simp [same, given]

theorem trimBack_of_isName (isName : IsName name) (rest : List Char) :
    trimBack (name.toList.reverse ++ rest) = name.toList.reverse ++ rest := by
  obtain ⟨noSlash, given, notHere, -⟩ := isName
  obtain ⟨c, cs, chars⟩ : ∃ c cs, name.toList.reverse = c :: cs := by
    cases chars : name.toList.reverse with
    | nil => exact absurd (by simpa using chars) given
    | cons c cs => exact ⟨c, cs, rfl⟩
  have noSlash : '/' ∉ c :: cs := by simpa [← chars] using noSlash
  have slash : ∀ tail, c :: cs ++ rest ≠ '/' :: tail := by
    rintro tail same
    cases same
    exact noSlash List.mem_cons_self
  have point : ∀ tail, c :: cs ++ rest ≠ '.' :: '/' :: tail := by
    rintro tail same
    obtain ⟨rfl, same⟩ := List.cons.inj same
    cases cs with
    | nil =>
        have single : name.toList = ['.'] := by simpa using congrArg List.reverse chars
        exact notHere (String.toList_inj.1 single)
    | cons d cs =>
        cases same
        exact noSlash (List.mem_cons_of_mem _ List.mem_cons_self)
  rw [chars]
  unfold trimBack
  split
  case h_1 same | h_2 same => exact absurd same (slash _)
  case h_3 same | h_4 same => exact absurd same (point _)
  · rfl

theorem dropWhile_name (isName : IsName name) (rest : List Char) :
    (name.toList.reverse ++ rest).dropWhile (· ≠ '/') = rest.dropWhile (· ≠ '/') := by
  refine List.dropWhile_append_of_pos fun c member => ?_
  have noSlash : '/' ∉ name.toList.reverse := by simpa using isName.1
  simpa using ne_of_mem_of_not_mem member noSlash

theorem parent_of_isName (isName : IsName name) : parent name = "" := by
  have whole := trimBack_of_isName isName []
  have nothing := dropWhile_name isName []
  rw [List.append_nil] at whole nothing
  rw [parent, whole]
  simp only [nothing]
  rfl

theorem parent_join (given : base ≠ "")
    (trimmed : trimBack base.toList.reverse = base.toList.reverse)
    (isName : IsName name) : parent (join base name) = base := by
  have above : ∀ back, (join base name).toList = back.reverse ++ '/' :: name.toList →
      trimBack ('/' :: back) = base.toList.reverse → parent (join base name) = base := by
    intro back joined same
    have whole : (join base name).toList.reverse = name.toList.reverse ++ '/' :: back := by
      simp [joined]
    rw [parent, whole, trimBack_of_isName isName]
    simp only [dropWhile_name isName]
    simp [same]
  rcases join_cases given isName with ⟨slash, joined⟩ | joined
  · obtain ⟨front, ended⟩ := List.getLast?_eq_some_iff.1 slash
    refine above front.reverse ?_ ?_
    · rw [joined]
      simp [ended]
    · rw [ended, List.reverse_append] at trimmed ⊢
      exact trimmed
  · refine above base.toList.reverse ?_ ?_
    · rw [joined]
      simp
    · cases back : base.toList.reverse with
      | nil => exact absurd (by simpa using back) given
      | cons c rest =>
          rw [back] at trimmed
          exact trimmed

end Path

namespace Files

variable {tree here : Files} {above : List Files} {path : List String} {directory name : String}
  {entries : List (String × Files)}

theorem walk_append (path more : List String) (here : Files) (above : List Files) :
    ∃ higher, walk (path ++ more) here above =
      (walk path here above).bind fun there => walk more there higher := by
  induction path generalizing here above with
  | nil => exact ⟨above, rfl⟩
  | cons first rest ih =>
      cases here with
      | file bytes => exact ⟨above, rfl⟩
      | directory entries =>
          simp only [List.cons_append, walk]
          split
          · exact ih _ _
          · split
            · split <;> exact ih _ _
            · split
              · exact ih _ _
              · exact ⟨above, rfl⟩

theorem walk_name (isName : Path.IsName name) :
    walk [name] (.directory entries) above = entries.lookup name := by
  unfold walk
  rw [if_neg (not_or.2 ⟨isName.2.1, isName.2.2.1⟩), if_neg isName.2.2.2]
  cases entries.lookup name <;> rfl

theorem eq_of_walk_blank (found : walk [""] here above = some tree) : here = tree := by
  cases here with
  | file bytes => cases found
  | directory entries => simpa [walk] using found

theorem at?_join (found : tree.at? directory = some (.directory entries))
    (isName : Path.IsName name) :
    tree.at? (Path.join directory name) = entries.lookup name := by
  have given : directory ≠ "" := by
    rintro rfl
    cases found
  obtain ⟨front, names, before⟩ := Path.names_join given isName
  have step : ∀ root, walk (Path.names directory) root [] = some (.directory entries) →
      walk (Path.names (Path.join directory name)) root [] = entries.lookup name := by
    intro root found
    have reached : walk front root [] = some (.directory entries) := by
      rcases before with same | blank
      · rwa [same] at found
      · obtain ⟨higher, ends⟩ := walk_append front [""] root []
        rw [blank, ends] at found
        obtain ⟨there, reached, last⟩ := Option.bind_eq_some_iff.1 found
        rw [reached, eq_of_walk_blank last]
    obtain ⟨higher, ends⟩ := walk_append front [name] root []
    rw [names, ends, reached]
    exact walk_name isName
  unfold at? at found ⊢
  rw [if_neg (by simpa using given)] at found
  rw [Path.isAbsolute_join given isName, if_neg (by simpa using Path.join_ne_blank given isName)]
  split at found
  · rename_i absolute
    rw [if_pos absolute]
    exact step _ found
  · rename_i relative
    rw [if_neg relative]
    exact step _ found

inductive Sight
  | nothing
  | directory
  | file (bytes : List UInt8)

def sight (tree : Files) (path : String) : Sight :=
  match tree.at? path with
  | none => .nothing
  | some (.directory _) => .directory
  | some (.file bytes) => .file bytes

variable {other : Files} {path : String}

theorem at?_of_sight (same : tree.sight path = other.sight path) :
    (tree.at? path = none ∧ other.at? path = none) ∨
      (∃ entries others, tree.at? path = some (.directory entries) ∧
        other.at? path = some (.directory others)) ∨
      ∃ bytes, tree.at? path = some (.file bytes) ∧ other.at? path = some (.file bytes) := by
  unfold sight at same
  split at same <;> split at same <;> simp_all

theorem isThere_congr (same : tree.sight path = other.sight path) :
    tree.isThere path = other.isThere path := by
  rcases at?_of_sight same with ⟨mine, its⟩ | ⟨_, _, mine, its⟩ | ⟨_, mine, its⟩ <;>
    simp [isThere, mine, its]

theorem isDirectory_congr (same : tree.sight path = other.sight path) :
    tree.isDirectory path = other.isDirectory path := by
  rcases at?_of_sight same with ⟨mine, its⟩ | ⟨_, _, mine, its⟩ | ⟨_, mine, its⟩ <;>
    simp [isDirectory, mine, its]

theorem read_congr (same : tree.sight path = other.sight path) :
    tree.read path = other.read path := by
  rcases at?_of_sight same with ⟨mine, its⟩ | ⟨_, _, mine, its⟩ | ⟨_, mine, its⟩ <;>
    simp [read, mine, its]

end Files

end Volley

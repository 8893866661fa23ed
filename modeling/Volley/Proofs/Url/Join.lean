import Volley.Proofs.Checked
import Volley.Url.Reader

namespace Volley.Url

variable {idna : Idna} {base url : Url} {scheme text : String} {cs rest : List Char} {a : Authority}

theorem host_of_readAuthority (special : (SchemeKind.of scheme).isSpecial = true)
    (read : readAuthority idna scheme cs = .ok (a, rest)) : a.host.isSome = true := by
  unfold readAuthority at read
  extract_lets isSpecial at read
  split at read
  -- None of the faults on the way arose.
  obtain ⟨-, read⟩ := Except.guard_eq_ok.1 read
  obtain ⟨-, read⟩ := Except.guard_eq_ok.1 read
  rw [if_pos special] at read
  obtain ⟨host, parsed, read⟩ := Except.bind_eq_ok.1 read
  obtain ⟨found, -, rfl⟩ := Except.map_eq_ok.1 parsed
  obtain ⟨-, read⟩ := Except.guard_eq_ok.1 read
  split at read
  · obtain ⟨_, -, read⟩ := Except.bind_eq_ok.1 read
    obtain ⟨-, read⟩ := Except.guard_eq_ok.1 read
    cases read
    rfl
  · obtain ⟨_, -, read⟩ := Except.bind_eq_ok.1 read
    obtain ⟨-, read⟩ := Except.guard_eq_ok.1 read
    cases read
    rfl

theorem scheme_of_withAuthority (read : withAuthority idna scheme cs = .ok url) :
    url.scheme = scheme := by
  obtain ⟨_, -, made⟩ := Except.bind_eq_ok.1 read
  cases made
  rfl

theorem host_of_withAuthority (special : (SchemeKind.of scheme).isSpecial = true)
    (read : withAuthority idna scheme cs = .ok url) : url.host?.isSome = true := by
  obtain ⟨_, authority, made⟩ := Except.bind_eq_ok.1 read
  cases made
  exact host_of_readAuthority special authority

theorem SchemeKind.of_eq_file_iff : SchemeKind.of scheme = .file ↔ scheme = "file" := by
  unfold SchemeKind.of
  split
  · simp_all
  · split <;> simp_all

theorem scheme_of_file (read : file idna cs = .ok url) : url.scheme = "file" := by
  unfold file at read
  extract_lets finish at read
  have finished : ∀ parts, finish parts = .ok url → url.scheme = "file" := by
    rintro parts made
    cases made
    rfl
  split at read
  · split at read
    · obtain ⟨parts, -, made⟩ := Except.bind_eq_ok.1 read
      exact finished parts made
    · obtain ⟨parts, -, made⟩ := Except.bind_eq_ok.1 read
      exact finished parts made
  · obtain ⟨parts, -, made⟩ := Except.bind_eq_ok.1 read
    exact finished parts made

theorem scheme_of_absolute (read : absolute idna scheme cs = .ok url) : url.scheme = scheme := by
  unfold absolute at read
  split at read
  · rename_i isFile
    rw [SchemeKind.of_eq_file_iff.1 isFile, scheme_of_file read]
  · exact scheme_of_withAuthority read
  · unfold other at read
    split at read
    · exact scheme_of_withAuthority read
    · cases read
      rfl

theorem host_of_absolute (special : SchemeKind.of scheme = .special)
    (read : absolute idna scheme cs = .ok url) : url.host?.isSome = true := by
  rw [absolute, special] at read
  exact host_of_withAuthority (by rw [special]; rfl) read

theorem relative_cases (read : relative idna base cs = .ok url) :
    (∃ rest, withAuthority idna base.scheme rest = .ok url) ∨
      url.scheme = base.scheme ∧ url.authority = base.authority := by
  unfold relative at read
  dsimp only at read
  split at read
  · split at read <;> exact .inr (by cases read; exact ⟨rfl, rfl⟩)
  · split at read
    · split at read
      · exact .inl ⟨_, read⟩
      · split at read
        · exact .inl ⟨_, read⟩
        · exact .inr (by cases read; exact ⟨rfl, rfl⟩)
      · exact .inr (by cases read; exact ⟨rfl, rfl⟩)
    · exact .inr (by cases read; exact ⟨rfl, rfl⟩)

theorem isSchemeChar_of_isAlpha {c : Char} (letter : c.isAlpha = true) : isSchemeChar c = true := by
  simp [isSchemeChar, Char.isAlphanum, letter]

theorem scheme?_cons {first : Char} {more : List Char} (letter : first.isAlpha = true) :
    scheme? (first :: more) = match more.dropWhile isSchemeChar with
      | ':' :: rest =>
        some (String.ofList ((first :: more.takeWhile isSchemeChar).map Char.toLower), rest)
      | _ => none := by
  have name : (first :: more).takeWhile isSchemeChar = first :: more.takeWhile isSchemeChar :=
    List.takeWhile_cons_of_pos (isSchemeChar_of_isAlpha letter)
  have left : more.drop (more.takeWhile isSchemeChar).length = more.dropWhile isSchemeChar := by
    calc
      more.drop (more.takeWhile isSchemeChar).length =
          (more.takeWhile isSchemeChar ++ more.dropWhile isSchemeChar).drop
            (more.takeWhile isSchemeChar).length := by rw [List.takeWhile_append_dropWhile]
      _ = more.dropWhile isSchemeChar := List.drop_left
  have read : scheme? (first :: more) =
      match (first :: more).drop ((first :: more).takeWhile isSchemeChar).length with
      | ':' :: rest =>
        some (String.ofList (((first :: more).takeWhile isSchemeChar).map Char.toLower), rest)
      | _ => none :=
    if_neg (by simp [letter])
  rw [read, name, List.length_cons, List.drop_succ_cons, left]

theorem scheme?_eq_some_iff : scheme? cs = some (scheme, rest) ↔
    ∃ first more, cs = first :: more ++ ':' :: rest ∧ first.isAlpha = true ∧
      (∀ c ∈ more, isSchemeChar c = true) ∧
      scheme = String.ofList ((first :: more).map Char.toLower) := by
  constructor
  · intro read
    cases cs with
    | nil => cases read
    | cons first more =>
        cases letter : first.isAlpha with
        | false => simp [scheme?, letter] at read
        | true =>
            have named : ∀ c ∈ more.takeWhile isSchemeChar, isSchemeChar c = true :=
              List.all_eq_true.1 List.all_takeWhile
            have both := List.takeWhile_append_dropWhile (p := isSchemeChar) (l := more)
            rw [scheme?_cons letter] at read
            split at read
            · rename_i after
              cases read
              rw [after] at both
              exact ⟨first, _, by rw [List.cons_append, both], letter, named, rfl⟩
            · cases read
  · rintro ⟨first, more, rfl, letter, named, rfl⟩
    rw [List.cons_append, scheme?_cons letter, List.takeWhile_append_of_pos named,
      List.dropWhile_append_of_pos named]
    simp [isSchemeChar]

/-- A text names a scheme before its first colon: a letter, then letters, digits and the signs `+`,
`-` and `.`. Capitals are as good as small letters. -/
def Names (text scheme : String) : Prop :=
  ∃ first more rest, significant text = first :: more ++ ':' :: rest ∧ first.isAlpha = true ∧
    (∀ c ∈ more, isSchemeChar c = true) ∧ scheme = String.ofList ((first :: more).map Char.toLower)

def ownScheme? (text : String) : Option String := (scheme? (significant text)).map (·.1)

theorem ownScheme?_eq_some_iff : ownScheme? text = some scheme ↔ Names text scheme := by
  simp only [ownScheme?, Option.map_eq_some_iff, Prod.exists, scheme?_eq_some_iff,
    Names]
  constructor
  · rintro ⟨_, rest, ⟨first, more, shown⟩, rfl⟩
    exact ⟨first, more, rest, shown⟩
  · rintro ⟨first, more, rest, shown⟩
    exact ⟨scheme, rest, ⟨first, more, shown⟩, rfl⟩

theorem join_cases (joined : base.join idna text = .ok url) :
    (∃ scheme rest, ownScheme? text = some scheme ∧ absolute idna scheme rest = .ok url) ∨
      (∀ scheme, ownScheme? text = some scheme → scheme = base.scheme) ∧
        ∃ rest, relative idna base rest = .ok url := by
  unfold join read at joined
  unfold ownScheme?
  cases named : scheme? (significant text) with
  | none =>
      simp only [named] at joined
      split at joined
      · exact .inr ⟨nofun, _, joined⟩
      · cases joined
  | some pair =>
      obtain ⟨scheme, rest⟩ := pair
      simp only [named] at joined
      split at joined
      · rename_i sameScheme
        refine .inr ⟨?_, _, joined⟩
        rintro _ ⟨⟩
        exact sameScheme.2.1
      · exact .inl ⟨scheme, rest, rfl, joined⟩

theorem scheme_of_join (joined : base.join idna text = .ok url) :
    url.scheme = (ownScheme? text).getD base.scheme := by
  rcases join_cases joined with ⟨scheme, rest, named, read⟩ | ⟨same, rest, read⟩
  · rw [named, Option.getD_some, scheme_of_absolute read]
  · have kept : (ownScheme? text).getD base.scheme = base.scheme := by
      cases named : ownScheme? text with
      | none => rfl
      | some scheme => exact same scheme named
    rw [kept]
    rcases relative_cases read with ⟨_, read⟩ | ⟨scheme, -⟩
    · exact scheme_of_withAuthority read
    · exact scheme

theorem host_of_join (hosted : base.host?.isSome = true) (joined : base.join idna text = .ok url)
    (special : SchemeKind.of url.scheme = .special) : url.host?.isSome = true := by
  rcases join_cases joined with ⟨scheme, rest, -, read⟩ | ⟨-, rest, read⟩
  · rw [scheme_of_absolute read] at special
    exact host_of_absolute special read
  · rcases relative_cases read with ⟨_, read⟩ | ⟨-, authority⟩
    · rw [scheme_of_withAuthority read] at special
      exact host_of_withAuthority (by rw [special]; rfl) read
    · rwa [host?, authority]

end Volley.Url

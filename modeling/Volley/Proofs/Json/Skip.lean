import Volley.Proofs.Checked
import Volley.Proofs.Json.Scan

/-! Every value of the grammar is passed over up to its end (`Json.IsValue.skipValue`). -/

namespace Volley.Json

namespace Scan

variable {α β : Type} {b b' body cs ds rest after : List Char} {c : Char} {n fuel : Nat}

/-! ## Texts -/

theorem skipString_short {x : Char} (known : simpleEscape? x = some c) (rest : List Char) :
    skipString ('\\' :: x :: rest) = skipString rest := by
  rw [skipString, if_neg (by decide), if_pos rfl]
  simp only [known, Option.isSome_some, if_pos]

theorem skipString_unit (read : hexFour cs = .ok (n, rest)) :
    skipString ('\\' :: 'u' :: cs) = skipString rest := by
  rw [skipString, if_neg (by decide), if_pos rfl, if_neg (by decide), if_pos rfl]
  split
  · rename_i failed
    cases read.symm.trans failed
  · rename_i found
    cases read.symm.trans found
    rfl

theorem skipString_plain (plain : IsPlain c) (rest : List Char) :
    skipString (c :: rest) = skipString rest := by
  obtain ⟨notQuote, notBackslash, notControl⟩ := plain
  rw [skipString.eq_def]
  dsimp only
  rw [if_neg notQuote, if_neg notBackslash, if_neg (Nat.not_lt.2 notControl)]

theorem skipString_quote (rest : List Char) : skipString ('"' :: rest) = .ok ((), rest) := by
  rw [skipString.eq_def]
  rfl

theorem skipString_of_isBody (passed : IsBody body) (rest : List Char) :
    skipString (body ++ '"' :: rest) = .ok ((), rest) := by
  induction passed with
  | nil => exact skipString_quote rest
  | plain plain _ ih => exact (skipString_plain plain _).trans ih
  | short listed _ ih => exact (skipString_short (simpleEscape?_of_mem listed) _).trans ih
  | unit digits _ ih =>
      rw [List.cons_append, List.cons_append, List.append_assoc]
      exact (skipString_unit (hexFour_of_spells digits _)).trans ih

theorem name_eq_ok {expected : List Char} (read : name expected cs = .ok ((), rest)) :
    cs = expected ++ rest := by
  induction expected generalizing cs with
  | nil =>
      cases read
      rfl
  | cons c more ih =>
      cases cs with
      | nil => cases read
      | cons d after =>
          rw [name] at read
          dsimp only at read
          split at read
          · rename_i same
            rw [same, ih read, List.cons_append]
          · cases read

theorem skipString_escaped (read : escaped cs = .ok (c, rest)) :
    skipString ('\\' :: cs) = skipString rest := by
  cases cs with
  | nil => cases read
  | cons x after =>
      rw [escaped] at read
      split at read
      · rename_i known
        cases read
        exact skipString_short known _
      · split at read
        · rename_i unit
          subst unit
          rw [unicodeEscape] at read
          split at read
          · cases read
          · rename_i first
            rw [skipString_unit first]
            split at read
            · cases read
            · split at read
              · cases read
                rfl
              · split at read
                · cases read
                · rename_i between
                  rw [name_eq_ok between, List.cons_append, List.cons_append, List.nil_append]
                  split at read
                  · cases read
                  · rename_i second
                    split at read
                    · simp only [Except.ok.injEq, Prod.mk.injEq] at read
                      rw [← read.2]
                      exact skipString_unit second
                    · cases read
        · cases read

theorem skipString_of_stringBody {text : List Char} (read : stringBody cs = .ok (text, rest)) :
    skipString cs = .ok ((), rest) := by
  fun_induction stringBody cs generalizing text with
  | case1 => cases read
  | case2 =>
      cases read
      exact skipString_quote rest
  | case3 => cases read
  | case4 => cases read
  | case5 cs c after known body end' found _ ih =>
      cases read
      exact (skipString_escaped known).trans (ih found)
  | case6 => cases read
  | case7 => cases read
  | case8 c cs notQuote notBackslash notControl body end' found ih =>
      cases read
      exact (skipString_plain ⟨notQuote, notBackslash, Nat.not_lt.1 notControl⟩ _).trans (ih found)

/-! ## Numbers -/

theorem skipDigits_of_areDigits (digits : AreDigits ds)
    (ends : ∀ c ∈ rest.head?, c.isDigit = false) : skipDigits (ds ++ rest) = .ok rest := by
  cases ds with
  | nil => exact absurd rfl digits.1
  | cons d ds =>
      have first := (Bool.and_eq_true_iff.1 (List.all_cons ▸ digits.2)).1
      rw [List.cons_append, skipDigits, if_pos first, ← List.cons_append,
        dropWhile_digits digits.2 ends]

theorem skipNumber_of_parts {mid : List Char} (sign : cs = ds ∨ cs = '-' :: ds)
    (whole : skipWhole ds = .ok mid) (fraction : skipFraction mid = .ok rest) :
    skipNumber cs = .ok ((), rest) := by
  have unsigned : ∀ more, ds ≠ '-' :: more := by
    rintro more rfl
    cases whole
  have parts : (skipWhole ds >>= fun mid => skipFraction mid >>= fun rest => .ok ((), rest)) =
      Except.ok ((), rest) := by
    rw [Except.bind_eq_ok]
    refine ⟨mid, whole, ?_⟩
    rw [fraction]
    rfl
  rcases sign with rfl | rfl
  · unfold skipNumber
    split
    · exact absurd rfl (unsigned _)
    · exact parts
  · exact parts

theorem skipWhole_of_isWhole (whole : IsWhole ds) (ends : ∀ c ∈ rest.head?, c.isDigit = false) :
    skipWhole (ds ++ rest) = .ok rest := by
  rcases whole with rfl | ⟨digits, notZero⟩
  · cases rest with
    | nil => rfl
    | cons d rest =>
        change (if d.isDigit then _ else Except.ok (d :: rest)) = _
        rw [ends d rfl, if_neg Bool.false_ne_true]
  · unfold skipWhole
    split
    · rename_i front
      cases ds with
      | nil => exact absurd rfl digits.1
      | cons c ds => exact absurd (congrArg some (List.cons.inj front).1) notZero
    · exact skipDigits_of_areDigits digits ends

theorem skipExponent_of_areDigits {sign : List Char}
    (signs : sign = [] ∨ sign = ['+'] ∨ sign = ['-']) (digits : AreDigits ds)
    (ends : ∀ c ∈ rest.head?, c.isDigit = false) :
    skipExponent (sign ++ (ds ++ rest)) = .ok rest := by
  have passed := skipDigits_of_areDigits digits ends
  rcases signs with rfl | rfl | rfl
  · rw [List.nil_append, ← passed]
    unfold skipExponent
    split
    · rename_i front
      rw [front] at passed
      cases passed
    · rename_i front
      rw [front] at passed
      cases passed
    · rfl
  · exact passed
  · exact passed

theorem skipAfterDigits_of_isExponent (exponent : IsExponent cs) (ends : Ends rest) :
    skipAfterDigits (cs ++ rest) = .ok rest := by
  rcases exponent with rfl | ⟨e, sign, ds, letter, signs, digits, rfl⟩
  · cases rest with
    | nil => rfl
    | cons c rest => exact if_neg (not_or.2 (ends c rfl).2.2)
  · rw [List.cons_append, skipAfterDigits, if_pos letter, List.append_assoc]
    exact skipExponent_of_areDigits signs digits fun c first => (ends c first).1

theorem head_of_isExponent (exponent : IsExponent cs) (ends : Ends rest) :
    ∀ c ∈ (cs ++ rest).head?, c.isDigit = false ∧ c ≠ '.' := by
  rcases exponent with rfl | ⟨e, sign, ds, rfl | rfl, _, _, rfl⟩
  · exact fun c first => ⟨(ends c first).1, (ends c first).2.1⟩
  · rintro _ ⟨⟩
    decide
  · rintro _ ⟨⟩
    decide

theorem skipFraction_of_isFraction {exponent : List Char} (fraction : IsFraction cs)
    (isExponent : IsExponent exponent) (ends : Ends rest) :
    skipFraction (cs ++ (exponent ++ rest)) = .ok rest := by
  have head := head_of_isExponent isExponent ends
  have last := skipAfterDigits_of_isExponent isExponent ends
  rcases fraction with rfl | ⟨ds, digits, rfl⟩
  · unfold skipFraction
    split
    · rename_i front
      exact absurd rfl (head '.' (congrArg List.head? front)).2
    · exact last
  · change (skipDigits (ds ++ _) >>= skipAfterDigits) = _
    rw [skipDigits_of_areDigits digits fun c first => (head c first).1]
    exact last

theorem skipNumber_of_isNumber (number : IsNumber cs) (ends : Ends rest) :
    skipNumber (cs ++ rest) = .ok ((), rest) := by
  obtain ⟨sign, ds, fraction, exponent, signs, whole, isFraction, isExponent, rfl⟩ := number
  have notDigit : ∀ c ∈ (fraction ++ (exponent ++ rest)).head?, c.isDigit = false := by
    rcases isFraction with rfl | ⟨places, _, rfl⟩
    · exact fun c first => (head_of_isExponent isExponent ends c first).1
    · rintro _ ⟨⟩
      decide
  have signed : sign ++ (ds ++ (fraction ++ exponent)) ++ rest =
      sign ++ (ds ++ (fraction ++ (exponent ++ rest))) := by
    simp only [List.append_assoc]
  rw [signed]
  refine skipNumber_of_parts ?_ (skipWhole_of_isWhole whole notDigit)
    (skipFraction_of_isFraction isFraction isExponent ends)
  exact signs.imp (fun none => by rw [none, List.nil_append]) (fun minus => by rw [minus]; rfl)

theorem dropWhile_of_fill {value total : Nat} (filled : fill value cs = (total, after))
    (ends : ∀ c ∈ after.head?, c.isDigit = false) : cs.dropWhile Char.isDigit = after := by
  induction cs generalizing value with
  | nil =>
      cases filled
      rfl
  | cons c cs ih =>
      rw [fill] at filled
      split at filled
      · rename_i more
        rw [List.dropWhile_cons_of_pos more.1]
        exact ih filled
      · cases filled
        simp [ends c rfl]

theorem skipFraction_of_afterWhole {negative : Bool} {value : Int}
    (read : afterWhole negative n cs = .ok (.whole value, rest)) : skipFraction cs = .ok rest := by
  have plain : ∀ {cs}, afterWhole.plain negative n cs = .ok (.whole value, rest) → cs = rest := by
    intro cs read
    unfold afterWhole.plain at read
    split at read
    · cases read
      rfl
    · split at read
      · cases read
      · cases read
        rfl
  unfold afterWhole at read
  split at read
  · obtain ⟨_, _, other⟩ := Except.map_eq_ok.1 read
    cases other
  · rename_i noPoint
    split at read
    · obtain ⟨_, _, other⟩ := Except.map_eq_ok.1 read
      cases other
    · rename_i noExponent
      rw [← plain read]
      unfold skipFraction
      split
      · rename_i point
        exact (noPoint (List.cons.inj point).1).elim
      · exact if_neg noExponent
  · rw [← plain read]
    rfl

theorem skipWhole_of_numberRest {negative : Bool} {value : Int}
    (read : numberRest negative cs = .ok (.whole value, rest)) :
    ∃ mid, skipWhole cs = .ok mid ∧ skipFraction mid = .ok rest := by
  unfold numberRest at read
  split at read
  · cases read
  · rename_i c after
    split at read
    · rename_i zero
      subst zero
      split at read
      · rename_i d more
        split at read
        · cases read
        · rename_i notDigit
          exact ⟨_, if_neg notDigit, skipFraction_of_afterWhole read⟩
      · exact ⟨[], rfl, skipFraction_of_afterWhole read⟩
    · rename_i notZero
      split at read
      · rename_i digit
        have passed : ∀ {mid}, after.dropWhile Char.isDigit = mid →
            skipWhole (c :: after) = .ok mid := by
          rintro mid rfl
          unfold skipWhole
          split
          · rename_i front
            exact absurd (List.cons.inj front).1 notZero
          · rw [skipDigits, if_pos digit, List.dropWhile_cons_of_pos digit]
        rcases filled : fill (c.toNat - 48) after with ⟨total, mid⟩
        rw [filled] at read
        dsimp only at read
        split at read
        · rename_i d more
          split at read
          · obtain ⟨_, _, other⟩ := Except.map_eq_ok.1 read
            cases other
          · rename_i notDigit
            refine ⟨_, passed (dropWhile_of_fill filled ?_), skipFraction_of_afterWhole read⟩
            rintro _ ⟨⟩
            exact Bool.eq_false_iff.2 notDigit
        · exact ⟨_, passed (dropWhile_of_fill filled (by simp)), skipFraction_of_afterWhole read⟩
      · cases read

theorem skipNumber_of_number {value : Int} (read : number cs = .ok (.whole value, rest)) :
    skipNumber cs = .ok ((), rest) := by
  unfold number at read
  split at read
  · obtain ⟨mid, whole, fraction⟩ := skipWhole_of_numberRest read
    exact skipNumber_of_parts (.inr rfl) whole fraction
  · obtain ⟨mid, whole, fraction⟩ := skipWhole_of_numberRest read
    exact skipNumber_of_parts (.inl rfl) whole fraction

/-! ## Values -/

theorem skipValue_blank (blank : IsBlank b) (fuel : Nat) (cs : List Char) :
    skipValue (fuel + 1) (b ++ cs) = skipValue (fuel + 1) cs := by
  rw [skipValue]
  exact peek_bind_blank blank cs

theorem skipValue_string (fuel : Nat) (cs : List Char) :
    skipValue (fuel + 1) ('"' :: cs) = skipString cs := rfl

theorem skipValue_array (fuel : Nat) (cs : List Char) :
    skipValue (fuel + 1) ('[' :: cs) = skipItems true fuel cs := rfl

theorem skipValue_object (fuel : Nat) (cs : List Char) :
    skipValue (fuel + 1) ('\x7b' :: cs) = skipMembers true fuel cs := rfl

theorem skipValue_number (front : IsNumberFront c) (fuel : Nat) (cs : List Char) :
    skipValue (fuel + 1) (c :: cs) = skipNumber (c :: cs) := by
  have n := ne_of_isNumberFront front (b := 'n') (by decide)
  have t := ne_of_isNumberFront front (b := 't') (by decide)
  have f := ne_of_isNumberFront front (b := 'f') (by decide)
  have quote := ne_of_isNumberFront front (b := '"') (by decide)
  have bracket := ne_of_isNumberFront front (b := '[') (by decide)
  have brace := ne_of_isNumberFront front (b := '\x7b') (by decide)
  rw [skipValue, bind_of_ok (peek_cons (isSpace_of_isNumberFront front))]
  simp only
  exact congrFun (if_pos front) _

/-! ## Lists and objects -/

theorem ends_cons (mark : c.isDigit = false ∧ c ≠ '.' ∧ c ≠ 'e' ∧ c ≠ 'E') : Ends (c :: cs) := by
  rintro _ ⟨⟩
  exact mark

theorem ends_blank (blank : IsBlank b) (ends : Ends cs) : Ends (b ++ cs) := by
  cases b with
  | nil => exact ends
  | cons c b =>
      rcases blank c List.mem_cons_self with rfl | rfl | rfl | rfl <;> exact ends_cons (by decide)

theorem ends_items {closing : Char} {Item : List Char → α → Prop} {as : List α}
    (items : Items closing Item false cs as)
    (mark : closing.isDigit = false ∧ closing ≠ '.' ∧ closing ≠ 'e' ∧ closing ≠ 'E')
    (rest : List Char) : Ends (cs ++ rest) := by
  cases items with
  | done blank =>
      rw [List.append_assoc]
      exact ends_blank blank (ends_cons mark)
  | next lead _ _ =>
      cases lead with
      | comma blank _ =>
          rw [List.append_assoc, List.append_assoc]
          exact ends_blank blank (ends_cons (by decide))

theorem length_items_pos {closing : Char} {Item : List Char → α → Prop} {first : Bool}
    {as : List α} (items : Items closing Item first cs as) : 0 < cs.length := by
  induction items with
  | done => simp
  | next _ _ _ ih =>
      simp only [List.length_append]
      omega

theorem exists_fuel {closing : Char} {Item : List Char → α → Prop} {first : Bool} {as : List α}
    (items : Items closing Item first cs as) (enough : cs.length ≤ fuel) : ∃ n, fuel = n + 1 :=
  Nat.exists_eq_succ_of_ne_zero (Nat.ne_of_gt (Nat.lt_of_lt_of_le (length_items_pos items) enough))

/-- A value that is passed over with fuel for its length, and that is not taken for the end of the
list that it stands in. -/
structure Passed (v : List Char) : Prop where
  front : ∃ c cs, v = c :: cs ∧ isSpace c = false ∧ c ≠ ']'
  skipValue_eq : ∀ {fuel rest}, v.length ≤ fuel + 1 → Ends rest →
    skipValue (fuel + 1) (v ++ rest) = .ok ((), rest)

theorem skipItems_of_items {first : Bool} {values : List (List Char)}
    (items : Items ']' Eq first cs values) (passed : ∀ v ∈ values, Passed v)
    (enough : cs.length ≤ fuel) (rest : List Char) :
    skipItems first fuel (cs ++ rest) = .ok ((), rest) := by
  obtain ⟨fuel, rfl⟩ := exists_fuel items enough
  -- Every item takes from the text at least as much as from the fuel.
  induction items generalizing fuel with
  | done blank =>
      rw [List.append_assoc, skipItems]
      exact bind_of_ok (moreItems_done blank rest)
  | @next first lead v cs _ values before same items ih =>
      subst same
      have value := passed v List.mem_cons_self
      obtain ⟨c, v, rfl, visible, notEnd⟩ := value.front
      have positive := length_items_pos items
      simp only [List.length_append, List.length_cons] at enough
      obtain ⟨fuel, rfl⟩ := exists_fuel items (by omega : cs.length ≤ fuel)
      have more := moreItems_lead before visible notEnd (v ++ (cs ++ rest))
      simp only [List.append_assoc, List.cons_append]
      rw [skipItems, bind_of_ok more, if_pos rfl, ← List.cons_append,
        bind_of_ok (value.skipValue_eq (by simp; omega) (ends_items items (by decide) rest))]
      exact ih (fun v later => passed v (List.mem_cons_of_mem _ later)) fuel (by omega)

theorem exists_front_of_paired {item : List Char} {member : List Char × List Char}
    (paired : Paired item member) (string : IsString member.1) : ∃ tail, item = '"' :: tail := by
  cases paired with
  | colon =>
      obtain ⟨body, _, rfl⟩ := string
      exact ⟨_, rfl⟩

theorem length_lt_of_paired {item : List Char} {member : List Char × List Char}
    (paired : Paired item member) : member.2.length < item.length := by
  cases paired with
  | colon =>
      simp only [List.length_append, List.length_cons]
      omega

theorem skipMembers_of_more {first : Bool} {item : List Char} {member : List Char × List Char}
    (more : moreMembers first cs = .ok (true, item ++ rest)) (paired : Paired item member)
    (string : IsString member.1) (passed : Passed member.2) (enough : member.2.length ≤ fuel + 1)
    (ends : Ends rest) : skipMembers first (fuel + 2) cs = skipMembers false (fuel + 1) rest := by
  cases paired with
  | @colon name b b' value blank blank' =>
      obtain ⟨body, isBody, rfl⟩ := string
      have text : '"' :: (body ++ ['"']) ++ (b ++ ':' :: (b' ++ value)) ++ rest =
          '"' :: (body ++ '"' :: (b ++ ':' :: (b' ++ (value ++ rest)))) := by simp
      rw [text] at more
      rw [skipMembers, bind_of_ok more, if_pos rfl]
      refine (bind_of_ok (skip_cons _ _)).trans ?_
      refine (bind_of_ok (skipString_of_isBody isBody _)).trans ?_
      rw [bind_of_ok (punctuation_blank blank (by decide) _)]
      exact bind_of_ok ((skipValue_blank blank' _ _).trans (passed.skipValue_eq enough ends))

theorem skipMembers_of_items {first : Bool} {members : List (List Char × List Char)}
    (items : Items '\x7d' Paired first cs members) (strings : ∀ m ∈ members, IsString m.1)
    (passed : ∀ m ∈ members, Passed m.2) (enough : cs.length ≤ fuel) (rest : List Char) :
    skipMembers first fuel (cs ++ rest) = .ok ((), rest) := by
  obtain ⟨fuel, rfl⟩ := exists_fuel items enough
  induction items generalizing fuel with
  | done blank =>
      rw [List.append_assoc, skipMembers]
      exact bind_of_ok (moreMembers_done blank rest)
  | @next first lead item cs member members before paired items ih =>
      obtain ⟨tail, front⟩ := exists_front_of_paired paired (strings _ List.mem_cons_self)
      have short := length_lt_of_paired paired
      have positive := length_items_pos items
      simp only [List.length_append] at enough
      obtain ⟨fuel, rfl⟩ := exists_fuel items (by omega : cs.length ≤ fuel)
      have more : moreMembers first (lead ++ (item ++ (cs ++ rest))) =
          .ok (true, item ++ (cs ++ rest)) := by
        rw [front]
        exact moreMembers_lead before _
      rw [List.append_assoc, List.append_assoc, skipMembers_of_more more paired
        (strings _ List.mem_cons_self) (passed _ List.mem_cons_self) (by omega)
        (ends_items items (by decide) rest)]
      exact ih (fun m later => strings m (List.mem_cons_of_mem _ later))
        (fun m later => passed m (List.mem_cons_of_mem _ later)) fuel (by omega)

theorem front_of_isNumber (number : IsNumber cs) : ∃ c rest, cs = c :: rest ∧ IsNumberFront c := by
  obtain ⟨sign, ds, fraction, exponent, rfl | rfl, whole, _, _, rfl⟩ := number
  · rcases whole with rfl | ⟨digits, _⟩
    · exact ⟨'0', _, rfl, .inr (by decide)⟩
    · cases ds with
      | nil => exact absurd rfl digits.1
      | cons d ds =>
          exact ⟨d, _, rfl, .inr (Bool.and_eq_true_iff.1 (List.all_cons ▸ digits.2)).1⟩
  · exact ⟨'-', _, rfl, .inl rfl⟩

end Scan

open Scan

theorem IsValue.passed {v : List Char} (value : IsValue v) : Passed v := by
  induction value with
  | null => exact ⟨⟨'n', _, rfl, by decide⟩, fun _ _ => rfl⟩
  | true => exact ⟨⟨'t', _, rfl, by decide⟩, fun _ _ => rfl⟩
  | false => exact ⟨⟨'f', _, rfl, by decide⟩, fun _ _ => rfl⟩
  | @number cs number =>
      obtain ⟨c, tail, rfl, front⟩ := front_of_isNumber number
      exact ⟨⟨c, tail, rfl, isSpace_of_isNumberFront front, ne_of_isNumberFront front (by decide)⟩,
        fun _ ends => (skipValue_number front _ _).trans (skipNumber_of_isNumber number ends)⟩
  | string string =>
      obtain ⟨body, isBody, rfl⟩ := string
      refine ⟨⟨'"', _, rfl, by decide⟩, fun {fuel rest} _ _ => ?_⟩
      rw [List.cons_append, List.append_assoc, skipValue_string]
      exact skipString_of_isBody isBody rest
  | array enclosed _ ih =>
      obtain ⟨inner, items, rfl⟩ := enclosed
      exact ⟨⟨'[', _, rfl, by decide⟩, fun {fuel rest} enough _ => (skipValue_array _ _).trans
        (skipItems_of_items items ih (Nat.le_of_succ_le_succ enough) rest)⟩
  | object enclosed strings _ ih =>
      obtain ⟨inner, items, rfl⟩ := enclosed
      exact ⟨⟨'\x7b', _, rfl, by decide⟩, fun {fuel rest} enough _ => (skipValue_object _ _).trans
        (skipMembers_of_items items strings ih (Nat.le_of_succ_le_succ enough) rest)⟩

end Volley.Json

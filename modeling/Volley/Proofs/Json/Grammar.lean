import Volley.Json.Basic

/-!
The grammar of JSON, apart from the scanners. A value of which nothing is wanted is only told from
what is none (`IsValue`).
-/

namespace Volley.Json

variable {α : Type} {cs rest body : List Char} {c : Char}

def IsPlain (c : Char) : Prop := c ≠ '"' ∧ c ≠ '\\' ∧ 0x20 ≤ c.toNat

instance (c : Char) : Decidable (IsPlain c) := inferInstanceAs (Decidable (_ ∧ _))

def shortEscapes : List (Char × Char) :=
  [('"', '"'), ('\\', '\\'), ('/', '/'), ('b', '\x08'), ('f', '\x0c'), ('n', '\n'), ('r', '\r'),
    ('t', '\t')]

def IsHexDigit (c : Char) (n : Nat) : Prop := n < 16 ∧ (c = n.digitChar ∨ c = n.digitChar.toUpper)

instance (c : Char) (n : Nat) : Decidable (IsHexDigit c n) := inferInstanceAs (Decidable (_ ∧ _))

inductive SpellsUnit : List Char → Nat → Prop
  | digits {a b c d : Char} {i j k l : Nat} : IsHexDigit a i → IsHexDigit b j → IsHexDigit c k →
      IsHexDigit d l → SpellsUnit [a, b, c, d] (((i * 16 + j) * 16 + k) * 16 + l)

inductive SpellsChar : List Char → Char → Prop
  | plain {c : Char} : IsPlain c → SpellsChar [c] c
  | short {x c : Char} : (x, c) ∈ shortEscapes → SpellsChar ['\\', x] c
  | unit {ds : List Char} {c : Char} : SpellsUnit ds c.toNat → SpellsChar ('\\' :: 'u' :: ds) c
  | pair {ds es : List Char} {c : Char} {high low : Nat} : SpellsUnit ds high →
      SpellsUnit es low → 0xD800 ≤ high → high ≤ 0xDBFF → 0xDC00 ≤ low → low ≤ 0xDFFF →
      c.toNat = 0x10000 + (high - 0xD800) * 1024 + (low - 0xDC00) →
      SpellsChar ('\\' :: 'u' :: (ds ++ '\\' :: 'u' :: es)) c

inductive SpellsText : List Char → List Char → Prop
  | nil : SpellsText [] []
  | cons {cs body text : List Char} {c : Char} : SpellsChar cs c → SpellsText body text →
      SpellsText (cs ++ body) (c :: text)

def QuotedText (cs : List Char) (text : String) : Prop :=
  ∃ body, SpellsText body text.toList ∧ cs = '"' :: (body ++ ['"'])

/-- What may stand within quotes where nothing is wanted of it: surrogates need not be in pairs. -/
inductive IsBody : List Char → Prop
  | nil : IsBody []
  | plain {c : Char} {body : List Char} : IsPlain c → IsBody body → IsBody (c :: body)
  | short {x c : Char} {body : List Char} : (x, c) ∈ shortEscapes → IsBody body →
      IsBody ('\\' :: x :: body)
  | unit {ds body : List Char} {n : Nat} : SpellsUnit ds n → IsBody body →
      IsBody ('\\' :: 'u' :: (ds ++ body))

def IsString (cs : List Char) : Prop := ∃ body, IsBody body ∧ cs = '"' :: (body ++ ['"'])

theorem SpellsText.isBody {text : List Char} (spelled : SpellsText body text) : IsBody body := by
  induction spelled with
  | nil => exact .nil
  | cons spelled _ ih =>
      cases spelled with
      | plain plain => exact .plain plain ih
      | short listed => exact .short listed ih
      | unit digits => exact .unit digits ih
      | pair high low =>
          rw [List.cons_append, List.cons_append, List.append_assoc]
          exact .unit high (.unit low ih)

theorem QuotedText.isString {text : String} (quoted : QuotedText cs text) : IsString cs := by
  obtain ⟨body, spelled, rfl⟩ := quoted
  exact ⟨body, spelled.isBody, rfl⟩

def AreDigits (ds : List Char) : Prop := ds ≠ [] ∧ ds.all Char.isDigit = true

instance (ds : List Char) : Decidable (AreDigits ds) := inferInstanceAs (Decidable (_ ∧ _))

def IsWhole (cs : List Char) : Prop := cs = ['0'] ∨ AreDigits cs ∧ cs.head? ≠ some '0'

def IsFraction (cs : List Char) : Prop := cs = [] ∨ ∃ ds, AreDigits ds ∧ cs = '.' :: ds

def IsExponent (cs : List Char) : Prop := cs = [] ∨ ∃ e sign ds, (e = 'e' ∨ e = 'E') ∧
  (sign = [] ∨ sign = ['+'] ∨ sign = ['-']) ∧ AreDigits ds ∧ cs = e :: (sign ++ ds)

def IsNumber (cs : List Char) : Prop := ∃ sign whole fraction exponent,
  (sign = [] ∨ sign = ['-']) ∧ IsWhole whole ∧ IsFraction fraction ∧ IsExponent exponent ∧
    cs = sign ++ (whole ++ (fraction ++ exponent))

/-- A text that does not go on with a number that stands before it. -/
def Ends (cs : List Char) : Prop :=
  ∀ c ∈ cs.head?, c.isDigit = false ∧ c ≠ '.' ∧ c ≠ 'e' ∧ c ≠ 'E'

def IsBlank (cs : List Char) : Prop := ∀ c ∈ cs, c = ' ' ∨ c = '\n' ∨ c = '\t' ∨ c = '\r'

instance (cs : List Char) : Decidable (IsBlank cs) := List.decidableBAll _ cs

/-- What stands before an item: blanks, with a comma among them unless it is the first item. -/
inductive Lead : Bool → List Char → Prop
  | first {b : List Char} : IsBlank b → Lead true b
  | comma {b b' : List Char} : IsBlank b → IsBlank b' → Lead false (b ++ ',' :: b')

/-- Items up to the closing bracket. The flag says whether no item stands before them. -/
inductive Items (closing : Char) (Item : List Char → α → Prop) : Bool → List Char → List α → Prop
  | done {first : Bool} {b : List Char} : IsBlank b → Items closing Item first (b ++ [closing]) []
  | next {first : Bool} {lead cs rest : List Char} {a : α} {as : List α} : Lead first lead →
      Item cs a → Items closing Item false rest as →
      Items closing Item first (lead ++ (cs ++ rest)) (a :: as)

def Enclosed (opening closing : Char) (Item : List Char → α → Prop) (cs : List Char)
    (as : List α) : Prop :=
  ∃ inner, Items closing Item true inner as ∧ cs = opening :: inner

inductive Paired : List Char → List Char × List Char → Prop
  | colon {name b b' value : List Char} : IsBlank b → IsBlank b' →
      Paired (name ++ (b ++ ':' :: (b' ++ value))) (name, value)

inductive IsValue : List Char → Prop
  | null : IsValue ['n', 'u', 'l', 'l']
  | true : IsValue ['t', 'r', 'u', 'e']
  | false : IsValue ['f', 'a', 'l', 's', 'e']
  | number {cs : List Char} : IsNumber cs → IsValue cs
  | string {cs : List Char} : IsString cs → IsValue cs
  | array {cs : List Char} {items : List (List Char)} : Enclosed '[' ']' Eq cs items →
      (∀ v ∈ items, IsValue v) → IsValue cs
  | object {cs : List Char} {members : List (List Char × List Char)} :
      Enclosed '\x7b' '\x7d' Paired cs members → (∀ m ∈ members, IsString m.1) →
      (∀ m ∈ members, IsValue m.2) → IsValue cs

def IsMember (cs : List Char) (member : String × List Char) : Prop :=
  ∃ name, QuotedText name member.1 ∧ Paired cs (name, member.2)

def IsObject (cs : List Char) (members : List (String × List Char)) : Prop :=
  (∃ b object b', IsBlank b ∧ IsBlank b' ∧ cs = b ++ (object ++ b') ∧
    Enclosed '\x7b' '\x7d' IsMember object members) ∧
  ∀ m ∈ members, IsValue m.2

theorem isBlank_nil : IsBlank [] := nofun

theorem intercalate_cons (sep x : List α) (xs : List (List α)) :
    sep.intercalate (x :: xs) = x ++ xs.flatMap fun y => sep ++ y := by
  induction xs generalizing x with
  | nil => simp
  | cons y ys ih => simp [List.intercalate_cons_cons, ih]

theorem items_intercalate {closing : Char} {Item : List Char → α → Prop} {write : α → List Char}
    {lead comma last : List Char} {as : List α} (before : IsBlank lead) (between : Lead false comma)
    (behind : IsBlank last) (written : ∀ a ∈ as, Item (write a) a) :
    Items closing Item true
      (lead ++ (comma.intercalate (as.map write) ++ (last ++ [closing]))) as := by
  have others : ∀ {as : List α}, (∀ a ∈ as, Item (write a) a) → Items closing Item false
      ((as.flatMap fun a => comma ++ write a) ++ (last ++ [closing])) as := by
    intro as written
    induction as with
    | nil => exact .done behind
    | cons a as ih =>
        rw [List.flatMap_cons, List.append_assoc, List.append_assoc]
        exact .next between (written a List.mem_cons_self)
          (ih fun a later => written a (List.mem_cons_of_mem _ later))
  cases as with
  | nil =>
      rw [List.map_nil, List.intercalate_nil, List.nil_append, ← List.append_assoc]
      exact .done fun c member => (List.mem_append.1 member).elim (before c) (behind c)
  | cons a as =>
      rw [List.map_cons, intercalate_cons, List.append_assoc, List.flatMap_map]
      exact .next (.first before) (written a List.mem_cons_self)
        (others fun a later => written a (List.mem_cons_of_mem _ later))

theorem lead_comma : Lead false [','] := (Lead.comma isBlank_nil isBlank_nil :)

theorem Items.exists_values {closing : Char} {Item : List Char → α → Prop} {as : List α}
    {first : Bool} (items : Items closing Item first cs as)
    (values : ∀ cs a, Item cs a → IsValue cs) :
    ∃ vs, Items closing Eq first cs vs ∧ ∀ v ∈ vs, IsValue v := by
  induction items with
  | done blank => exact ⟨[], .done blank, nofun⟩
  | next lead item _ ih =>
      obtain ⟨vs, others, all⟩ := ih
      exact ⟨_ :: vs, .next lead rfl others, List.forall_mem_cons.2 ⟨values _ _ item, all⟩⟩

theorem Enclosed.isValue {Item : List Char → α → Prop} {as : List α}
    (enclosed : Enclosed '[' ']' Item cs as) (values : ∀ cs a, Item cs a → IsValue cs) :
    IsValue cs := by
  obtain ⟨inner, items, rfl⟩ := enclosed
  obtain ⟨vs, items, all⟩ := items.exists_values values
  exact .array ⟨inner, items, rfl⟩ all

end Volley.Json

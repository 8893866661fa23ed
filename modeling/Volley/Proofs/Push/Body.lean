import Volley.Proofs.Push.Reader

namespace Volley.Push

open Json (Enclosed Ends IsBlank IsMember IsObject IsValue Items Lead QuotedText SpellsUnit
  isBlank_nil items_intercalate lead_comma quoteChars quotedText_quoteChars)

def names : List String :=
  ["content_id", "content", "timestamp", "push_type", "from_user_id", "to_user_ids", "expire_time"]

/-- The text of a value spells what the push has under the name. Other names may have any value. -/
def Says (p : Push) : String → List Char → Prop
  | "content_id", cs => QuotedText cs p.contentId
  | "content", cs => QuotedText cs p.content
  | "timestamp", cs => cs = (toString p.timestamp.toInt).toList
  | "push_type", cs => QuotedText cs p.kind.text
  | "from_user_id", cs => QuotedText cs p.sender
  | "to_user_ids", cs => Enclosed '[' ']' QuotedText cs p.recipients
  | "expire_time", cs => QuotedText cs p.expiry
  | _, _ => True

variable {text : String} {ms : List (String × List Char)} {push : Push}

/-! ## Parts of a push -/

namespace Parts

variable {p q : Parts}

structure Agrees (p : Parts) (push : Push) : Prop where
  contentId : ∀ t ∈ p.contentId, t = push.contentId
  content : ∀ t ∈ p.content, t = push.content
  timestamp : ∀ n ∈ p.timestamp, n = push.timestamp
  kind : ∀ k ∈ p.kind, k = push.kind
  sender : ∀ t ∈ p.sender, t = push.sender
  recipients : ∀ ts ∈ p.recipients, ts = push.recipients
  expiry : ∀ t ∈ p.expiry, t = push.expiry

theorem empty_agrees (push : Push) : empty.Agrees push :=
  ⟨nofun, nofun, nofun, nofun, nofun, nofun, nofun⟩

theorem required_eq_ok {α : Type} {name : String} {part : Option α} {a : α} :
    required name part = .ok a ↔ part = some a := by
  cases part <;> simp [required]

theorem finish_of_agrees (agrees : p.Agrees push) (all : ∀ name ∈ names, p.has name = true) :
    p.finish = .ok push := by
  have full : ∀ {α : Type} {part : Option α} {a : α}, part.isSome = true → (∀ b ∈ part, b = a) →
      part = some a := by
    intro α part a there same
    obtain ⟨b, rfl⟩ := Option.isSome_iff_exists.1 there
    rw [same b rfl]
  simp only [finish, full (all "content_id" (by decide)) agrees.contentId,
    full (all "content" (by decide)) agrees.content,
    full (all "timestamp" (by decide)) agrees.timestamp,
    full (all "push_type" (by decide)) agrees.kind,
    full (all "from_user_id" (by decide)) agrees.sender,
    full (all "to_user_ids" (by decide)) agrees.recipients,
    full (all "expire_time" (by decide)) agrees.expiry]
  rfl

theorem has_of_finish (finished : p.finish = .ok push) {name : String} (known : name ∈ names) :
    p.has name = true := by
  simp only [finish, Except.bind_eq_ok, required_eq_ok] at finished
  obtain ⟨_, contentId, _, content, _, timestamp, _, kind, _, sender, _, recipients, _, expiry,
    _⟩ := finished
  simp only [names, List.mem_cons, List.not_mem_nil, or_false] at known
  rcases known with rfl | rfl | rfl | rfl | rfl | rfl | rfl <;> simp [has, *]

theorem has_eq_false {name : String} (other : name ∉ names) (p : Parts) : p.has name = false := by
  unfold has
  split <;> first | rfl | exact absurd (by decide) other

end Parts

namespace Scan

open Json.Scan

variable {p q : Parts} {b cs item rest after : List Char} {name other : String} {fuel : Nat}
  {first : Bool}

/-! ## One member -/

theorem bind_blank {α β : Type} {scan : Json.Scan α} {next : α → Json.Scan β}
    (same : scan (b ++ cs) = scan cs) : (scan >>= next) (b ++ cs) = (scan >>= next) cs := by
  change (scan (b ++ cs) >>= fun r => next r.1 r.2) = (scan cs >>= fun r => next r.1 r.2)
  rw [same]

theorem member_blank (blank : IsBlank b) (cs : List Char) :
    member (fuel + 1) p name (b ++ cs) = member (fuel + 1) p name cs := by
  unfold member
  split
  case h_8 => exact bind_blank (skipValue_blank blank fuel cs)
  all_goals exact bind_blank (peek_bind_blank blank cs)

theorem member_of_spelled {cs : List Char} (spelled : push.Says name cs) (value : IsValue cs)
    (enough : cs.length ≤ fuel + 1) (ends : Ends rest) (p : Parts) :
    ∃ q, member (fuel + 1) p name (cs ++ rest) = .ok (q, rest) ∧
      (p.Agrees push → q.Agrees push) := by
  unfold Says at spelled
  split at spelled
  · exact ⟨_, bind_of_ok (text_quoted spelled rest), fun agrees =>
      { agrees with contentId := by simp }⟩
  · exact ⟨_, bind_of_ok (text_quoted spelled rest), fun agrees =>
      { agrees with content := by simp }⟩
  · subst spelled
    exact ⟨_, bind_of_ok (timestamp_toString push.timestamp ends), fun agrees =>
      { agrees with timestamp := by simp }⟩
  · exact ⟨_, bind_of_ok (kind_quoted spelled rest), fun agrees =>
      { agrees with kind := by simp }⟩
  · exact ⟨_, bind_of_ok (text_quoted spelled rest), fun agrees =>
      { agrees with sender := by simp }⟩
  · exact ⟨_, bind_of_ok (recipients_enclosed spelled enough rest), fun agrees =>
      { agrees with recipients := by simp }⟩
  · exact ⟨_, bind_of_ok (text_quoted spelled rest), fun agrees =>
      { agrees with expiry := by simp }⟩
  · refine ⟨p, ?_, id⟩
    simp only [member]
    exact bind_of_ok (value.passed.skipValue_eq enough ends)

theorem member_eq_ok {cs : List Char} (value : IsValue cs) (enough : cs.length ≤ fuel + 1)
    (ends : Ends rest) (read : member (fuel + 1) p name (cs ++ rest) = .ok (q, after)) :
    after = rest ∧ ∀ other ∈ names, q.has other = (p.has other || name == other) := by
  have extent := extent_of_isValue value ends
  unfold member at read
  split at read
  case h_3 =>
    obtain ⟨_, _, one, made⟩ := bind_eq_ok read
    cases made
    exact ⟨(extent_of_timestamp one).unique extent, by simp [names, Parts.has]⟩
  case h_4 =>
    obtain ⟨_, _, one, made⟩ := bind_eq_ok read
    cases made
    exact ⟨(extent_of_kind one).unique extent, by simp [names, Parts.has]⟩
  case h_6 =>
    obtain ⟨_, _, one, made⟩ := bind_eq_ok read
    cases made
    exact ⟨(extent_of_recipients one).unique extent, by simp [names, Parts.has]⟩
  case h_8 =>
    obtain ⟨_, _, skipped, made⟩ := bind_eq_ok read
    cases made
    cases (value.passed.skipValue_eq enough ends).symm.trans skipped
    refine ⟨rfl, fun other known => ?_⟩
    have unknown : name ∉ names := by simp_all [names]
    have different : name ≠ other := fun same => unknown (same ▸ known)
    simp [different]
  -- The members that are texts.
  all_goals
    obtain ⟨_, _, one, made⟩ := bind_eq_ok read
    cases made
    exact ⟨(extent_of_text one).unique extent, by simp [names, Parts.has]⟩

/-! ## All members -/

theorem members_lead {lead : List Char} {m : String × List Char} (before : Lead first lead)
    (isMember : IsMember item m) (rest : List Char) :
    members first p (fuel + 2) (lead ++ (item ++ rest)) =
      if p.has m.1 then .error (.shape (.duplicateField m.1))
      else (member (fuel + 1) p m.1 >>= fun q => members false q (fuel + 1)) (m.2 ++ rest) := by
  obtain ⟨_, ⟨body, spelled, rfl⟩, paired⟩ := isMember
  cases paired with
  | @colon _ b b' _ blank blank' =>
      have text : '"' :: (body ++ ['"']) ++ (b ++ ':' :: (b' ++ m.2)) ++ rest =
          '"' :: (body ++ '"' :: (b ++ ':' :: (b' ++ (m.2 ++ rest)))) := by simp
      rw [text, members, bind_of_ok (moreMembers_lead before _), if_pos rfl]
      refine (bind_of_ok (skip_cons _ _)).trans ?_
      rw [bind_of_ok (stringRest_of_spells spelled _)]
      split
      · rfl
      · exact (bind_of_ok (punctuation_blank blank (by decide) _)).trans
          (bind_blank (member_blank blank' _))

theorem length_lt_of_isMember {m : String × List Char} (isMember : IsMember item m) :
    m.2.length + 1 < item.length := by
  obtain ⟨_, ⟨body, _, rfl⟩, paired⟩ := isMember
  cases paired with
  | colon =>
      simp only [List.length_append, List.length_cons]
      omega

theorem toNat_has_of_member (fresh : p.has name = false)
    (now : ∀ other ∈ names, q.has other = (p.has other || name == other)) (known : other ∈ names)
    (others : List String) :
    (q.has other).toNat + others.count other =
      (p.has other).toNat + (name :: others).count other := by
  rw [now other known, List.count_cons]
  by_cases same : name = other
  · subst same
    simp [fresh]
    omega
  · simp [beq_false_of_ne same]

theorem members_of_spelled (items : Items '\x7d' IsMember first cs ms)
    (values : ∀ m ∈ ms, IsValue m.2) (spelled : ∀ m ∈ ms, push.Says m.1 m.2)
    (agrees : p.Agrees push)
    (once : ∀ name ∈ names, (p.has name).toNat + (ms.map (·.1)).count name ≤ 1)
    (enough : cs.length ≤ fuel + 1) (rest : List Char) :
    ∃ q, members first p (fuel + 1) (cs ++ rest) = .ok (q, '\x7d' :: rest) ∧ q.Agrees push := by
  -- What has been read and what is still to come count together, and never more than one of a name.
  induction items generalizing p fuel with
  | done blank =>
      rw [List.append_assoc, members]
      exact ⟨p, bind_of_ok (moreMembers_done blank rest), agrees⟩
  | @next first lead item cs m ms before isMember items ih =>
      have short := length_lt_of_isMember isMember
      simp only [List.length_append] at enough
      obtain ⟨fuel, rfl⟩ := exists_fuel items (by omega : cs.length ≤ fuel)
      have value := values m List.mem_cons_self
      have enoughOne : m.2.length ≤ fuel + 1 := by omega
      have ends := ends_items items (by decide) rest
      have fresh : p.has m.1 = false := by
        by_cases known : m.1 ∈ names
        · have := once m.1 known
          simp only [List.map_cons, List.count_cons_self] at this
          exact Bool.toNat_eq_zero.1 (by omega)
        · exact Parts.has_eq_false known p
      obtain ⟨q, read, kept⟩ :=
        member_of_spelled (spelled m List.mem_cons_self) value enoughOne ends p
      rw [List.append_assoc, List.append_assoc, members_lead before isMember, fresh,
        if_neg Bool.false_ne_true, bind_of_ok read]
      have now := (member_eq_ok value enoughOne ends read).2
      refine ih (fun m later => values m (List.mem_cons_of_mem _ later))
        (fun m later => spelled m (List.mem_cons_of_mem _ later)) (kept agrees) ?_ (by omega)
      intro name known
      rw [toNat_has_of_member fresh now known]
      exact once name known

/-- Every member has been read, each of the seven for the first time. -/
theorem members_eq_ok (items : Items '\x7d' IsMember first cs ms)
    (values : ∀ m ∈ ms, IsValue m.2) (enough : cs.length ≤ fuel + 1)
    (read : members first p (fuel + 1) (cs ++ rest) = .ok (q, after)) :
    after = '\x7d' :: rest ∧ ∀ name ∈ names,
      (q.has name).toNat = (p.has name).toNat + (ms.map (·.1)).count name := by
  induction items generalizing p fuel with
  | done blank =>
      rw [List.append_assoc, members] at read
      obtain ⟨_, _, looked, behind⟩ := bind_eq_ok read
      cases (moreMembers_done blank rest).symm.trans looked
      cases behind
      exact ⟨rfl, fun name _ => rfl⟩
  | @next first lead item cs m ms before isMember items ih =>
      have short := length_lt_of_isMember isMember
      simp only [List.length_append] at enough
      obtain ⟨fuel, rfl⟩ := exists_fuel items (by omega : cs.length ≤ fuel)
      rw [List.append_assoc, List.append_assoc, members_lead before isMember] at read
      split at read
      · cases read
      · rename_i fresh
        obtain ⟨mid, left, one, others⟩ := bind_eq_ok read
        obtain ⟨rfl, now⟩ := member_eq_ok (values m List.mem_cons_self) (by omega)
          (ends_items items (by decide) rest) one
        obtain ⟨rfl, counted⟩ := ih (fun m later => values m (List.mem_cons_of_mem _ later))
          (by omega) others
        refine ⟨rfl, fun name known => ?_⟩
        rw [counted name known]
        exact toNat_has_of_member (Bool.eq_false_iff.2 fresh) now known _

end Scan

open Scan
open Json.Scan (bind_of_ok dropWhile_blank fuelFor isNumber_toString isSpace peek_bind_blank)

/-! ## The whole text -/

theorem whole_eq_ok {α : Type} {scan : Json.Scan α} {a : α} :
    Json.Scan.whole scan text = .ok a ↔
      ∃ rest, scan text.toList = .ok (a, rest) ∧ rest.dropWhile isSpace = [] := by
  unfold Json.Scan.whole
  rw [Except.bind_eq_ok]
  constructor
  · rintro ⟨⟨result, rest⟩, read, ends⟩
    dsimp only at ends
    split at ends
    · rename_i blank
      cases ends
      exact ⟨rest, read, blank⟩
    · cases ends
  · rintro ⟨rest, read, blank⟩
    refine ⟨(a, rest), read, ?_⟩
    dsimp only
    rw [blank]

theorem push_object {b inner : List Char} {fuel : Nat} (blank : IsBlank b) :
    Scan.push fuel (b ++ '\x7b' :: inner) = (members true .empty fuel >>= fun p =>
      lift p.finish >>= fun push => Json.Scan.skip >>= fun _ => pure push) inner := by
  rw [Scan.push, peek_bind_blank blank]
  rfl

theorem exists_members_of_isObject (isObject : IsObject text.toList ms) :
    ∃ b inner b' fuel, IsBlank b ∧ b'.dropWhile isSpace = [] ∧
      text.toList = b ++ '\x7b' :: (inner ++ b') ∧ Items '\x7d' IsMember true inner ms ∧
        fuelFor text = fuel + 1 ∧ inner.length ≤ fuel + 1 := by
  obtain ⟨⟨b, object, b', blank, blank', written, inner, items, rfl⟩, -⟩ := isObject
  have short := congrArg List.length written
  simp only [List.length_append, List.length_cons, String.length_toList] at short
  have done := dropWhile_blank blank' []
  rw [List.append_nil] at done
  exact ⟨b, inner, b', text.length, blank, done, written, items, rfl, by omega⟩

theorem has_empty (name : String) : Parts.empty.has name = false := by
  unfold Parts.has
  split <;> rfl

theorem parse_of_spelled (isObject : IsObject text.toList ms)
    (once : ∀ name ∈ names, (ms.map (·.1)).count name = 1) (spelled : ∀ m ∈ ms, push.Says m.1 m.2) :
    parse text = .ok push := by
  obtain ⟨b, inner, b', fuel, blank, done, written, items, total, enough⟩ :=
    exists_members_of_isObject isObject
  have atMostOnce : ∀ name ∈ names,
      (Parts.empty.has name).toNat + (ms.map (·.1)).count name ≤ 1 := by
    intro name known
    rw [has_empty, once name known]
    exact Nat.le_refl 1
  obtain ⟨p, read, agrees⟩ :=
    members_of_spelled items isObject.2 spelled (Parts.empty_agrees push) atMostOnce enough b'
  have all : ∀ name ∈ names, p.has name = true := by
    intro name known
    have counted := (members_eq_ok items isObject.2 enough read).2 name known
    rw [has_empty, once name known] at counted
    exact Bool.toNat_eq_one.1 counted
  rw [parse, whole_eq_ok, written, total, push_object blank]
  refine ⟨b', (bind_of_ok read).trans ?_, done⟩
  rw [Parts.finish_of_agrees agrees all]
  rfl

theorem once_of_parse (isObject : IsObject text.toList ms) (read : parse text = .ok push) :
    ∀ name ∈ names, (ms.map (·.1)).count name = 1 := by
  obtain ⟨b, inner, b', fuel, blank, -, written, items, total, enough⟩ :=
    exists_members_of_isObject isObject
  rw [parse, whole_eq_ok, written, total, push_object blank] at read
  obtain ⟨_, read, -⟩ := read
  obtain ⟨p, _, members, finish⟩ := bind_eq_ok read
  obtain ⟨_, _, lifted, _⟩ := bind_eq_ok finish
  intro name known
  have counted := (members_eq_ok items isObject.2 enough members).2 name known
  rw [Parts.has_of_finish (lift_eq_ok lifted).1 known, has_empty] at counted
  simpa using counted.symm

/-! ## The text that is written -/

theorem renderItems_texts (ts : List String) :
    Json.renderItems (ts.map .text) = ts.map Json.quote := by
  induction ts with
  | nil => rfl
  | cons t ts ih => rw [List.map_cons, Json.renderItems, ih, Json.render, List.map_cons]

def memberChars (m : String × List Char) : List Char := quoteChars m.1 ++ ':' :: m.2

theorem isMember_memberChars (m : String × List Char) : IsMember (memberChars m) m :=
  ⟨_, quotedText_quoteChars m.1, (Json.Paired.colon isBlank_nil isBlank_nil :)⟩

def written (p : Push) : List (String × List Char) :=
  [("content_id", quoteChars p.contentId), ("content", quoteChars p.content),
    ("timestamp", (toString p.timestamp.toInt).toList), ("push_type", quoteChars p.kind.text),
    ("from_user_id", quoteChars p.sender),
    ("to_user_ids", '[' :: ([','].intercalate (p.recipients.map quoteChars) ++ [']'])),
    ("expire_time", quoteChars p.expiry)]

theorem toList_body (p : Push) : p.body.toList = '\x7b' ::
    ([','].intercalate (p.written.map memberChars) ++ ['\x7d']) := by
  have items : (p.recipients.map Json.quote).map String.toList = p.recipients.map quoteChars := by
    rw [List.map_map]
    exact List.map_congr_left fun t _ => String.toList_ofList
  simp only [body, toJson, Json.render, Json.renderMembers, renderItems_texts]
  simp [items, Json.quote, written, memberChars, Json.Number.render]

theorem isValue_quoteChars (t : String) : IsValue (quoteChars t) :=
  .string (quotedText_quoteChars t).isString

theorem enclosed_texts (ts : List String) :
    Enclosed '[' ']' QuotedText ('[' :: ([','].intercalate (ts.map quoteChars) ++ [']'])) ts :=
  ⟨_, items_intercalate isBlank_nil lead_comma isBlank_nil
    fun t _ => quotedText_quoteChars t, rfl⟩

theorem isObject_body (p : Push) : IsObject p.body.toList p.written := by
  refine ⟨⟨[], _, [], isBlank_nil, isBlank_nil, ?_, _, items_intercalate
    isBlank_nil lead_comma isBlank_nil fun m _ => isMember_memberChars m, rfl⟩, ?_⟩
  · rw [toList_body, List.append_nil]
    rfl
  · have text := isValue_quoteChars
    have list := (enclosed_texts p.recipients).isValue fun _ _ quoted => .string quoted.isString
    have number := isNumber_toString p.timestamp.toInt
    simp only [written, List.forall_mem_cons]
    exact ⟨text _, text _, .number number, text _, text _, list, text _, nofun⟩

theorem parse_body (p : Push) : parse p.body = .ok p := by
  refine parse_of_spelled p.isObject_body (by simp [names, written]) ?_
  have text := quotedText_quoteChars
  simp [written, Says, text, enclosed_texts]

/-! ## The wire format -/

/-- Every object in which each of the seven members stands once, with the value of the push, is read
as the push. Objects in which one of them stands twice or not at all are refused. -/
theorem wire_round_trips : (∀ push : Push, parse push.body = .ok push) ∧
    ∀ (text : String) (members : List (String × List Char)), IsObject text.toList members →
      (∀ push : Push, (∀ name ∈ names, (members.map (·.1)).count name = 1) →
        (∀ m ∈ members, push.Says m.1 m.2) → parse text = .ok push) ∧
      ((∃ name ∈ names, (members.map (·.1)).count name ≠ 1) → ∃ e, parse text = .error e) := by
  refine ⟨parse_body, fun text members isObject => ⟨fun push once spelled =>
    parse_of_spelled isObject once spelled, ?_⟩⟩
  rintro ⟨name, known, notOnce⟩
  cases read : parse text with
  | error e => exact ⟨e, rfl⟩
  | ok push => exact absurd (once_of_parse isObject read name known) notOnce

def lines (members : List (String × List Char)) : String :=
  String.ofList ([' '] ++ ('\x7b' :: (['\n', '\t'] ++ ([' ', ',', '\n', '\t'].intercalate
    (members.map memberChars) ++ (['\r', '\n'] ++ ['\x7d'])))) ++ [' ', '\n'])

theorem isObject_lines {members : List (String × List Char)} (values : ∀ m ∈ members, IsValue m.2) :
    IsObject (lines members).toList members := by
  have comma : Lead false [' ', ',', '\n', '\t'] :=
    .comma (b := [' ']) (by decide) (by decide : IsBlank ['\n', '\t'])
  have items : Items '\x7d' IsMember true _ members := items_intercalate
    (by decide : IsBlank ['\n', '\t']) comma (by decide : IsBlank ['\r', '\n'])
    fun m _ => isMember_memberChars m
  refine ⟨⟨[' '], _, [' ', '\n'], by decide, by decide, ?_, _, items, rfl⟩, values⟩
  rw [lines, String.toList_ofList, List.append_assoc]

def shuffled : List (String × List Char) :=
  [("expire_time", quoteChars "9"),
    ("新", ['[', '"', '\\', 'u', 'd', '8', '0', '0', '"', ']']),
    ("to_user_ids",
      ['[', ' ', '"', '\\', 'u', 'd', '8', '3', 'd', '\\', 'u', 'D', 'E', '0', '0', '"', ' ', ']']),
    ("timestamp", ['-', '5']), ("push_type", ['"', '\\', 'u', '0', '0', '3', '2', '"']),
    ("content", quoteChars ""), ("content_id", quoteChars "a"), ("from_user_id", quoteChars "\"")]

def shuffledPush : Push :=
  { contentId := "a", content := "", timestamp := -5, kind := .second, sender := "\"",
    recipients := ["😀"], expiry := "9" }

theorem shuffled_spelled : ∀ m ∈ shuffled, IsValue m.2 ∧ shuffledPush.Says m.1 m.2 := by
  have high : SpellsUnit ['d', '8', '3', 'd'] 0xD83D :=
    .digits (i := 13) (j := 8) (k := 3) (l := 13) (by decide) (by decide) (by decide) (by decide)
  have low : SpellsUnit ['D', 'E', '0', '0'] 0xDE00 :=
    .digits (i := 13) (j := 14) (k := 0) (l := 0) (by decide) (by decide) (by decide) (by decide)
  have lone : SpellsUnit ['d', '8', '0', '0'] 0xD800 :=
    .digits (i := 13) (j := 8) (k := 0) (l := 0) (by decide) (by decide) (by decide) (by decide)
  have two : SpellsUnit ['0', '0', '3', '2'] 0x32 :=
    .digits (i := 0) (j := 0) (k := 3) (l := 2) (by decide) (by decide) (by decide) (by decide)
  have kind : QuotedText _ "2" := ⟨_, .cons (.unit two) .nil, rfl⟩
  have face : QuotedText _ "😀" := ⟨_, .cons
    (.pair high low (by decide) (by decide) (by decide) (by decide) (by decide)) .nil, rfl⟩
  have recipients : Enclosed '[' ']' QuotedText _ ["😀"] := ⟨_, .next (.first (b := [' '])
    (by decide)) face (.done (b := [' ']) (by decide)), rfl⟩
  have half : IsValue _ := .string ⟨_, .unit lone .nil, rfl⟩
  have unknown : IsValue ['[', '"', '\\', 'u', 'd', '8', '0', '0', '"', ']'] :=
    .array ⟨_, .next (.first isBlank_nil) rfl (.done isBlank_nil), rfl⟩
      (List.forall_mem_singleton.2 half)
  have number : Json.IsNumber ['-', '5'] :=
    ⟨['-'], ['5'], [], [], .inr rfl, .inr ⟨by decide, by decide⟩, .inl rfl, .inl rfl, rfl⟩
  have minusFive : ['-', '5'] = (toString shuffledPush.timestamp.toInt).toList := by decide +kernel
  have plain : ∀ t, IsValue (quoteChars t) ∧ QuotedText (quoteChars t) t :=
    fun t => ⟨isValue_quoteChars t, quotedText_quoteChars t⟩
  simp only [shuffled, List.forall_mem_cons]
  exact ⟨plain _, ⟨unknown, by simp [Says]⟩,
    ⟨recipients.isValue fun _ _ quoted => .string quoted.isString, recipients⟩,
    ⟨.number number, minusFive⟩, ⟨.string kind.isString, kind⟩, plain _, plain _, plain _,
    nofun⟩

theorem wire_round_trips_shuffled : parse (lines shuffled) = .ok shuffledPush ∧
    ∃ e, parse (lines shuffled.tail) = .error e := by
  have values : ∀ m ∈ shuffled, IsValue m.2 := fun m member => (shuffled_spelled m member).1
  constructor
  · exact (wire_round_trips.2 (lines shuffled) shuffled (isObject_lines values)).1 shuffledPush
      (by decide) fun m member => (shuffled_spelled m member).2
  · exact (wire_round_trips.2 (lines shuffled.tail) shuffled.tail
      (isObject_lines fun m member => values m (List.mem_of_mem_tail member))).2
      ⟨"expire_time", by decide, by decide⟩

end Volley.Push

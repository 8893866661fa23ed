import Volley.Proofs.Push.Protocol

namespace Volley.Protocol

inductive Demand
  | contentId
  | sender
  | content
  | recipients
  | expiry
  deriving Repr, DecidableEq

namespace Demand

def order : List Demand := [.contentId, .sender, .content, .recipients, .expiry]

def earlier (demand : Demand) : List Demand := order.takeWhile (· ≠ demand)

theorem mem_earlier_or (one another : Demand) :
    one = another ∨ one ∈ another.earlier ∨ another ∈ one.earlier := by
  cases one <;> cases another <;> decide

def field : Demand → String
  | .contentId => "content_id"
  | .sender => "from_user_id"
  | .content => "content"
  | .recipients => "to_user_ids"
  | .expiry => "expire_time"

end Demand

variable {d : Protocol} {p : Push} {v w : Violation}

def Violation.demand : Violation → Demand
  | .contentId _ => .contentId
  | .sender _ => .sender
  | .content _ => .content
  | .emptyContent => .content
  | .noRecipients => .recipients
  | .expiryText _ => .expiry
  | .expiry _ _ _ => .expiry

theorem prefix_append {front text : String} (rest : String)
    (starts : front.toList <+: text.toList) : front.toList <+: (text ++ rest).toList := by
  rw [String.toList_append]
  exact starts.trans (List.prefix_append _ _)

theorem Violation.field_prefix_message (v : Violation) :
    v.demand.field.toList <+: v.message.toList := by
  cases v with
  | contentId found =>
      have starts : "content_id".toList <+: "content_id '".toList := by decide
      exact prefix_append _ (prefix_append _ starts)
  | sender found =>
      have starts : "from_user_id".toList <+: "from_user_id '".toList := by decide
      exact prefix_append _ (prefix_append _ starts)
  | content cause =>
      cases cause with
      | base64 cause =>
          have starts : "content".toList <+: "content is not valid base64: ".toList := by decide
          exact prefix_append _ starts
      | utf8 cause =>
          have starts : "content".toList <+: "content is not valid UTF-8: ".toList := by decide
          exact prefix_append _ starts
  | emptyContent => decide
  | noRecipients => decide
  | expiryText found =>
      have starts : "expire_time".toList <+: "expire_time '".toList := by decide
      exact prefix_append _ (prefix_append _ starts)
  | expiry found timestamp ttl =>
      have starts : "expire_time".toList <+: "expire_time ".toList := by decide
      iterate 5 refine prefix_append _ ?_
      exact starts

def endOfLife (d : Protocol) (p : Push) : Int := min (p.timestamp.toInt + d.ttl.toInt) (2 ^ 63 - 1)

def Meets (d : Protocol) (p : Push) : Demand → Prop
  | .contentId => d.contentFormat.Forms p.contentId
  | .sender => d.senderFormat.Forms p.sender
  | .content => ∃ phrase, phrase ≠ "" ∧ p.content = Content.encode phrase
  | .recipients => p.recipients ≠ []
  | .expiry => Integer.Spells p.expiry.toList (d.endOfLife p)

inductive Breach (d : Protocol) (p : Push) : Violation → Prop
  | contentId : ¬ d.contentFormat.Forms p.contentId → Breach d p (.contentId p.contentId)
  | sender : ¬ d.senderFormat.Forms p.sender → Breach d p (.sender p.sender)
  | content {cause : Content.Error} : Content.decode p.content = .error cause →
      Breach d p (.content cause)
  | emptyContent : p.content = Content.encode "" → Breach d p .emptyContent
  | noRecipients : p.recipients = [] → Breach d p .noRecipients
  | expiryText : (∀ found : Int64, ¬ Integer.Spells p.expiry.toList found.toInt) →
      Breach d p (.expiryText p.expiry)
  | expiry {found : Int64} : Integer.Spells p.expiry.toList found.toInt →
      found.toInt ≠ d.endOfLife p → Breach d p (.expiry found p.timestamp d.ttl)

theorem toInt_endOfLife (positive : 0 < d.ttl) :
    (TimeWindow.startingAt p.timestamp d.ttl).expiry.toInt = d.endOfLife p :=
  toInt_saturatingAdd positive

theorem Breach.not_meets (positive : 0 < d.ttl) (breach : d.Breach p v) : ¬ d.Meets p v.demand := by
  cases breach with
  | contentId other => exact other
  | sender other => exact other
  | content failed =>
      rintro ⟨phrase, -, written⟩
      cases failed.symm.trans (Content.decode_eq_ok_iff.2 written)
  | emptyContent empty =>
      rintro ⟨phrase, some, written⟩
      exact some (Content.encode_injective (written.symm.trans empty))
  | noRecipients none => exact fun some => some none
  | expiryText noNumber =>
      intro met
      have spelled : Integer.Spells p.expiry.toList (d.endOfLife p) := met
      rw [← toInt_endOfLife positive] at spelled
      exact noNumber _ spelled
  | expiry spelled different =>
      intro met
      have expected : Integer.Spells p.expiry.toList (d.endOfLife p) := met
      rw [← toInt_endOfLife positive] at expected different
      rw [← Integer.signed64?_eq_some_iff] at expected spelled
      cases spelled.symm.trans expected
      exact different rfl

theorem Breach.unique (one : d.Breach p v) (another : d.Breach p w) (same : v.demand = w.demand) :
    v = w := by
  cases one with
  | content failed =>
      cases another with
      | content failed' =>
          cases failed.symm.trans failed'
          rfl
      | emptyContent empty => cases failed.symm.trans (Content.decode_eq_ok_iff.2 empty)
      | _ => cases same
  | emptyContent empty =>
      cases another with
      | content failed => cases failed.symm.trans (Content.decode_eq_ok_iff.2 empty)
      | emptyContent _ => rfl
      | _ => cases same
  | expiryText noNumber =>
      cases another with
      | expiryText _ => rfl
      | expiry spelled _ => exact absurd spelled (noNumber _)
      | _ => cases same
  | expiry spelled _ =>
      cases another with
      | expiryText noNumber => exact absurd spelled (noNumber _)
      | expiry spelled' _ =>
          rw [← Integer.signed64?_eq_some_iff] at spelled spelled'
          cases spelled.symm.trans spelled'
          rfl
      | _ => cases same
  | _ => cases another <;> first | rfl | cases same

/-- What is wrong with a push: a breach of a demand where all earlier demands are met. -/
def BreachesFirst (d : Protocol) (p : Push) (v : Violation) : Prop :=
  d.Breach p v ∧ ∀ demand ∈ v.demand.earlier, d.Meets p demand

theorem BreachesFirst.unique (positive : 0 < d.ttl) (one : d.BreachesFirst p v)
    (another : d.BreachesFirst p w) : v = w := by
  rcases v.demand.mem_earlier_or w.demand with same | before | after
  · exact one.1.unique another.1 same
  · exact absurd (another.2 _ before) (one.1.not_meets positive)
  · exact absurd (one.2 _ after) (another.1.not_meets positive)

theorem check_cases (positive : 0 < d.ttl) (p : Push) :
    (d.check p = .ok () ∧ ∀ demand, d.Meets p demand) ∨
      ∃ v, d.check p = .error v ∧ d.BreachesFirst p v := by
  unfold check
  split
  · rename_i other
    rw [Bool.not_eq_true', ← Bool.not_eq_true, IdFormat.accepts_iff] at other
    exact .inr ⟨_, rfl, .contentId other, nofun⟩
  rename_i formed
  rw [Bool.not_eq_true', Bool.not_eq_false, IdFormat.accepts_iff] at formed
  have contentId : d.Meets p .contentId := formed
  split
  · rename_i other
    rw [Bool.not_eq_true', ← Bool.not_eq_true, IdFormat.accepts_iff] at other
    exact .inr ⟨_, rfl, .sender other, List.forall_mem_singleton.2 contentId⟩
  rename_i formed
  rw [Bool.not_eq_true', Bool.not_eq_false, IdFormat.accepts_iff] at formed
  have sender : d.Meets p .sender := formed
  have before : ∀ demand ∈ Demand.content.earlier, d.Meets p demand :=
    List.forall_mem_cons.2 ⟨contentId, List.forall_mem_singleton.2 sender⟩
  split
  · rename_i cause failed
    exact .inr ⟨_, rfl, .content failed, before⟩
  rename_i phrase decoded
  rw [Content.decode_eq_ok_iff] at decoded
  split
  · rename_i empty
    exact .inr ⟨_, rfl, .emptyContent (empty ▸ decoded), before⟩
  rename_i nonempty
  have content : d.Meets p .content := ⟨phrase, nonempty, decoded⟩
  have before : ∀ demand ∈ Demand.recipients.earlier, d.Meets p demand :=
    List.forall_mem_cons.2 ⟨contentId, List.forall_mem_cons.2 ⟨sender,
      List.forall_mem_singleton.2 content⟩⟩
  split
  · rename_i none
    exact .inr ⟨_, rfl, .noRecipients none, before⟩
  rename_i some
  have recipients : d.Meets p .recipients := some
  have before : ∀ demand ∈ Demand.expiry.earlier, d.Meets p demand :=
    List.forall_mem_cons.2 ⟨contentId, List.forall_mem_cons.2 ⟨sender,
      List.forall_mem_cons.2 ⟨content, List.forall_mem_singleton.2 recipients⟩⟩⟩
  split
  · rename_i unread
    refine .inr ⟨_, rfl, .expiryText fun found spelled => ?_, before⟩
    cases unread.symm.trans (Integer.signed64?_eq_some_iff.2 spelled)
  rename_i found spelled
  rw [Push.expirySeconds?, Integer.signed64?_eq_some_iff] at spelled
  split
  · rename_i same
    have expiry : d.Meets p .expiry := by
      rwa [same, toInt_endOfLife positive] at spelled
    refine .inl ⟨rfl, fun demand => ?_⟩
    cases demand with
    | contentId => exact contentId
    | sender => exact sender
    | content => exact content
    | recipients => exact recipients
    | expiry => exact expiry
  · rename_i different
    refine .inr ⟨_, rfl, .expiry spelled fun same => different ?_, before⟩
    rwa [← toInt_endOfLife positive, Int64.toInt_inj] at same

/-- A push is accepted exactly if it meets all demands. For others the violation is of the first
demand that is not met. -/
theorem check_exactly {r : Recipe} (positive : 0 < r.ttl) (p : Push) :
    ((ofRecipe r).check p = .ok () ↔ ∀ demand, (ofRecipe r).Meets p demand) ∧
    ∀ v, (ofRecipe r).check p = .error v ↔ (ofRecipe r).BreachesFirst p v := by
  have positive : 0 < (ofRecipe r).ttl := positive
  rcases check_cases positive p with ⟨accepted, met⟩ | ⟨w, refused, first⟩
  · refine ⟨iff_of_true accepted met, fun v => iff_of_false ?_ fun first => ?_⟩
    · rw [accepted]
      exact nofun
    · exact first.1.not_meets positive (met _)
  · refine ⟨iff_of_false ?_ fun met => first.1.not_meets positive (met _), fun v => ?_⟩
    · rw [refused]
      exact nofun
    · rw [refused, Except.error.injEq]
      exact ⟨fun same => same ▸ first, fun first' => first.unique positive first'⟩

def lastPush : Push where
  contentId := "content042"
  content := "5L2g5aW9"
  timestamp := 9223372036854775797
  kind := .second
  sender := "uidAbCdEf1234"
  recipients := ["uidhSSWsdYgB9"]
  expiry := "+009223372036854775807"

theorem check_exactly_last :
    0 < Recipe.default.ttl ∧ (ofRecipe .default).check lastPush = .ok () ∧
      (ofRecipe .default).check { lastPush with sender := "uid", recipients := [] } =
        .error (.sender "uid") := by
  have positive : 0 < Recipe.default.ttl := by decide
  have contentId : (ofRecipe .default).Meets lastPush .contentId :=
    IdFormat.accepts_iff.1 (by decide +kernel)
  have meets : ∀ demand, (ofRecipe .default).Meets lastPush demand := by
    intro demand
    cases demand with
    | contentId => exact contentId
    | sender => exact IdFormat.accepts_iff.1 (by decide +kernel)
    | content => exact ⟨"你好", by decide, by decide⟩
    | recipients => exact List.cons_ne_nil _ _
    | expiry => exact .plus ⟨by decide, by decide, by decide⟩
  have breach : (ofRecipe .default).BreachesFirst
      { lastPush with sender := "uid", recipients := [] } (.sender "uid") := by
    have refused : ¬ (ofRecipe .default).senderFormat.accepts "uid" = true := by decide
    exact ⟨.sender (mt IdFormat.accepts_iff.2 refused), List.forall_mem_singleton.2 contentId⟩
  exact ⟨positive, (check_exactly positive lastPush).1.2 meets,
    ((check_exactly positive _).2 _).2 breach⟩

end Volley.Protocol

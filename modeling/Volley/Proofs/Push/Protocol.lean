import Volley.Proofs.Push.Body
import Volley.Proofs.Push.Content
import Volley.Proofs.Push.Recipe
import Volley.Push.Protocol

namespace Volley

variable {source rest : WordSource} {is : List Nat}

theorem toInt_saturatingAdd {now ttl : Int64} (positive : 0 < ttl) :
    (saturatingAdd now ttl).toInt = min (now.toInt + ttl.toInt) (2 ^ 63 - 1) := by
  have low := now.le_toInt
  have above : 0 < ttl.toInt := Int64.lt_iff_toInt_lt.1 positive
  rw [saturatingAdd, Int64.toInt_ofInt_of_le (by omega) (by omega)]
  omega

theorem lt_saturatingAdd {now ttl : Int64} (positive : 0 < ttl) :
    now < saturatingAdd now ttl ∨ now = Int64.maxValue := by
  have sum : (saturatingAdd now ttl).toInt = _ := toInt_saturatingAdd positive
  have above : 0 < ttl.toInt := Int64.lt_iff_toInt_lt.1 positive
  have high := now.toInt_lt
  rw [Int64.lt_iff_toInt_lt, ← Int64.toInt_inj, sum]
  have last : Int64.maxValue.toInt = 2 ^ 63 - 1 := by decide
  omega

namespace Recipe

variable {r : Recipe}

structure Sound (r : Recipe) : Prop where
  recipients : r.recipients ≠ []
  ttl : 0 < r.ttl

theorem sound_default : Sound .default :=
  ⟨by decide, by decide⟩

theorem sound_of_make {corpus : Corpus} {recipients : List String} {ttl : Int64}
    (made : make corpus recipients ttl = .ok r) : r.Sound := by
  obtain ⟨given, positive, rfl⟩ := make_eq_ok made
  exact ⟨given, positive⟩

/-- When the draws end and identifiers have room, a push is composed that is read back from its text
and meets the demands of the recipe. -/
theorem compose_conforms (base : Recipe)
    (accepted : base = .default ∨
      ∃ corpus recipients ttl, make corpus recipients ttl = .ok base)
    (senderFormat contentFormat : IdFormat)
    (senderFits : senderFormat.lead.utf8ByteSize + 4 * senderFormat.length < 2 ^ 63)
    (contentFits : contentFormat.lead.utf8ByteSize + 4 * contentFormat.length < 2 ^ 63)
    (now : Int64)
    (ends : Draw.belowAll { base with senderFormat, contentFormat }.draws source =
      some (is, rest)) :
    ∃ push phrase expiry,
      { base with senderFormat, contentFormat }.compose now source = some (.ok push, rest) ∧
      Push.parse push.body = .ok push ∧
      (Protocol.ofRecipe { base with senderFormat, contentFormat }).check push = .ok () ∧
      phrase ∈ base.corpus.phrases ∧ Content.decode push.content = .ok phrase ∧
      push.timestamp = now ∧ push.recipients = base.recipients ∧
      push.expirySeconds? = some expiry ∧
      expiry.toInt = min (now.toInt + base.ttl.toInt) (2 ^ 63 - 1) ∧
      (now < expiry ∨ now = Int64.maxValue) := by
  have sound : base.Sound := by
    rcases accepted with rfl | ⟨_, _, _, made⟩
    · exact sound_default
    · exact sound_of_make made
  have fits : Fits { base with senderFormat, contentFormat } := ⟨senderFits, contentFits⟩
  obtain ⟨phrase, contentId, sender, kind, member, isContent, isSender, composed⟩ :=
    compose_of_belowAll fits now ends
  have nonempty := base.corpus.phrase_nonempty phrase member
  refine ⟨_, phrase, saturatingAdd now base.ttl, composed, Push.parse_body _, ?_, member,
    Content.decode_encode phrase, rfl, rfl, Integer.signed64?_toString _,
    toInt_saturatingAdd sound.ttl, lt_saturatingAdd sound.ttl⟩
  simp only [Protocol.check, Protocol.ofRecipe, isContent, isSender, Content.decode_encode,
    nonempty, sound.recipients, Push.expirySeconds?, Integer.signed64?_toString,
    TimeWindow.startingAt]
  rfl

def briefRecipe : Recipe := ⟨.builtin, ["u1"], 60, .sender, .content⟩

def hanSender : IdFormat := ⟨"s-", ['漢', 'é'], 2, by decide⟩

theorem compose_conforms_han :
    ∃ push rest phrase, { briefRecipe with senderFormat := hanSender }.compose Int64.maxValue
        (.ofWords [0x8000000080000000]) = some (.ok push, rest) ∧
      push.sender = "s-éé" ∧ Push.parse push.body = .ok push ∧
      Content.decode push.content = .ok phrase ∧ phrase ∈ Corpus.builtin.phrases ∧
      push.expirySeconds? = some Int64.maxValue := by
  have made : make .builtin ["u1"] 60 = .ok briefRecipe := rfl
  have drawn : (Draw.belowAll { briefRecipe with senderFormat := hanSender }.draws
      (.ofWords [0x8000000080000000])).isSome = true := by
    decide +kernel
  have sent : ((compose ⟨briefRecipe.corpus, briefRecipe.recipients, briefRecipe.ttl, hanSender,
      .content⟩ Int64.maxValue (.ofWords [0x8000000080000000])).bind
        (·.1.toOption.map (·.sender))) = some "s-éé" := by
    decide +kernel
  obtain ⟨⟨is, rest⟩, ends⟩ := Option.isSome_iff_exists.1 drawn
  obtain ⟨push, phrase, expiry, composed, parsed, -, member, content, -, -, seconds, sum, -⟩ :=
    compose_conforms briefRecipe (.inr ⟨_, _, _, made⟩) hanSender .content (by decide)
      (by decide) Int64.maxValue ends
  have sender : push.sender = "s-éé" := by
    rw [composed] at sent
    exact Option.some.inj sent
  have last : expiry = Int64.maxValue := by
    rw [← Int64.toInt_inj, sum]
    decide +kernel
  exact ⟨push, rest, phrase, composed, sender, parsed, content, member, last ▸ seconds⟩

/-- The draws of a push end, and yet none is composed, for want of room for an identifier. -/
theorem compose_breaks_off_without_room :
    ∃ contentFormat is rest left, IdFormat.make "" "a" (2 ^ 61) = .ok contentFormat ∧
      Draw.belowAll { Recipe.default with contentFormat }.draws (.ofWords []) = some (is, rest) ∧
      { Recipe.default with contentFormat }.compose 0 (.ofWords []) =
        some (.error "capacity overflow", left) := by
  obtain ⟨is, ends⟩ :=
    Draw.belowAll_zeros { Recipe.default with contentFormat := .monotonous (2 ^ 61) }.draws
  obtain ⟨phrase, -, picked⟩ :=
    Draw.choose_of_below Corpus.builtin.phrases_nonempty (Draw.below_zeros .full _)
  refine ⟨_, is, _, .ofWords [], IdFormat.make_monotonous _, ends, ?_⟩
  exact Making.bind_eq_error.2 (.inr ⟨phrase, _, Making.lift_eq_ok.2 picked,
    Making.bind_eq_error.2 (.inl (IdFormat.generate_of_error IdFormat.reserve_monotonous _))⟩)

end Recipe

end Volley

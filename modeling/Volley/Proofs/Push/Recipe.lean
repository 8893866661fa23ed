import Volley.Proofs.Push.Identifier
import Volley.Push.Recipe

namespace Volley

structure Recipe.Fits (r : Recipe) : Prop where
  sender : r.senderFormat.Fits
  content : r.contentFormat.Fits

theorem Recipe.Fits.compose_ne_error {r : Recipe} (fits : r.Fits) {now : Int64}
    {source rest : WordSource} {message : String} :
    r.compose now source ≠ some (.error message, rest) := by
  intro failed
  simp only [compose, Making.bind_eq_error, Making.lift_ne_error, fits.content.generate_ne_error,
    fits.sender.generate_ne_error, false_or] at failed
  obtain ⟨_, _, -, _, _, -, _, _, -, _, _, -, failed⟩ := failed
  cases failed

theorem Recipe.fits_of_builtin {r : Recipe} (sender : r.senderFormat = .sender)
    (content : r.contentFormat = .content) : r.Fits :=
  ⟨sender ▸ by decide +kernel, content ▸ by decide +kernel⟩

theorem Recipe.fits_default : Recipe.default.Fits := fits_of_builtin rfl rfl

theorem Recipe.make_eq_ok {corpus : Corpus} {recipients : List String} {ttl : Int64} {r : Recipe}
    (made : make corpus recipients ttl = .ok r) :
    recipients ≠ [] ∧ 0 < ttl ∧ r = ⟨corpus, recipients, ttl, .sender, .content⟩ := by
  unfold make at made
  split at made
  · cases made
  · rename_i given
    split at made
    · cases made
    · split at made
      · cases made
      · rename_i positive
        cases made
        exact ⟨given, Int64.not_le.1 positive, rfl⟩

def Recipe.draws (r : Recipe) : List (WordWidth × Nat) :=
  [(.full, r.corpus.phrases.length)] ++ r.contentFormat.draws ++ r.senderFormat.draws ++
    [(.full, PushKind.all.length)]

theorem Recipe.compose_of_belowAll {r : Recipe} {source rest : WordSource} {is : List Nat}
    (fits : r.Fits) (now : Int64)
    (drawn : Draw.belowAll r.draws source = some (is, rest)) :
    ∃ phrase contentId sender kind, phrase ∈ r.corpus.phrases ∧
      r.contentFormat.accepts contentId = true ∧ r.senderFormat.accepts sender = true ∧
      r.compose now source = some (.ok {
        contentId
        content := Content.encode phrase
        timestamp := now
        kind
        sender
        recipients := r.recipients
        expiry := toString (saturatingAdd now r.ttl).toInt }, rest) := by
  simp only [draws, Draw.belowAll_append] at drawn
  obtain ⟨_, left, _, ⟨_, middle, _, ⟨_, start, _, first, second, -⟩, third, -⟩, fourth, -⟩ := drawn
  obtain ⟨_, _, _, first, ⟨⟩, -⟩ := Draw.belowAll_cons.1 first
  obtain ⟨_, _, _, fourth, ⟨⟩, -⟩ := Draw.belowAll_cons.1 fourth
  obtain ⟨phrase, member, picked⟩ := Draw.choose_of_below r.corpus.phrases_nonempty first
  obtain ⟨contentId, generated, isContent⟩ := IdFormat.generate_of_belowAll fits.content second
  obtain ⟨sender, generatedToo, isSender⟩ := IdFormat.generate_of_belowAll fits.sender third
  have kinds : PushKind.all ≠ [] := by decide
  obtain ⟨kind, -, chosen⟩ := Draw.choose_of_below kinds fourth
  refine ⟨phrase, contentId, sender, kind, member, isContent, isSender, ?_⟩
  exact Making.bind_eq_ok.2 ⟨phrase, start, Making.lift_eq_ok.2 picked,
    Making.bind_eq_ok.2 ⟨contentId, middle, generated,
      Making.bind_eq_ok.2 ⟨sender, left, generatedToo,
        Making.bind_eq_ok.2 ⟨kind, rest, Making.lift_eq_ok.2 chosen, rfl⟩⟩⟩⟩

theorem Recipe.Fits.compose_zeros {r : Recipe} (fits : r.Fits) (now : Int64) :
    ∃ push, r.compose now (.ofWords []) = some (.ok push, .ofWords []) := by
  obtain ⟨is, ends⟩ := Draw.belowAll_zeros r.draws
  obtain ⟨_, _, _, _, -, -, -, composed⟩ := compose_of_belowAll fits now ends
  exact ⟨_, composed⟩

theorem Corpus.pick_drawsEvenly (c : Corpus) (few : c.phrases.length < 2 ^ 64) :
    Draw.DrawsEvenly .full c.phrases c.pick :=
  Draw.choose_drawsEvenly c.phrases_nonempty few

theorem PushKind.pick_drawsEvenly : Draw.DrawsEvenly .full PushKind.all PushKind.pick :=
  Draw.choose_drawsEvenly (by decide) (by decide)

open Draw (TakesAll tuples leadingZeros) in
/-- Phrases, kinds and characters are drawn evenly, and so are identifiers: each choice of places in
the alphabet is given by as many tuples of words. -/
theorem Recipe.draws_evenly (c : Corpus) (f : IdFormat) (fewPhrases : c.phrases.length < 2 ^ 64)
    (fewSymbols : f.alphabet.length < 2 ^ 32) :
    Draw.DrawsEvenly .full c.phrases c.pick ∧
    Draw.DrawsEvenly .full PushKind.all PushKind.pick ∧
    Draw.DrawsEvenly .half f.alphabet (IdFormat.drawChar f.alphabet) ∧
    (∀ source id rest, f.generate source = some (.ok id, rest) ↔ f.Fits ∧
      ∃ (tuple places : Fin f.length → Nat) (chars : Fin f.length → Char),
        TakesAll .half f.alphabet.length source (List.ofFn tuple) rest ∧
          tuple ∈ tuples 32 f.alphabet.length places ∧
          (∀ k, f.alphabet[places k]? = some (chars k)) ∧
          id = f.lead ++ String.ofList (List.ofFn chars)) ∧
    ∀ places : Fin f.length → Nat, (∀ k, places k < f.alphabet.length) →
      (tuples 32 f.alphabet.length places).card =
        (2 ^ leadingZeros 32 f.alphabet.length) ^ f.length := by
  have positive := List.length_pos_iff.2 f.alphabet_nonempty
  have drawChar : Draw.DrawsEvenly .half f.alphabet (IdFormat.drawChar f.alphabet) := by
    rw [IdFormat.drawChar_eq fewSymbols]
    exact Draw.choose_drawsEvenly f.alphabet_nonempty fewSymbols
  refine ⟨c.pick_drawsEvenly fewPhrases, PushKind.pick_drawsEvenly, drawChar, ?_,
    fun places inside => Draw.card_tuples positive fewSymbols inside⟩
  intro source id rest
  rw [IdFormat.generate_eq_ok]
  refine and_congr_right fun _ => ?_
  simp only [IdFormat.drawChars_eq_some_iff fewSymbols]
  constructor
  · rintro ⟨_, ⟨tuple, places, chars, taken, given, found, rfl⟩, rfl⟩
    exact ⟨tuple, places, chars, taken, given, found, rfl⟩
  · rintro ⟨tuple, places, chars, taken, given, found, rfl⟩
    exact ⟨_, ⟨tuple, places, chars, taken, given, found, rfl⟩, rfl⟩

theorem Recipe.draws_evenly_builtin :
    Corpus.builtin.phrases.length < 2 ^ 64 ∧ IdFormat.content.alphabet.length < 2 ^ 32 ∧
      (∀ place < 15, (Draw.words 64 15 (some place)).card = 2 ^ 60) ∧
      (Draw.words 64 15 none).card = 2 ^ 60 ∧
      (Draw.words 32 10 none).card = 6 * 2 ^ 28 ∧
      (Draw.tuples 32 10 fun k : Fin 3 => 9 - 4 * k.val).card = (2 ^ 28) ^ 3 := by
  have fewPhrases : Corpus.builtin.phrases.length < 2 ^ 64 := by decide
  have fewSymbols : IdFormat.content.alphabet.length < 2 ^ 32 := by decide
  obtain ⟨⟨phrases, -⟩, -, ⟨symbols, -⟩, -, tuples⟩ :=
    draws_evenly .builtin .content fewPhrases fewSymbols
  refine ⟨fewPhrases, fewSymbols, fun place inside => phrases.card_words inside,
    phrases.card_rejected.trans ?_, symbols.card_rejected.trans ?_, tuples (9 - 4 * ·.val) ?_⟩
  all_goals decide +kernel

end Volley

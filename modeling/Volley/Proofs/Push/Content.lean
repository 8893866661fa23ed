import Volley.Proofs.Text.Sextets
import Volley.Push.Content

namespace Volley.Content

variable {content phrase : String}

theorem utf8_encode (phrase : String) :
    Utf8.encode (encode phrase) = Base64.encode (Utf8.encode phrase) :=
  Base64.utf8_text _

theorem decode_encode (phrase : String) : decode (encode phrase) = .ok phrase := by
  rw [decode, utf8_encode, Base64.decode_encode]
  dsimp only
  rw [Utf8.decode_encode]

theorem decode_eq_ok_iff : decode content = .ok phrase ↔ content = encode phrase := by
  constructor
  · intro decoded
    rw [decode] at decoded
    split at decoded
    · cases decoded
    · rename_i bytes symbols
      split at decoded
      · cases decoded
      · rename_i _ text
        cases decoded
        rw [Utf8.decode_eq_ok_iff] at text
        refine Utf8.encode_injective ?_
        rw [Base64.decode_eq_ok_iff.1 symbols, text, utf8_encode]
  · rintro rfl
    exact decode_encode phrase

theorem encode_injective : Function.Injective encode := by
  intro phrase other same
  have decoded := decode_eq_ok_iff.2 same
  rw [decode_encode] at decoded
  exact Except.ok.inj decoded

theorem decode_eq_base64_error_iff :
    (∃ cause, decode content = .error (.base64 cause)) ↔ Base64.Fault (Utf8.encode content) := by
  rw [← Base64.decode_eq_error_iff, decode]
  cases Base64.decode (Utf8.encode content) with
  | error cause => simp
  | ok bytes =>
      dsimp only
      cases Utf8.decode bytes <;> simp

theorem decode_eq_utf8_error_iff :
    (∃ cause, decode content = .error (.utf8 cause)) ↔
      ∃ bytes, Base64.Spells (Utf8.encode content) bytes ∧ Utf8.Malformed bytes := by
  simp only [Base64.spells_iff, ← Base64.decode_eq_ok_iff, ← Utf8.decode_eq_error_iff]
  rw [decode]
  cases Base64.decode (Utf8.encode content) with
  | error cause => simp
  | ok bytes =>
      dsimp only
      cases decoded : Utf8.decode bytes <;> simp [decoded]

/-- What is read is what was written; all else has a fault of its base64 or of the UTF-8 in it. -/
theorem decode_exact :
    (∀ content phrase, decode content = .ok phrase ↔ content = encode phrase) ∧
    Function.Injective encode ∧
    (∀ phrase, Base64.Spells (Utf8.encode (encode phrase)) (Utf8.encode phrase)) ∧
    (∀ content, (∃ cause, decode content = .error (.base64 cause)) ↔
      Base64.Fault (Utf8.encode content)) ∧
    ∀ content, (∃ cause, decode content = .error (.utf8 cause)) ↔
      ∃ bytes, Base64.Spells (Utf8.encode content) bytes ∧ Utf8.Malformed bytes := by
  refine ⟨fun _ _ => decode_eq_ok_iff, encode_injective, fun phrase => ?_,
    fun _ => decode_eq_base64_error_iff, fun _ => decode_eq_utf8_error_iff⟩
  rw [utf8_encode]
  exact Base64.spells_encode _

end Volley.Content

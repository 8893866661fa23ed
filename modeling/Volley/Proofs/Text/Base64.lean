import Volley.Proofs.Checked
import Volley.Proofs.Text.Utf8
import Volley.Text.Base64

namespace Volley.Base64

open Utf8 (ofNat_eq)

variable {b last : UInt8} {v offset pads : Nat} {values : List Nat}
  {symbols rest bytes group : List UInt8}

theorem value?_symbol : ∀ value < 64, value? (symbol value) = some value := by
  decide

theorem symbol_ne_pad : ∀ value < 64, symbol value ≠ pad := by
  decide

theorem valueAt_symbol {value : Nat} (offset : Nat) (fits : value < 64) :
    valueAt offset (symbol value) = .ok value := by
  rw [valueAt, value?_symbol value fits]

theorem symbol_lt (value : Nat) : (symbol value).toNat < 128 := by
  rw [symbol, UInt8.toNat_ofNat']
  repeat' split
  all_goals omega

theorem lt_of_mem_encode {bytes : List UInt8} {b : UInt8} (member : b ∈ encode bytes) :
    b.toNat < 128 := by
  have padLow : pad.toNat < 128 := by decide
  induction bytes using encode.induct with
  | case1 => simp [encode] at member
  | case2 a =>
      simp only [encode, List.mem_cons, List.not_mem_nil, or_false] at member
      rcases member with rfl | rfl | rfl | rfl <;> first | exact symbol_lt _ | exact padLow
  | case3 a b' =>
      simp only [encode, List.mem_cons, List.not_mem_nil, or_false] at member
      rcases member with rfl | rfl | rfl | rfl <;> first | exact symbol_lt _ | exact padLow
  | case4 a b' c rest ih =>
      simp only [encode, List.mem_cons] at member
      rcases member with rfl | rfl | rfl | rfl | later
      all_goals first | exact symbol_lt _ | exact ih later

theorem length_encode_mod (bytes : List UInt8) : (encode bytes).length % 4 = 0 := by
  induction bytes using encode.induct with
  | case1 => simp [encode]
  | case2 a => simp [encode]
  | case3 a b => simp [encode]
  | case4 a b c rest ih =>
      simp only [encode, List.length_cons]
      omega

theorem lastGroup_symbol {value : Nat} (offset : Nat) (values : List Nat) (last : UInt8)
    (rest : List UInt8) (fits : value < 64) :
    lastGroup offset values last 0 (symbol value :: rest) =
      lastGroup offset (values ++ [value]) (symbol value) 0 rest := by
  rw [lastGroup, if_neg (symbol_ne_pad value fits), if_neg (Nat.lt_irrefl 0),
    valueAt_symbol _ fits]

theorem lastGroup_pad (offset : Nat) {values : List Nat} (last : UInt8) (pads : Nat)
    (rest : List UInt8) (enough : 2 ≤ values.length) :
    lastGroup offset values last pads (pad :: rest) =
      lastGroup offset values last (pads + 1) rest := by
  rw [lastGroup, if_pos rfl, if_neg (by omega)]

theorem groups_encode (offset : Nat) (bytes : List UInt8) :
    groups offset (encode bytes) = .ok bytes := by
  induction bytes using encode.induct generalizing offset with
  | case1 => simp [encode, groups]
  | case2 a =>
      have := a.toNat_lt
      simp only [encode, groups]
      rw [lastGroup_symbol _ _ _ _ (by omega), lastGroup_symbol _ _ _ _ (by omega),
        lastGroup_pad _ _ _ _ (by simp), lastGroup_pad _ _ _ _ (by simp), lastGroup]
      simp only [closeGroup, List.nil_append, List.cons_append]
      rw [if_neg (by omega), if_neg (by omega), ofNat_eq (b := a) (by omega)]
  | case3 a b =>
      have := a.toNat_lt
      have := b.toNat_lt
      simp only [encode, groups]
      rw [lastGroup_symbol _ _ _ _ (by omega), lastGroup_symbol _ _ _ _ (by omega),
        lastGroup_symbol _ _ _ _ (by omega), lastGroup_pad _ _ _ _ (by simp), lastGroup]
      simp only [closeGroup, List.nil_append, List.cons_append]
      rw [if_neg (by omega), if_neg (by omega), ofNat_eq (b := a) (by omega),
        ofNat_eq (b := b) (by omega)]
  | case4 a b c rest ih =>
      have := a.toNat_lt
      have := b.toNat_lt
      have := c.toNat_lt
      simp only [encode]
      cases after : encode rest with
      | nil =>
          have ended := ih (offset + 4)
          rw [after] at ended
          simp only [groups] at ended ⊢
          cases ended
          rw [lastGroup_symbol _ _ _ _ (by omega), lastGroup_symbol _ _ _ _ (by omega),
            lastGroup_symbol _ _ _ _ (by omega), lastGroup_symbol _ _ _ _ (by omega), lastGroup]
          simp only [closeGroup, List.nil_append, List.cons_append]
          rw [ofNat_eq (b := a) (by omega), ofNat_eq (b := b) (by omega),
            ofNat_eq (b := c) (by omega)]
      | cons e more =>
          have later := ih (offset + 4)
          rw [after] at later
          rw [groups, valueAt_symbol _ (by omega), valueAt_symbol _ (by omega),
            valueAt_symbol _ (by omega), valueAt_symbol _ (by omega), later]
          simp only [bind, Except.bind, pure, Except.pure]
          rw [ofNat_eq (b := a) (by omega), ofNat_eq (b := b) (by omega),
            ofNat_eq (b := c) (by omega)]

theorem decode_encode (bytes : List UInt8) : decode (encode bytes) = .ok bytes := by
  have whole : stray? (encode bytes) = none := by
    unfold stray?
    split
    · rw [if_neg]
      have := length_encode_mod bytes
      omega
    · rfl
  rw [decode, whole]
  exact groups_encode 0 bytes

theorem symbol_of_value? (found : value? b = some v) : v < 64 ∧ symbol v = b := by
  simp only [value?, Bool.and_eq_true, decide_eq_true_eq, UInt8.le_iff_toNat_le, UInt8.toNat_ofNat]
    at found
  split at found
  · cases found
    refine ⟨by omega, ofNat_eq ?_⟩
    rw [if_pos (by omega)]
    omega
  · split at found
    · cases found
      refine ⟨by omega, ofNat_eq ?_⟩
      rw [if_neg (by omega), if_pos (by omega)]
      omega
    · split at found
      · cases found
        refine ⟨by omega, ofNat_eq ?_⟩
        rw [if_neg (by omega), if_neg (by omega), if_pos (by omega)]
        omega
      · split at found
        · rename_i plus
          cases found
          exact ⟨by decide, plus ▸ rfl⟩
        · split at found
          · rename_i slash
            cases found
            exact ⟨by decide, slash ▸ rfl⟩
          · cases found

theorem symbol_of_valueAt (found : valueAt offset b = .ok v) : v < 64 ∧ symbol v = b := by
  unfold valueAt at found
  split at found
  · rename_i value
    cases found
    exact symbol_of_value? value
  · cases found

theorem exists_of_lastGroup (read : lastGroup offset values last pads rest = .ok bytes) :
    ∃ more count last', rest = more.map symbol ++ List.replicate count pad ∧
      (∀ v ∈ more, v < 64) ∧ (0 < pads → more = []) ∧
      closeGroup offset last' (pads + count) (values ++ more) = .ok bytes := by
  -- `values` and `pads` gather what has been read of the group.
  induction rest generalizing values last pads with
  | nil =>
      rw [lastGroup] at read
      exact ⟨[], 0, last, rfl, nofun, fun _ => rfl, by simpa using read⟩
  | cons b rest ih =>
      rw [lastGroup] at read
      split at read
      · rename_i isPad
        split at read
        · cases read
        · obtain ⟨more, count, last', split, -, none, closed⟩ := ih read
          obtain rfl := none (Nat.succ_pos pads)
          refine ⟨[], count + 1, last', ?_, nofun, fun _ => rfl, ?_⟩
          · rw [split, isPad]
            rfl
          · rwa [Nat.add_comm count, ← Nat.add_assoc]
      · split at read
        · cases read
        · rename_i noPads
          split at read
          · rename_i v value
            obtain ⟨fits, written⟩ := symbol_of_valueAt value
            obtain ⟨more, count, last', split, small, -, closed⟩ := ih read
            refine ⟨v :: more, count, last', ?_, ?_, fun some => absurd some noPads, ?_⟩
            · rw [split, List.map_cons, written, List.cons_append]
            · simpa using ⟨fits, small⟩
            · simpa using closed
          · cases read

theorem toNat_ofNat {n : Nat} (fits : n < 256) : (UInt8.ofNat n).toNat = n :=
  UInt8.toNat_ofNat_of_lt' fits

theorem encode_regrouped {u v w x : Nat} (first : u < 64) (second : v < 64) (third : w < 64)
    (fourth : x < 64) (rest : List UInt8) :
    encode (UInt8.ofNat ((((u * 64 + v) * 64 + w) * 64 + x) / 65536) ::
        UInt8.ofNat ((((u * 64 + v) * 64 + w) * 64 + x) / 256 % 256) ::
        UInt8.ofNat ((((u * 64 + v) * 64 + w) * 64 + x) % 256) :: rest) =
      symbol u :: symbol v :: symbol w :: symbol x :: encode rest := by
  generalize number : ((u * 64 + v) * 64 + w) * 64 + x = n
  have whole : (n / 65536 * 256 + n / 256 % 256) * 256 + n % 256 = n := by omega
  have first : n / 262144 = u := by omega
  have second : n / 4096 % 64 = v := by omega
  have third : n / 64 % 64 = w := by omega
  have fourth : n % 64 = x := by omega
  rw [encode, toNat_ofNat (by omega), toNat_ofNat (by omega), toNat_ofNat (by omega)]
  simp only [whole, first, second, third, fourth]

theorem encode_of_closeGroup (closed : closeGroup offset last pads values = .ok bytes)
    (fits : ∀ v ∈ values, v < 64) (short : values.length + pads ≤ 4) :
    values.map symbol ++ List.replicate pads pad = encode bytes := by
  unfold closeGroup at closed
  split at closed
  · rename_i u v
    have := fits u (by simp)
    have := fits v (by simp)
    split at closed
    · cases closed
    · split at closed
      · cases closed
      · cases closed
        obtain rfl : pads = 2 := by omega
        have first : (u * 4 + v / 16) / 4 = u := by omega
        have second : (u * 4 + v / 16) % 4 * 16 = v := by omega
        simp only [encode]
        rw [toNat_ofNat (by omega), first, second]
        rfl
  · rename_i u v w
    have := fits u (by simp)
    have := fits v (by simp)
    have := fits w (by simp)
    split at closed
    · cases closed
    · split at closed
      · cases closed
      · cases closed
        obtain rfl : pads = 1 := by omega
        generalize number : (u * 64 + v) * 64 + w = n
        have whole : n / 1024 * 256 + n / 4 % 256 = n / 4 := by omega
        have first : n / 4 / 1024 = u := by omega
        have second : n / 4 / 16 % 64 = v := by omega
        have third : n / 4 % 16 * 4 = w := by omega
        simp only [encode]
        rw [toNat_ofNat (by omega), toNat_ofNat (by omega), whole, first, second, third]
        rfl
  · rename_i u v w x
    obtain rfl : pads = 0 := by
      simp only [List.length_cons, List.length_nil] at short
      omega
    cases closed
    rw [encode_regrouped (fits u (by simp)) (fits v (by simp)) (fits w (by simp))
      (fits x (by simp))]
    rfl
  · cases closed

theorem length_le_four
    (short : ∀ a b c d e rest, group = a :: b :: c :: d :: e :: rest → False) :
    group.length ≤ 4 := by
  rcases group with _ | ⟨a, _ | ⟨b, _ | ⟨c, _ | ⟨d, _ | ⟨e, rest⟩⟩⟩⟩⟩
  case cons.cons.cons.cons.cons => exact (short a b c d e rest rfl).elim
  all_goals simp

theorem encode_of_groups (read : groups offset symbols = .ok bytes) : symbols = encode bytes := by
  induction offset, symbols using groups.induct generalizing bytes with
  | case1 offset =>
      cases read
      rfl
  | case2 offset a b c d e rest ih =>
      simp only [groups, Except.bind_eq_ok] at read
      obtain ⟨u, first, v, second, w, third, x, fourth, after, later, made⟩ := read
      obtain ⟨u_lt, rfl⟩ := symbol_of_valueAt first
      obtain ⟨v_lt, rfl⟩ := symbol_of_valueAt second
      obtain ⟨w_lt, rfl⟩ := symbol_of_valueAt third
      obtain ⟨x_lt, rfl⟩ := symbol_of_valueAt fourth
      cases made
      rw [encode_regrouped u_lt v_lt w_lt x_lt, ih later]
  | case3 offset group some short =>
      rw [groups] at read
      · obtain ⟨values, count, last, rfl, fits, -, closed⟩ := exists_of_lastGroup read
        rw [Nat.zero_add, List.nil_append] at closed
        exact encode_of_closeGroup closed fits (by simpa using length_le_four short)
      · exact some
      · exact short

theorem decode_eq_ok_iff : decode symbols = .ok bytes ↔ symbols = encode bytes := by
  constructor
  · intro decoded
    rw [decode] at decoded
    split at decoded
    · cases decoded
    · exact encode_of_groups decoded
  · rintro rfl
    exact decode_encode bytes

theorem utf8EncodeChar_ofNat {b : UInt8} (ascii : b.toNat < 128) :
    String.utf8EncodeChar (Char.ofNat b.toNat) = [b] := by
  have value : (Char.ofNat b.toNat).val.toNat = b.toNat := by
    rw [Char.ofNat, dif_pos (.inl (by omega))]
    rfl
  unfold String.utf8EncodeChar
  dsimp only
  rw [value, if_pos (by omega), UInt8.ofNat_toNat]

theorem utf8_text (bytes : List UInt8) : Utf8.encode (text bytes) = encode bytes := by
  rw [Utf8.encode_eq, text, String.toList_ofList, List.flatMap_map]
  have each : ∀ b ∈ encode bytes, String.utf8EncodeChar (Char.ofNat b.toNat) = [b] :=
    fun b member => utf8EncodeChar_ofNat (lt_of_mem_encode member)
  rw [List.flatMap_def, List.map_congr_left each, ← List.flatMap_def, List.flatMap_singleton']

end Volley.Base64

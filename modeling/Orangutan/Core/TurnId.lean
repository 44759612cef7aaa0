import Orangutan.Core.Str

/-!
# Turn identities

A turn id is sixteen bytes. Its operator-visible spelling is thirty-two lowercase
hexadecimal characters, so a formatted id is never the empty string that marks an
absent run.
-/

namespace Orangutan.Core

set_option autoImplicit false

structure TurnId where
  bytes : Bytes
  size : bytes.length = 16
  deriving DecidableEq

def isZeroTurnId (id : TurnId) : Bool := id.bytes.all fun b => b == 0

def hexDigits : Bytes := text "0123456789abcdef"

/-- `DIGITS[value]` for a half byte. -/
def hexDigit (value : Nat) : UInt8 := hexDigits.getD value 0

def formatTurnIdHex (id : TurnId) : Bytes :=
  id.bytes.flatMap fun b => [hexDigit (b.toNat / 16), hexDigit (b.toNat % 16)]

/-- Bytes spelled by consecutive pairs of digits; `none` at any other character. -/
def parseHexPairs : Bytes → Option Bytes
  | [] => some []
  | [_] => none
  | high :: low :: rest =>
    match hexDigits.idxOf? high, hexDigits.idxOf? low, parseHexPairs rest with
    | some h, some l, some tail => some (UInt8.ofNat (h * 16 + l) :: tail)
    | _, _, _ => none

def parseTurnIdHex (t : Bytes) : Result TurnId :=
  match parseHexPairs t with
  | some bytes =>
    if h : bytes.length = 16 then .ok ⟨bytes, h⟩
    else .error (.invalidArgument "turn id must contain 32 lowercase hexadecimal characters")
  | none => .error (.invalidArgument "turn id must contain 32 lowercase hexadecimal characters")

theorem formatTurnIdHex_length (id : TurnId) : (formatTurnIdHex id).length = 32 := by
  have h : ∀ l : Bytes,
      (l.flatMap fun b => [hexDigit (b.toNat / 16), hexDigit (b.toNat % 16)]).length =
        2 * l.length := by
    intro l
    induction l with
    | nil => rfl
    | cons b l ih => rw [List.flatMap_cons, List.length_append, ih]; simp; omega
  rw [formatTurnIdHex, h, id.size]

theorem formatTurnIdHex_ne_nil (id : TurnId) : formatTurnIdHex id ≠ [] := by
  intro h
  have hl := formatTurnIdHex_length id
  rw [h] at hl
  cases hl

end Orangutan.Core

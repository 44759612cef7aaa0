import Orangutan.Core.Json

/-!
# JavaScript strings

A string is a list of UTF-16 code units, well formed or not. Lengths, slices and comparisons count
code units.
-/

namespace Orangutan.Desktop

set_option autoImplicit false

open Orangutan.Core

abbrev JsString := List UInt16

/-- A literal of the source. -/
def js (s : String) : JsString :=
  s.toList.flatMap fun c =>
    if c.toNat < 0x10000 then [UInt16.ofNat c.toNat]
    else [UInt16.ofNat (0xD800 + (c.toNat - 0x10000) / 0x400),
      UInt16.ofNat (0xDC00 + (c.toNat - 0x10000) % 0x400)]

namespace JsString

/-- White space and line terminators. -/
def isSpace (u : UInt16) : Bool :=
  0x9 ≤ u && u ≤ 0xD || u == 0x20 || u == 0xA0 || u == 0x1680 || 0x2000 ≤ u && u ≤
    0x200A || u == 0x2028 ||
    u == 0x2029 || u == 0x202F || u == 0x205F || u == 0x3000 || u == 0xFEFF

def trim (s : JsString) : JsString := ((s.dropWhile isSpace).reverse.dropWhile isSpace).reverse

/-- Outside ASCII the flag `i` makes no difference to the patterns of the source. -/
def foldCase (u : UInt16) : UInt16 := if 0x41 ≤ u && u ≤ 0x5A then u + 0x20 else u

/-- `/p|q|r/i.test(text)`. -/
def test (patterns : List JsString) (text : JsString) : Bool :=
  patterns.any fun p => (text.map foldCase).tails.any fun rest => (p.map foldCase).isPrefixOf rest

/-- An integer in a template. -/
def ofInt (n : Int) : JsString := (signedDecimal n).map UInt8.toUInt16

def hexDigit (n : Nat) : UInt16 := UInt16.ofNat (if n < 10 then 0x30 + n else 0x57 + n)

def escapeUnit (u : UInt16) : JsString :=
  [0x5C, 0x75, hexDigit (u.toNat / 0x1000), hexDigit (u.toNat / 0x100 % 16),
    hexDigit (u.toNat / 16 % 16), hexDigit (u.toNat % 16)]

def isHigh (u : UInt16) : Bool := 0xD800 ≤ u && u ≤ 0xDBFF

def isLow (u : UInt16) : Bool := 0xDC00 ≤ u && u ≤ 0xDFFF

/-- One character of a JSON string; a surrogate that comes here is a lone one. -/
def quoteUnit (u : UInt16) : JsString :=
  if isHigh u || isLow u then escapeUnit u
  else if u == 0x22 then [0x5C, 0x22]
  else if u == 0x5C then [0x5C, 0x5C]
  else if u == 0x8 then [0x5C, 0x62]
  else if u == 0x9 then [0x5C, 0x74]
  else if u == 0xA then [0x5C, 0x6E]
  else if u == 0xC then [0x5C, 0x66]
  else if u == 0xD then [0x5C, 0x72]
  else if u < 0x20 then escapeUnit u
  else [u]

def quote : JsString → JsString
  | [] => []
  | [u] => quoteUnit u
  | u :: v :: rest => if isHigh u && isLow v then u :: v :: quote rest
      else quoteUnit u ++ quote (v :: rest)

/-- `JSON.stringify` of two strings in an array. -/
def jsonPair (a b : JsString) : JsString := js "[\"" ++ quote a ++ js "\",\"" ++ quote b ++ js "\"]"

theorem ofInt_injective {m n : Int} (hm : 0 < m) (hn : 0 < n) (h : ofInt m = ofInt n) : m = n := by
  obtain ⟨a, rfl⟩ := Int.eq_ofNat_of_zero_le (le_of_lt hm)
  obtain ⟨b, rfl⟩ := Int.eq_ofNat_of_zero_le (le_of_lt hn)
  have hunits : Function.Injective UInt8.toUInt16 := fun x y hxy => by
    have hnat := congrArg UInt16.toNat hxy
    rw [UInt8.toNat_toUInt16, UInt8.toNat_toUInt16] at hnat
    exact UInt8.toNat_inj.mp hnat
  rw [decimal_injective (hunits.list_map h)]

end JsString

end Orangutan.Desktop

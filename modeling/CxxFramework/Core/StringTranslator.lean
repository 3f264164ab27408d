import CxxFramework.Core.StringFormatter
import CxxFramework.Library.Buffer

/-!
# URL encoding

`StringTranslator::DecodeURL` writes a URL with its escapes resolved and the segments `.`
and `..` stripped into a buffer. `StringTranslator::EncodeURL` writes a URL with its special
characters escaped. `none` stands for a write outside the buffer.
-/

namespace CxxFramework.Core.StringTranslator

open Buffer

def OS_BadURLFormat : Int := -100
def OS_NotEnoughSpace : Int := -101

def kPathDelimiterChar : UInt8 := 47

/-- The value of a hexadecimal digit, if `isxdigit` holds. -/
def hexDigit (c : UInt8) : Option UInt8 :=
  if 48 ≤ c ∧ c ≤ 57 then some (c - 48)
  else if 65 ≤ c ∧ c ≤ 70 then some (c - 55)
  else if 97 ≤ c ∧ c ≤ 102 then some (c - 87)
  else none

/-- The local variables of `DecodeURL`. -/
structure Decoder where
  /-- The memory of the destination. -/
  dest : Bytes
  /-- The position of `ioDest` in it, which is also `theLengthWritten`. -/
  theLengthWritten : Nat := 0
  numDotChars : Nat := 0
  inQuery : Bool := false
deriving DecidableEq, Repr

namespace Decoder

/-- The dots that follow a `/` without a gap, after the character `tempChar` is written. -/
def countDots (d : Decoder) (tempChar : UInt8) : Nat :=
  if tempChar = 46 then
    let before := d.dest.getD (d.theLengthWritten - 1) 0
    if d.numDotChars = 0 ∧ before = 47 then 1
    else if d.numDotChars > 0 ∧ before = 46 then d.numDotChars + 1
    else d.numDotChars
  else 0

/-- The second half of the loop: a `/` behind one or two dots takes the last segment back,
then the character is written. -/
def putChar (d : Decoder) (tempChar : UInt8) : Option Decoder :=
  if d.inQuery then
    (write d.dest d.theLengthWritten [tempChar]).map fun dest =>
      { d with dest, theLengthWritten := d.theLengthWritten + 1 }
  else
    let back :=
      if tempChar = 47 ∧ 0 < d.numDotChars ∧ d.numDotChars ≤ 2 then d.numDotChars + 1 else 0
    if d.theLengthWritten < back then none
    else
      let d := { d with theLengthWritten := d.theLengthWritten - back }
      (write d.dest d.theLengthWritten [tempChar]).map fun dest =>
        { d with
          dest
          numDotChars := d.countDots tempChar
          theLengthWritten := d.theLengthWritten + 1 }

end Decoder

/-- The loop of `DecodeURL` over the characters of the source. -/
def decodeURLLoop (inDestLen : Nat) : Bytes → Decoder → Option (Int × Bytes)
  | [], d =>
    -- A trailing `.` or `..` is stripped by the length only.
    let stripped := if d.numDotChars ≤ 2 then d.numDotChars else 0
    some ((d.theLengthWritten : Int) - stripped, d.dest)
  | c :: inSrc, d =>
    if d.theLengthWritten = inDestLen then some (OS_NotEnoughSpace, d.dest)
    else
      let d := { d with inQuery := d.inQuery || c == 63 }
      if c = 37 then
        match inSrc with
        | high :: low :: inSrc =>
          match hexDigit high, hexDigit low with
          | some high, some low =>
            (d.putChar (high * 16 + low)).bind (decodeURLLoop inDestLen inSrc ·)
          | _, _ => some (OS_BadURLFormat, d.dest)
        | _ => some (OS_BadURLFormat, d.dest)
      else if c = 0 then some (OS_BadURLFormat, d.dest)
      else (d.putChar c).bind (decodeURLLoop inDestLen inSrc ·)

/-- `DecodeURL`: the number of bytes written or an error, and the destination. -/
def decodeURL (inSrc : Bytes) (ioDest : Bytes) (inDestLen : Nat) : Option (Int × Bytes) :=
  if inSrc.head? = some kPathDelimiterChar then decodeURLLoop inDestLen inSrc { dest := ioDest }
  else some (OS_BadURLFormat, ioDest)

/-! ## Encoding -/

/-- The 7-bit characters that the switch of `EncodeURL` escapes. -/
def illegalChars : Bytes := ascii " \r\n\t<>#%\x7b\x7d|\\^~[]`;?@=&$\""

/-- A digit of `%X` -/
def upperHexDigit (d : UInt8) : UInt8 := if d < 10 then 48 + d else 55 + d

/-- `%X` of a byte, without leading zeros. -/
def upperHex (c : UInt8) : Bytes :=
  if c < 16 then [upperHexDigit c] else [upperHexDigit (c / 16), upperHexDigit (c % 16)]

/-- The loop of `EncodeURL` over the characters of the source. An escape counts as three
bytes, whatever `s_sprintf` writes in front of its terminator. -/
def encodeURLLoop (inDestLen : Nat) : Bytes → Bytes → Nat → Option (Int × Bytes)
  | [], ioDest, theLengthWritten => some (theLengthWritten, ioDest)
  | c :: inSrc, ioDest, theLengthWritten =>
    if theLengthWritten = inDestLen then some (OS_NotEnoughSpace, ioDest)
    else if 127 < c ∨ c ∈ illegalChars then
      if inDestLen - theLengthWritten < 3 then some (OS_NotEnoughSpace, ioDest)
      else (write ioDest theLengthWritten (37 :: upperHex c ++ [0])).bind fun ioDest =>
        encodeURLLoop inDestLen inSrc ioDest (theLengthWritten + 3)
    else (write ioDest theLengthWritten [c]).bind fun ioDest =>
      encodeURLLoop inDestLen inSrc ioDest (theLengthWritten + 1)

/-- `EncodeURL`: the number of bytes written or an error, and the destination. -/
def encodeURL (inSrc : Bytes) (ioDest : Bytes) (inDestLen : Nat) : Option (Int × Bytes) :=
  encodeURLLoop inDestLen inSrc ioDest 0

end CxxFramework.Core.StringTranslator

import BetaTrader.Common.FixUtils

/-!
# Framing

`fix::extractNextFrame`.  Positions are values of a 64-bit `size_t`, so the sums
that the source does not guard wrap around; `none` is the exception of a
`substr` that starts behind the end of the buffer.
-/

namespace BetaTrader

inductive FrameResult where
  | needMoreData
  | complete (consumed : ℕ) (frame : Message)
  | malformed (error : String)
  deriving DecidableEq

namespace FixMessageFramer

/-- `std::from_chars` on a text that has been found to hold digits only. -/
def parseUnsigned (value : Message) : Option ℕ :=
  if value ≠ [] ∧ value.all Char.isDigit ∧ Strtoul.value value < 2 ^ 64 then
    some (Strtoul.value value)
  else none

/-- The sum of the bytes modulo 256. -/
def checksum (message : Message) : ℕ := (message.map Char.toNat).sum % 256

/-- From the end of the BodyLength field on. -/
def extractBody (buffer : Message) (bodyStart bodyLength : ℕ) : Option FrameResult :=
  if 2 ^ 64 - 1 - bodyStart < bodyLength then
    some (.malformed "FIX BodyLength overflows the receive buffer")
  else
    let checksumStart := bodyStart + bodyLength
    if buffer.length < (checksumStart + 3) % 2 ^ 64 then some .needMoreData
    else if buffer.length < checksumStart then none
    else if (buffer.drop checksumStart).take 3 ≠ "10=".toList then
      some (.malformed "FIX checksum field is not at the BodyLength boundary")
    else if buffer.length < (checksumStart + 7) % 2 ^ 64 then some .needMoreData
    else
      match parseUnsigned ((buffer.drop (checksumStart + 3)).take 3) with
      | none => some (.malformed "FIX checksum field is malformed")
      | some expectedChecksum =>
          if (buffer.drop (checksumStart + 6)).head? ≠ some soh then
            some (.malformed "FIX checksum field is malformed")
          else if checksum (buffer.take checksumStart) ≠ expectedChecksum then
            some (.malformed "FIX checksum validation failed")
          else some (.complete (checksumStart + 7) (buffer.take (checksumStart + 7)))

def extractNextFrame (buffer : Message) : Option FrameResult :=
  if buffer.length < 2 then some .needMoreData
  else if buffer.take 2 ≠ "8=".toList then
    some (.malformed "FIX frame must start with BeginString (Tag 8)")
  else
    match Text.splitFirst soh buffer with
    | none => some .needMoreData
    | some (beginString, rest) =>
        if beginString ≠ "8=FIX.4.4".toList then some (.malformed "unsupported FIX BeginString")
        else if rest.length < 2 then some .needMoreData
        else if rest.take 2 ≠ "9=".toList then
          some (.malformed "FIX frame is missing BodyLength (Tag 9)")
        else
          match Text.splitFirst soh (rest.drop 2) with
          | none => some .needMoreData
          | some (digits, body) =>
              match parseUnsigned digits with
              | none => some (.malformed "FIX BodyLength is not an unsigned decimal value")
              | some bodyLength =>
                  extractBody buffer (buffer.length - body.length) bodyLength

end FixMessageFramer

end BetaTrader

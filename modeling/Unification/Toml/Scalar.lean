import Unification.Instant
import Unification.Toml.Quoted

namespace Unification.Toml

open Reader

def digits (p : Char → Bool) : Reader (List Char) := do
  let c ← satisfy p
  let cs ← many (orElse '_' (char '_') *> satisfy p)
  pure (c :: cs)

def sign : Reader Bool := orElse false ((char '-' *> pure true) <|> (char '+' *> pure false))

def decimalDigits : Reader (List Char) := do
  let c ← satisfy Char.isDigit
  if c == '0' then pure [c]
  else
    let cs ← many (orElse '_' (char '_') *> satisfy Char.isDigit)
    pure (c :: cs)

def inRange (n : Int) : Reader Int :=
  if -Int.pow 2 63 ≤ n ∧ n < Int.pow 2 63 then pure n else failure

def decimalInteger : Reader Int := do
  let negative ← sign
  let n := numeral 10 (← decimalDigits)
  inRange (if negative then -n else n)

def radixInteger (mark : String) (base : Nat) (p : Char → Bool) : Reader Int := do
  text mark
  let n := numeral base (← digits p)
  inRange n

def integer : Reader Int :=
  radixInteger "0x" 16 isHexDigit <|> radixInteger "0o" 8 (fun c => '0' ≤ c && c ≤ '7') <|>
    radixInteger "0b" 2 (fun c => c == '0' || c == '1') <|> decimalInteger

/-- The least number that rounds to infinity in double precision. -/
def infinityThreshold : Nat := 1 <<< 1024 - 1 <<< 970

/-- The decimal with these digits, times `10 ^ exponent`, rounds to infinity. The count of digits
decides except near the threshold, which has 309 digits. -/
def overflows (ds : List Char) (exponent : Int) : Bool :=
  let significant := ds.dropWhile (· == '0')
  let magnitude := significant.length + exponent
  let n := numeral 10 significant
  if significant.isEmpty || magnitude < 309 then false
  else if 309 < magnitude then true
  else if 0 ≤ exponent then infinityThreshold ≤ n * Nat.pow 10 exponent.toNat
  else infinityThreshold * Nat.pow 10 (-exponent).toNat ≤ n

def exponentPart : Reader Int := do
  let _ ← satisfy fun c => c == 'e' || c == 'E'
  let negative ← sign
  let n := numeral 10 (← digits Char.isDigit)
  pure (if negative then -n else n)

def decimalFloat : Reader Unit := do
  let negative ← sign
  let whole ← decimalDigits
  let (fraction, exponent) ←
    (do let e ← exponentPart; pure ([], e)) <|>
    (do
      let _ ← char '.'
      let fraction ← digits Char.isDigit
      let e ← orElse 0 exponentPart
      pure (fraction, e))
  if !negative && overflows (whole ++ fraction) (exponent - fraction.length) then failure

def specialFloat : Reader Unit := do
  let _ ← sign
  text "inf" <|> text "nan"

def float : Reader Unit := decimalFloat <|> specialFloat

def field (count low high : Nat) : Reader Nat := do
  let n := numeral 10 (← exactly count Char.isDigit)
  if low ≤ n ∧ n ≤ high then pure n else failure

def fullDate : Reader Unit := do
  let year ← field 4 0 9999
  let _ ← char '-'
  let month ← field 2 1 12
  let _ ← char '-'
  let _ ← field 2 1 (Calendar.daysInMonth year month)

def partialTime : Reader Unit := do
  let _ ← field 2 0 23
  let _ ← char ':'
  let _ ← field 2 0 59
  let _ ← char ':'
  let _ ← field 2 0 60
  orElse () (discard (char '.' *> span1 Char.isDigit))

def timeOffset : Reader Unit := discard (char 'Z' <|> char 'z') <|> do
  let _ ← char '+' <|> char '-'
  let _ ← field 2 0 23
  let _ ← char ':'
  let _ ← field 2 0 59

def timeOfDate : Reader Unit := do
  let _ ← char 'T' <|> char 't' <|> char ' '
  partialTime
  orElse () timeOffset

def dateTime : Reader Unit := (fullDate *> orElse () timeOfDate) <|> partialTime

end Unification.Toml

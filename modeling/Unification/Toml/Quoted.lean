import Unification.Toml.Reader

namespace Unification.Toml

open Reader

def digitValue (c : Char) : Nat :=
  if c.isDigit then c.toNat - '0'.toNat
  else if 'a' ≤ c ∧ c ≤ 'f' then c.toNat - 'a'.toNat + 10
  else c.toNat - 'A'.toNat + 10

def isHexDigit (c : Char) : Bool := c.isDigit || 'a' ≤ c && c ≤ 'f' || 'A' ≤ c && c ≤ 'F'

def numeral (base : Nat) (digits : List Char) : Nat :=
  digits.foldl (fun n c => n * base + digitValue c) 0

def exactly (count : Nat) (p : Char → Bool) : Reader (List Char) :=
  (List.replicate count ()).mapM fun _ => satisfy p

def codePoint (count : Nat) : Reader Char := do
  let n := numeral 16 (← exactly count isHexDigit)
  if n.isValidChar then pure (Char.ofNat n) else failure

def escapeLetters : List (Char × Char) :=
  [('b', '\x08'), ('f', '\x0c'), ('n', '\n'), ('r', '\r'), ('t', '\t'), ('\\', '\\'), ('"', '"')]

def escapeSequence : Reader Char := do
  let _ ← char '\\'
  let c ← satisfy fun _ => true
  if c == 'u' then codePoint 4
  else if c == 'U' then codePoint 8
  else
    match escapeLetters.lookup c with
    | some d => pure d
    | none => failure

def isPlain (c : Char) : Bool := isPrintable c && c != '"' && c != '\\'

def isLiteral (c : Char) : Bool := isPrintable c && c != '\x27'

def ofPieces (pieces : List (List Char)) : String := String.ofList pieces.flatten

def basicString : Reader String := do
  let _ ← char '"'
  let pieces ← many (span1 isPlain <|> List.singleton <$> escapeSequence)
  let _ ← char '"'
  pure (ofPieces pieces)

def literalString : Reader String := do
  let _ ← char '\x27'
  let cs ← span isLiteral
  let _ ← char '\x27'
  pure (String.ofList cs)

def continuation : Reader (List Char) := do
  let _ ← char '\\'
  blanks
  newline
  let _ ← many (discard (satisfy isBlank) <|> newline)
  pure []

def innerQuotes (quote : Char) : Reader (List Char) := do
  let qs ← span1 (· == quote)
  if qs.length ≤ 2 then pure qs else failure

def closingQuotes (quote : Char) : Reader (List Char) := do
  let qs ← span (· == quote)
  if 3 ≤ qs.length ∧ qs.length ≤ 5 then pure (qs.drop 3) else failure

def blockString (quote : Char) (piece : Reader (List Char)) : Reader String := do
  let _ ← text (String.ofList [quote, quote, quote])
  orElse () newline
  let pieces ← many (piece <|> (do newline; pure ['\n']) <|> innerQuotes quote)
  let last ← closingQuotes quote
  pure (ofPieces (pieces ++ [last]))

def basicBlock : Reader String :=
  blockString '"' (span1 isPlain <|> continuation <|> List.singleton <$> escapeSequence)

def literalBlock : Reader String := blockString '\x27' (span1 isLiteral)

def string : Reader String := basicBlock <|> basicString <|> literalBlock <|> literalString

def isBareKey (c : Char) : Bool := c.isAlphanum || c == '_' || c == '-'

def simpleKey : Reader String :=
  basicString <|> literalString <|> String.ofList <$> span1 isBareKey

def nestingLimit : Nat := 80

def key : Reader (List String × String) := do
  let ks ← sepBy1 (blanks *> simpleKey <* blanks) (char '.')
  match ks.getLast? with
  | some k => if ks.length < nestingLimit then pure (ks.dropLast, k) else failure
  | none => failure

end Unification.Toml

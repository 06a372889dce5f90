namespace Unification.Toml

abbrev Reader := StateT (List Char) Option

namespace Reader

variable {α β : Type}

def satisfy (p : Char → Bool) : Reader Char
  | [] => none
  | c :: cs => if p c then some (c, cs) else none

def char (c : Char) : Reader Char := satisfy (· == c)

def text (s : String) : Reader Unit := fun cs =>
  if s.toList.isPrefixOf cs then some ((), cs.drop s.length) else none

def span (p : Char → Bool) : Reader (List Char) := fun cs => some (cs.span p)

def span1 (p : Char → Bool) : Reader (List Char) := do
  let c ← satisfy p
  let cs ← span p
  pure (c :: cs)

def manyLoop (r : Reader α) : Nat → List α → List Char → List α × List Char
  | 0, xs, cs => (xs.reverse, cs)
  | n + 1, xs, cs =>
    match r cs with
    | some (x, cs') => manyLoop r n (x :: xs) cs'
    | none => (xs.reverse, cs)

def many (r : Reader α) : Reader (List α) := fun cs => some (manyLoop r cs.length [] cs)

def sepBy1 (r : Reader α) (separator : Reader β) : Reader (List α) := do
  let x ← r
  let xs ← many (separator *> r)
  pure (x :: xs)

def orElse (x : α) (r : Reader α) : Reader α := r <|> pure x

end Reader

open Reader

def isBlank (c : Char) : Bool := c == ' ' || c == '\t'

def isPrintable (c : Char) : Bool := c == '\t' || ' ' ≤ c && c != '\x7f'

def blanks : Reader Unit := do let _ ← span isBlank

def newline : Reader Unit := text "\n" <|> text "\r\n"

def comment : Reader Unit := do
  let _ ← char '#'
  let _ ← span isPrintable

def filler : Reader Unit := do
  let _ ← many (discard (span1 isBlank) <|> newline <|> comment *> newline)

end Unification.Toml

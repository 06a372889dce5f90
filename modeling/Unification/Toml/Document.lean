import Unification.Toml.Scalar
import Unification.Toml.Table

namespace Unification.Toml

open Reader

def pair (value : Reader Value) : Reader (List String × String × Value) := do
  let (path, k) ← key
  let _ ← char '='
  blanks
  let v ← value
  blanks
  pure (path, k, v)

def array (value : Reader Value) : Reader Value := do
  let _ ← char '['
  orElse () (do
    let _ ← sepBy1 (filler *> value <* filler) (char ',')
    orElse () (discard (char ',')))
  filler
  let _ ← char ']'
  pure (.other .array)

def inlineTable (value : Reader Value) : Reader Value := do
  let _ ← char '\x7b'
  let pairs ← orElse [] (sepBy1 (pair value) (char ','))
  blanks
  let _ ← char '\x7d'
  match pairs.foldlM (fun es (path, k, v) => Entries.assign es path k v) [] with
  | some _ => pure (.other .table)
  | none => failure

def scalar : Reader Value :=
  Value.string <$> string <|>
    (dateTime *> pure (.other .dateTime)) <|>
    (float *> pure (.other .float)) <|>
    (integer *> pure (.other .integer)) <|>
    ((text "true" <|> text "false") *> pure (.other .boolean))

def value : Nat → Reader Value
  | 0 => scalar
  | depth + 1 => array (value depth) <|> inlineTable (value depth) <|> scalar

inductive Statement where
  | assign (path : List String) (k : String) (v : Value)
  | table (path : List String) (k : String)
  | append (path : List String) (k : String)

def header : Reader Statement :=
  (do
    text "[["
    let (path, k) ← key
    text "]]"
    pure (.append path k)) <|>
  (do
    let _ ← char '['
    let (path, k) ← key
    let _ ← char ']'
    pure (.table path k))

def assignment : Reader Statement := do
  let (path, k, v) ← pair (value (nestingLimit - 1))
  pure (.assign path k v)

def line : Reader (Option Statement) := do
  blanks
  let statement ← orElse none (some <$> (header <|> assignment))
  blanks
  orElse () comment
  pure statement

structure Progress where
  root : Entries
  header : List String

def Progress.step (p : Progress) : Statement → Option Progress
  | .assign path k v => (p.root.assignWithin p.header path k v).map fun es => { p with root := es }
  | .table path k => (p.root.declare path k).map fun es => ⟨es, path ++ [k]⟩
  | .append path k => (p.root.append path k).map fun es => ⟨es, path ++ [k]⟩

def ofString (s : String) : Option Entries := do
  let cs := s.toList
  let (lines, rest) ← sepBy1 line newline (if cs.head? = some '\ufeff' then cs.tail else cs)
  if rest.isEmpty then
    let p ← (lines.filterMap id).foldlM Progress.step ⟨[], []⟩
    some p.root
  else none

end Unification.Toml

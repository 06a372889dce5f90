namespace Unification.Toml

inductive ValueKind where
  | integer
  | float
  | boolean
  | dateTime
  | array
  | table
deriving DecidableEq

/-- A value, of which only a string keeps its content: no setting is anything else. -/
inductive Value where
  | string (s : String)
  | other (kind : ValueKind)
deriving DecidableEq

inductive Origin where
  | declared
  | implied
  | dotted
deriving DecidableEq

inductive Item where
  | value (v : Value)
  | table (origin : Origin) (entries : List (String × Item))
  | tables (elements : List (List (String × Item)))

abbrev Entries := List (String × Item)

namespace Entries

def put (k : String) (x : Item) : Entries → Entries
  | [] => [(k, x)]
  | (l, y) :: es => if l = k then (k, x) :: es else (l, y) :: put k x es

/-- Edits the table at the end of a path, a table of origin `made` being put where there is none. Of an
array of tables the path goes into the last. A dotted path may not enter a declared table. -/
def editAt (made : Origin) (edit : Origin → Entries → Option Entries) :
    List String → Origin → Entries → Option Entries
  | [], origin, es => edit origin es
  | k :: ks, _, es =>
    match es.lookup k with
    | none => (editAt made edit ks made []).map fun sub => put k (.table made sub) es
    | some (.value _) => none
    | some (.table origin sub) =>
      if made = .dotted ∧ origin = .declared then none
      else (editAt made edit ks origin sub).map fun sub' => put k (.table origin sub') es
    | some (.tables []) => none
    | some (.tables (last :: earlier)) =>
      (editAt made edit ks .declared last).map fun last' => put k (.tables (last' :: earlier)) es

def assign (es : Entries) (path : List String) (k : String) (v : Value) : Option Entries :=
  editAt .dotted (fun origin sub =>
    if decide (origin = .dotted) = path.isEmpty ∨ (sub.lookup k).isSome then none
    else some (put k (.value v) sub)) path .declared es

def declare (es : Entries) (path : List String) (k : String) : Option Entries :=
  editAt .implied (fun _ sub =>
    match sub.lookup k with
    | none => some (put k (.table .declared []) sub)
    | some (.table .implied inner) => some (put k (.table .declared inner) sub)
    | some _ => none) path .declared es

def append (es : Entries) (path : List String) (k : String) : Option Entries :=
  editAt .implied (fun _ sub =>
    match sub.lookup k with
    | none => some (put k (.tables [[]]) sub)
    | some (.tables elements) => some (put k (.tables ([] :: elements)) sub)
    | some _ => none) path .declared es

def assignWithin (es : Entries) (header path : List String) (k : String) (v : Value) :
    Option Entries :=
  editAt .implied (fun _ sub => assign sub path k v) header .declared es

end Entries

end Unification.Toml

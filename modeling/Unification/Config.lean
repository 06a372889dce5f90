import Unification.Label
import Unification.Toml.Document

namespace Unification

/-- `catchAll` is the key of record entries that stand for all entries the pattern does not name.
Without it the key sets of two records must agree. -/
structure Config where
  catchAll : Option String := some "_"
deriving DecidableEq, Inhabited

namespace Config

def standard : Config := {}

def withCatchAll (c : Config) (key : String) : Config := { c with catchAll := some key }

def withoutCatchAll (c : Config) : Config := { c with catchAll := none }

def isStandard (c : Config) : Bool := c == standard

def ofEntries (es : Toml.Entries) : Except Fault Config :=
  match es.lookup "catch_all_key" with
  | none => .ok standard
  | some (.value (.string key)) => .ok ⟨some key⟩
  | some _ => .error (.invalidConfig "catch_all_key is not a string")

def ofToml (text : String) : Except Fault Config :=
  match Toml.ofString text with
  | some es => ofEntries es
  | none => .error (.invalidConfig "not a TOML document")

inductive Change where
  | reset
  | document (text : String)
  | catchAll (key : String)
  | noCatchAll

def change (c : Config) : Change → Except Fault Config
  | .reset => .ok standard
  | .document text => ofToml text
  | .catchAll key => .ok (c.withCatchAll key)
  | .noCatchAll => .ok c.withoutCatchAll

end Config

end Unification

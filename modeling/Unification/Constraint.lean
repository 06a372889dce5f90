import Unification.Term

namespace Unification

inductive TypeDescriptor where
  | nil
  | bool
  | long
  | float
  | string
  | date
  | sequence
  | record
  | callable
deriving DecidableEq

namespace TypeDescriptor

def of : Term → Option TypeDescriptor
  | .primitive .nil => some nil
  | .primitive (.bool _) => some bool
  | .primitive (.long _) => some long
  | .primitive (.float _) => some float
  | .primitive (.string _) => some string
  | .primitive (.date _) => some date
  | .sequence _ => some sequence
  | .record _ => some record
  | .callable _ => some callable
  | .var _ | .wildcard => none

def name : TypeDescriptor → String
  | nil => "Nil"
  | bool => "Bool"
  | long => "Long"
  | float => "Float"
  | string => "String"
  | date => "Date"
  | sequence => "Sequence"
  | record => "Record"
  | callable => "Callable"

def all : List TypeDescriptor := [nil, bool, long, float, string, date, sequence, record, callable]

def ofName? (s : String) : Option TypeDescriptor := all.find? (·.name == s)

theorem ofName?_name (d : TypeDescriptor) : ofName? d.name = some d := by
  cases d <;> rfl

end TypeDescriptor

inductive Constraint where
  | type (expected : TypeDescriptor)
  | predicate (accepts : Term → Bool)

namespace Constraint

def satisfiedBy : Constraint → Term → Bool
  | type expected, t => TypeDescriptor.of t == some expected
  | predicate accepts, t => accepts t

def text : Constraint → String
  | type expected => "Type(" ++ expected.name ++ ")"
  | predicate _ => "Predicate(..)"

end Constraint

abbrev Requirements := Variable → Option Constraint

def Requirements.accept (req : Requirements) (v : Variable) (t : Term) : Bool :=
  match req v with
  | some c => c.satisfiedBy t
  | none => true

end Unification

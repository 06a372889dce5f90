import Unification.Binary64
import Unification.Instant
import Unification.Keyed

namespace Unification

/-- A logic variable. Its number is its identity; names and constraints are kept in a registry. -/
structure Variable where
  id : Nat
deriving DecidableEq

structure Callable where
  id : Nat
deriving DecidableEq

inductive Primitive where
  | nil
  | bool (b : Bool)
  | long (n : Int64)
  | float (x : Binary64)
  | string (s : String)
  | date (d : Instant)
deriving DecidableEq

namespace Primitive

def equals : Primitive → Primitive → Bool
  | nil, nil => true
  | bool a, bool b => a == b
  | long a, long b => a == b
  | float a, float b => a.equals b
  | string a, string b => a == b
  | date a, date b => a == b
  | _, _ => false

def isNaN : Primitive → Bool
  | float x => x.isNaN
  | _ => false

theorem equals_self (p : Primitive) : p.equals p = !p.isNaN := by
  cases p <;> simp [equals, isNaN, Binary64.equals_self]

end Primitive

/-- The entries of a record are in strictly increasing order of their keys, see `Term.WellFormed`. -/
inductive Term where
  | primitive (p : Primitive)
  | sequence (items : List Term)
  | record (entries : List (String × Term))
  | callable (c : Callable)
  | var (v : Variable)
  | wildcard

namespace Term

instance : Inhabited Term := ⟨wildcard⟩

def recordOf (es : List (String × Term)) : Term := record (Keyed.ofList es)

inductive Kind where
  | wildcard
  | var
  | sequence
  | callable
  | record
  | primitive
deriving DecidableEq

def Kind.name : Kind → String
  | wildcard => "Wildcard"
  | var => "Variable"
  | sequence => "Sequence"
  | callable => "Callable"
  | record => "Record"
  | primitive => "Primitive"

def kind : Term → Kind
  | primitive _ => .primitive
  | sequence _ => .sequence
  | record _ => .record
  | callable _ => .callable
  | var _ => .var
  | wildcard => .wildcard

def isWildcard : Term → Bool
  | wildcard => true
  | _ => false

def asVariable : Term → Option Variable
  | var v => some v
  | _ => none

def isVariable (t : Term) : Bool := t.asVariable.isSome

mutual

def WellFormed : Term → Prop
  | sequence ts => WellFormedItems ts
  | record es => Keyed.Ordered es ∧ WellFormedEntries es
  | _ => True

def WellFormedItems : List Term → Prop
  | [] => True
  | t :: ts => WellFormed t ∧ WellFormedItems ts

def WellFormedEntries : List (String × Term) → Prop
  | [] => True
  | (_, t) :: es => WellFormed t ∧ WellFormedEntries es

end

mutual

def isGround : Term → Bool
  | var _ => false
  | sequence ts => areGround ts
  | record es => entriesAreGround es
  | _ => true

def areGround : List Term → Bool
  | [] => true
  | t :: ts => isGround t && areGround ts

def entriesAreGround : List (String × Term) → Bool
  | [] => true
  | (_, t) :: es => isGround t && entriesAreGround es

end

mutual

def equals : Term → Term → Bool
  | primitive p, primitive q => p.equals q
  | sequence xs, sequence ys => itemsEqual xs ys
  | record xs, record ys => entriesEqual xs ys
  | callable c, callable d => c == d
  | var v, var w => v == w
  | wildcard, wildcard => true
  | _, _ => false

def itemsEqual : List Term → List Term → Bool
  | [], [] => true
  | x :: xs, y :: ys => equals x y && itemsEqual xs ys
  | _, _ => false

def entriesEqual : List (String × Term) → List (String × Term) → Bool
  | [], [] => true
  | (k, x) :: xs, (l, y) :: ys => k == l && equals x y && entriesEqual xs ys
  | _, _ => false

end

mutual

def size : Term → Nat
  | sequence ts => sizeItems ts + 1
  | record es => sizeEntries es + 1
  | _ => 1

def sizeItems : List Term → Nat
  | [] => 0
  | t :: ts => size t + sizeItems ts

def sizeEntries : List (String × Term) → Nat
  | [] => 0
  | (_, t) :: es => size t + sizeEntries es

end

mutual

def substitute (f : Variable → Option Term) : Term → Option Term
  | var v => f v
  | sequence ts => (substituteItems f ts).map sequence
  | record es => (substituteEntries f es).map record
  | t => some t

def substituteItems (f : Variable → Option Term) : List Term → Option (List Term)
  | [] => some []
  | t :: ts =>
    match substitute f t, substituteItems f ts with
    | some u, some us => some (u :: us)
    | _, _ => none

def substituteEntries (f : Variable → Option Term) :
    List (String × Term) → Option (List (String × Term))
  | [] => some []
  | (k, t) :: es =>
    match substitute f t, substituteEntries f es with
    | some u, some us => some ((k, u) :: us)
    | _, _ => none

end

def nested (depth : Nat) (t : Term) : Term := depth.repeat (fun u => sequence [u]) t

end Term

end Unification

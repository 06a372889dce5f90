import Unification.Bindings
import Unification.Config
import Unification.Constraint

/-! Goals of a unification and the single step that decides a goal or reduces it to further goals. -/

namespace Unification

inductive Clash where
  | kinds (a b : Term)
  | primitives (p q : Primitive)
  | callables (c d : Callable)
  | lengths (m n : Nat)
  | keys (left right : List String)
  | idle (key : String)
  | unbound (v w : Variable)
  | rejected (v : Variable) (t : Term)

inductive Goal where
  | unify (a b : Term)
  | bind (v : Variable) (t : Term)
  | clash (why : Clash)

inductive Step where
  | reduce (goals : List Goal)
  | assign (v : Variable) (t : Term)
  | clash (why : Clash)

namespace Goal

def ofSequences (xs ys : List Term) : List Goal :=
  if xs.length = ys.length then List.zipWith unify xs ys else [clash (.lengths xs.length ys.length)]

def ofClosedRecords (left right : List (String × Term)) : List Goal :=
  let mismatch := clash (.keys (Keyed.keys left) (Keyed.keys right))
  if left.length = right.length then
    left.map fun (k, t) => ((right.lookup k).map (unify t)).getD mismatch
  else [mismatch]

def shared (left right : List (String × Term)) : List Goal :=
  left.filterMap fun (k, t) => (right.lookup k).map (unify t)

def extra (key : String) (left right : List (String × Term)) : List Term :=
  Keyed.values (left.filter fun (k, _) => !Keyed.contains right k && k != key)

def absorb (rest : Option Term) (extras : List Term) (mismatch : Goal) : List Goal :=
  match rest with
  | some t => extras.map (unify t)
  | none => if extras.isEmpty then [] else [mismatch]

/-- Values that unify under each shared key, and entries of one record alone that are absorbed by the
catch-all entry of the other. A catch-all entry whose key the other record lacks must absorb at least
one entry. -/
def ofOpenRecords (key : String) (left right : List (String × Term)) : List Goal :=
  let leftRest := left.lookup key
  let rightRest := right.lookup key
  let leftExtra := extra key left right
  let rightExtra := extra key right left
  let mismatch := clash (.keys (Keyed.keys left) (Keyed.keys right))
  shared left right ++
    if leftRest.isSome && rightRest.isNone && rightExtra.isEmpty then [clash (.idle key)]
    else if rightRest.isSome && leftRest.isNone && leftExtra.isEmpty then [clash (.idle key)]
    else absorb rightRest leftExtra mismatch ++ absorb leftRest rightExtra mismatch

def ofRecords (cfg : Config) (left right : List (String × Term)) : List Goal :=
  match cfg.catchAll with
  | some key =>
    if Keyed.contains left key || Keyed.contains right key then ofOpenRecords key left right
    else ofClosedRecords left right
  | none => ofClosedRecords left right

def settle (req : Requirements) (s : Bindings) (v : Variable) (t : Term) : Step :=
  match s.lookup v with
  | some u => .reduce [unify u t]
  | none => if req.accept v t then .assign v t else .clash (.rejected v t)

def stepBind (req : Requirements) (s : Bindings) (v : Variable) : Term → Step
  | .wildcard => .reduce []
  | .var w =>
    match s.lookup w with
    | some t => settle req s v t
    | none =>
      match s.lookup v with
      | some t => .reduce [bind w t]
      | none => .clash (.unbound v w)
  | t => settle req s v t

def stepUnify (cfg : Config) : Term → Term → Step
  | .wildcard, _ | _, .wildcard => .reduce []
  | .var v, t | t, .var v => .reduce [bind v t]
  | .sequence xs, .sequence ys => .reduce (ofSequences xs ys)
  | .record es, .record fs => .reduce (ofRecords cfg es fs)
  | .callable c, .callable d => if c = d then .reduce [] else .clash (.callables c d)
  | .primitive p, .primitive q => if p.equals q then .reduce [] else .clash (.primitives p q)
  | a, b => .clash (.kinds a b)

def step (req : Requirements) (cfg : Config) (s : Bindings) : Goal → Step
  | unify a b => stepUnify cfg a b
  | bind v t => stepBind req s v t
  | clash why => .clash why

end Goal

end Unification

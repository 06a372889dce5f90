import Unification.Solve

namespace Unification

inductive Outcome where
  | unified (s : Bindings)
  | mismatch (why : Clash)
  | endless

def Outcome.ofResult : Option Result → Outcome
  | some (.done tr) => .unified tr.bindings
  | some (.clash why _) => .mismatch why
  | none => .endless

def Outcome.succeeded : Outcome → Bool
  | unified _ => true
  | _ => false

variable (req : Requirements)

def unify (cfg : Config) (a b : Term) : Outcome := .ofResult (run req cfg .empty (.unify a b))

def unifies (a b : Term) : Bool := (unify req .standard a b).succeeded

/-- Binds `v` to `t` in `s`, or compares `t` with the value that `v` has. The environment that results
is returned after a clash too. -/
def bindVariable (cfg : Config) (s : Bindings) (v : Variable) (t : Term) :
    Option (Bool × Bindings) :=
  (run req cfg s (.bind v t)).map fun r => (r.succeeded, r.trail.bindings)

inductive Notice where
  | started (a b : Term)
  | progress (e : Event)
  | failed

inductive Severity where
  | trace
  | debug
deriving DecidableEq

def Severity.name : Severity → String
  | trace => "TRACE"
  | debug => "DEBUG"

namespace Notice

def severity : Notice → Severity
  | failed => .debug
  | _ => .trace

def message : Notice → Option String
  | progress (.rejected _ _) => some "type constraint rejected candidate"
  | failed => some "terms do not unify"
  | _ => none

def subject : Notice → Option Variable
  | progress (.bound v _) | progress (.rejected v _) => some v
  | _ => none

end Notice

def notices (cfg : Config) (a b : Term) : Option (List Notice) :=
  (run req cfg .empty (.unify a b)).map fun r =>
    .started a b :: r.trail.log.map .progress ++ if r.succeeded then [] else [.failed]

end Unification

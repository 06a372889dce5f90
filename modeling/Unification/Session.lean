import Unification.Config
import Unification.Document
import Unification.Registry
import Unification.Unify

namespace Unification

structure Session where
  registry : Registry := .empty
  variableHandles : List (String × Variable) := []
  callableHandles : List (String × Callable) := []
  bindings : Bindings := .empty
  config : Config := .standard
  saved : List (String × Bindings) := []

namespace Session

def declare (s : Session) (handle name : String) (constraint : Option Constraint) :
    Except Fault (Variable × Session) := do
  let (v, registry) ← s.registry.declare name constraint
  pure (v, { s with registry := registry, variableHandles := (handle, v) :: s.variableHandles })

def define (s : Session) (handle : String) (name : Option String) (body : List Term → Term) :
    Callable × Session :=
  let (c, registry) := s.registry.define name body
  (c, { s with registry := registry, callableHandles := (handle, c) :: s.callableHandles })

def findVariable (s : Session) (handle : String) : Option Variable := s.variableHandles.lookup handle

def findCallable (s : Session) (handle : String) : Option Callable := s.callableHandles.lookup handle

def share (s : Session) (handle : String) (v : Variable) : Session :=
  { s with variableHandles := (handle, v) :: s.variableHandles }

def shareCallable (s : Session) (handle : String) (c : Callable) : Session :=
  { s with callableHandles := (handle, c) :: s.callableHandles }

def handleOf (s : Session) (v : Variable) : String :=
  ((s.variableHandles.reverse.find? (·.2 = v)).map (·.1)).getD ""

def callableHandleOf (s : Session) (c : Callable) : String :=
  ((s.callableHandles.reverse.find? (·.2 = c)).map (·.1)).getD ""

def naming (s : Session) : Variable → String := s.registry.nameOf

def requirements (s : Session) : Requirements := s.registry.constraintOf

def call (s : Session) (c : Callable) (args : List Term) : Term := s.registry.call c args

def reconfigure (s : Session) (change : Config.Change) : Except Fault Session := do
  let config ← s.config.change change
  pure { s with config := config }

def bind (s : Session) (v : Variable) (t : Term) : Option (Bool × Session) :=
  (bindVariable s.requirements s.config s.bindings v t).map fun (ok, bindings) =>
    (ok, { s with bindings := bindings })

def insert (s : Session) (v : Variable) (t : Term) : Session :=
  { s with bindings := s.bindings.insert v t }

def unify (s : Session) (a b : Term) : Option (Bool × Session) :=
  match Unification.unify s.requirements s.config a b with
  | .unified bindings => some (true, { s with bindings := bindings })
  | .mismatch _ => some (false, s)
  | .endless => none

def unifies (s : Session) (a b : Term) : Bool := Unification.unifies s.requirements a b

def apply (s : Session) (t : Term) : Option Term := s.bindings.apply t

def reset (s : Session) : Session := { s with bindings := .empty }

def save (s : Session) (slot : String) : Session :=
  { s with saved := (slot, s.bindings) :: s.saved }

def load (s : Session) (slot : String) : Option Session :=
  (s.saved.lookup slot).map fun bindings => { s with bindings := bindings }

def equalsSaved (s : Session) (slot : String) : Option Bool :=
  (s.saved.lookup slot).map fun bindings => bindings.equals s.bindings

end Session

end Unification

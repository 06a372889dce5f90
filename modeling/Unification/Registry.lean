import Unification.Constraint
import Unification.Label

namespace Unification

structure Declaration where
  name : String
  constraint : Option Constraint

structure Routine where
  name : Option String
  body : List Term → Term

structure Registry where
  declarations : Array Declaration := #[]
  routines : Array Routine := #[]

namespace Registry

def empty : Registry := {}

def freshVariable (r : Registry) (d : Declaration) : Variable × Registry :=
  (⟨r.declarations.size⟩, { r with declarations := r.declarations.push d })

def freshCallable (r : Registry) (x : Routine) : Callable × Registry :=
  (⟨r.routines.size⟩, { r with routines := r.routines.push x })

def declare (r : Registry) (name : String) (constraint : Option Constraint) :
    Except Fault (Variable × Registry) :=
  match Label.check name with
  | .ok () => .ok (r.freshVariable ⟨name, constraint⟩)
  | .error f => .error (.ofLabel f)

def setName (r : Registry) (c : Callable) (name : String) : Registry :=
  { r with routines := r.routines.modify c.id ({ · with name := some name }) }

def defineUnnamed (r : Registry) (body : List Term → Term) : Callable × Registry :=
  r.freshCallable ⟨none, body⟩

def defineNamed (r : Registry) (name : String) (body : List Term → Term) : Callable × Registry :=
  let (c, r) := r.defineUnnamed body
  (c, r.setName c name)

def define (r : Registry) (name : Option String) (body : List Term → Term) : Callable × Registry :=
  match name with
  | none => r.defineUnnamed body
  | some name => r.defineNamed name body

theorem define_eq (r : Registry) (name : Option String) (body : List Term → Term) :
    r.define name body = r.freshCallable ⟨name, body⟩ := by
  cases name with
  | none => rfl
  | some name =>
    have hmodify : (r.routines.push ⟨none, body⟩).modify r.routines.size ({ · with name := some name }) =
        r.routines.push ⟨some name, body⟩ := by
      apply Array.ext
      · simp
      · intro i h₁ h₂
        grind
    simp [define, defineNamed, defineUnnamed, freshCallable, setName, hmodify]

def nameOf (r : Registry) (v : Variable) : String := (r.declarations[v.id]?.map (·.name)).getD ""

def constraintOf (r : Registry) : Requirements := fun v => r.declarations[v.id]?.bind (·.constraint)

def routineName (r : Registry) (c : Callable) : Option String := r.routines[c.id]?.bind (·.name)

def call (r : Registry) (c : Callable) (args : List Term) : Term :=
  match r.routines[c.id]? with
  | some routine => routine.body args
  | none => .wildcard

def describe (r : Registry) (v : Variable) : String :=
  "$" ++ r.nameOf v ++ "#" ++ toString v.id ++
    match r.constraintOf v with
    | some c => ": " ++ c.text
    | none => ""

def describeCallable (r : Registry) (c : Callable) : String :=
  "Callable(" ++ (r.routineName c).getD "" ++ "#" ++ toString c.id ++ ")"

end Registry

namespace Variable

def distinct (vs : List Variable) : List Variable := vs.eraseDups

def sortBy {α : Type} (variableOf : α → Variable) (xs : List α) : List α :=
  xs.mergeSort fun x y => (variableOf x).id ≤ (variableOf y).id

end Variable

end Unification

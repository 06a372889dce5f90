import Unification.Term

namespace Unification

inductive Bindings where
  | empty
  | single (v : Variable) (t : Term)
  | several (es : List (Variable × Term))

namespace Bindings

instance : Inhabited Bindings := ⟨empty⟩

def entries : Bindings → List (Variable × Term)
  | empty => []
  | single v t => [(v, t)]
  | several es => es

inductive Shape where
  | empty
  | single
  | several
deriving DecidableEq

def Shape.name : Shape → String
  | empty => "Empty"
  | single => "Single"
  | several => "Small"

def shape : Bindings → Shape
  | empty => .empty
  | single _ _ => .single
  | several _ => .several

def isEmpty : Bindings → Bool
  | empty => true
  | _ => false

def lookup (s : Bindings) (v : Variable) : Option Term := s.entries.lookup v

def put (v : Variable) (t : Term) : List (Variable × Term) → List (Variable × Term)
  | [] => [(v, t)]
  | (w, u) :: es => if w = v then (w, t) :: es else (w, u) :: put v t es

def insert (s : Bindings) (v : Variable) (t : Term) : Bindings :=
  match s with
  | empty => single v t
  | single w u => if w = v then single w t else several [(w, u), (v, t)]
  | several es => several (put v t es)

theorem entries_insert (s : Bindings) (v : Variable) (t : Term) :
    (s.insert v t).entries = put v t s.entries := by
  cases s with
  | empty => rfl
  | single w u => by_cases h : w = v <;> simp [insert, entries, put, h]
  | several es => rfl

theorem lookup_put (es : List (Variable × Term)) (v w : Variable) (t : Term) :
    (put v t es).lookup w = if w = v then some t else es.lookup w := by
  induction es with
  | nil => exact Keyed.lookup_cons_eq_ite v w t []
  | cons e es ih =>
    obtain ⟨x, u⟩ := e
    simp only [put]
    split
    · next hx =>
      subst hx
      simp only [Keyed.lookup_cons_eq_ite]
      split <;> rfl
    · next hx =>
      simp only [Keyed.lookup_cons_eq_ite, ih]
      by_cases hw : w = x
      · simp [hw, hx]
      · simp [hw]

theorem lookup_insert (s : Bindings) (v w : Variable) (t : Term) :
    (s.insert v t).lookup w = if w = v then some t else s.lookup w := by
  simp only [lookup, entries_insert, lookup_put]

theorem put_of_lookup_eq_none {es : List (Variable × Term)} {v : Variable} (t : Term)
    (h : es.lookup v = none) : put v t es = es ++ [(v, t)] := by
  induction es with
  | nil => rfl
  | cons e es ih =>
    obtain ⟨w, u⟩ := e
    rw [Keyed.lookup_cons_eq_ite] at h
    split at h
    · cases h
    · next hne => rw [put, if_neg (Ne.symm hne), ih h, List.cons_append]

theorem entries_insert_of_lookup_eq_none {s : Bindings} {v : Variable} (t : Term)
    (h : s.lookup v = none) : (s.insert v t).entries = s.entries ++ [(v, t)] := by
  rw [entries_insert, put_of_lookup_eq_none t h]

theorem mem_entries_of_lookup {s : Bindings} {v : Variable} {t : Term} (h : s.lookup v = some t) :
    (v, t) ∈ s.entries := by
  obtain ⟨l₁, l₂, heq, _⟩ := List.lookup_eq_some_iff.1 h
  rw [heq]
  exact List.mem_append_right l₁ List.mem_cons_self

def entriesEqual : List (Variable × Term) → List (Variable × Term) → Bool
  | [], [] => true
  | (v, t) :: es, (w, u) :: fs => v == w && t.equals u && entriesEqual es fs
  | _, _ => false

def equals : Bindings → Bindings → Bool
  | empty, empty => true
  | single v t, single w u => v == w && t.equals u
  | several es, several fs => entriesEqual es fs
  | _, _ => false

section Names

variable (naming : Variable → String)

def get? (s : Bindings) (name : String) : Option Term :=
  (s.entries.reverse.find? fun e => naming e.1 == name).map (·.2)

def contains (s : Bindings) (name : String) : Bool := (s.get? naming name).isSome

def visible : List (Variable × Term) → List (String × Term)
  | [] => []
  | (v, t) :: es =>
    if es.any fun e => naming e.1 == naming v then visible es else (naming v, t) :: visible es

def reported (s : Bindings) : List (String × Term) := visible naming s.entries

def names (s : Bindings) : List String := (s.reported naming).map (·.1)

def size (s : Bindings) : Nat := (s.reported naming).length

end Names

def resolve (s : Bindings) : Nat → Term → Option Term
  | 0, _ => none
  | depth + 1, t => t.substitute fun v =>
      match s.lookup v with
      | some u => s.resolve depth u
      | none => some (.var v)

def apply (s : Bindings) (t : Term) : Option Term :=
  if s.isEmpty then some t else s.resolve (s.entries.length + 1) t

end Bindings

end Unification

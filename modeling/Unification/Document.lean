import Unification.Bindings

namespace Unification

abbrev Number.Integer := { n : Int // -Int.pow 2 63 ≤ n ∧ n < Int.pow 2 64 }

abbrev Number.Float := { x : Binary64 // x.isFinite }

inductive Number where
  | integer (n : Number.Integer)
  | float (x : Number.Float)

namespace Number

def ofLong (n : Int64) : Number :=
  integer ⟨n.toInt, n.le_toInt, Int.lt_trans n.toInt_lt (by decide)⟩

def ofFloat? (x : Binary64) : Option Number := if h : x.isFinite then some (float ⟨x, h⟩) else none

inductive Form where
  | unsigned (n : UInt64)
  | signed (n : Int64)
  | float (x : Binary64)

def form : Number → Form
  | integer n => if 0 ≤ n.1 then .unsigned (UInt64.ofNat n.1.toNat) else .signed (Int64.ofInt n.1)
  | float x => .float x.1

namespace Form

def asInt64? : Form → Option Int64
  | unsigned n => if n.toNat < 1 <<< 63 then some (Int64.ofNat n.toNat) else none
  | signed n => some n
  | float _ => none

def asFloat? : Form → Option Binary64
  | unsigned n => some (.ofNat n.toNat)
  | signed n => some (.ofInt n.toInt)
  | float x => some x

end Form

end Number

/-- What conversions take from the libraries for numbers and for points in time. -/
class Scalars where
  asInt64? : Number → Option Int64
  asFloat? : Number → Option Binary64
  ofInt64 : Int64 → Number
  ofFloat? : Binary64 → Option Number
  dateText : Instant → String

instance : Scalars where
  asInt64? n := n.form.asInt64?
  asFloat? n := n.form.asFloat?
  ofInt64 := .ofLong
  ofFloat? := Number.ofFloat?
  dateText := Instant.toRfc3339

open Scalars

/-- The entries of an object are in strictly increasing order of their keys, see `Document.WellFormed`. -/
inductive Document where
  | null
  | bool (b : Bool)
  | number (n : Number)
  | string (s : String)
  | array (items : List Document)
  | object (entries : List (String × Document))

namespace Document

instance : Inhabited Document := ⟨null⟩

@[match_pattern] abbrev integer (n : Number.Integer) : Document := number (.integer n)

@[match_pattern] abbrev float (x : Number.Float) : Document := number (.float x)

def objectOf (es : List (String × Document)) : Document := object (Keyed.ofList es)

def ofLong (n : Int64) : Document := number (.ofLong n)

mutual

def WellFormed : Document → Prop
  | array ds => WellFormedItems ds
  | object es => Keyed.Ordered es ∧ WellFormedEntries es
  | _ => True

def WellFormedItems : List Document → Prop
  | [] => True
  | d :: ds => WellFormed d ∧ WellFormedItems ds

def WellFormedEntries : List (String × Document) → Prop
  | [] => True
  | (_, d) :: es => WellFormed d ∧ WellFormedEntries es

end

end Document

namespace Term

variable [Scalars]

def ofNumber (n : Number) : Term :=
  match asInt64? n with
  | some i => primitive (.long i)
  | none => primitive (.float ((asFloat? n).getD .nan))

mutual

def ofDocument : Document → Term
  | .null => primitive .nil
  | .bool b => primitive (.bool b)
  | .number n => ofNumber n
  | .string s => primitive (.string s)
  | .array ds => sequence (ofDocuments ds)
  | .object es => record (ofMembers es)

def ofDocuments : List Document → List Term
  | [] => []
  | d :: ds => ofDocument d :: ofDocuments ds

def ofMembers : List (String × Document) → List (String × Term)
  | [] => []
  | (k, d) :: es => (k, ofDocument d) :: ofMembers es

end

end Term

variable [Scalars]

def Primitive.toDocument? : Primitive → Option Document
  | nil => some .null
  | bool b => some (.bool b)
  | long n => some (.number (ofInt64 n))
  | float x => (ofFloat? x).map .number
  | string s => some (.string s)
  | date d => some (.string (dateText d))

namespace Term

mutual

def toDocument? : Term → Option Document
  | primitive p => p.toDocument?
  | sequence ts => (toDocuments? ts).map .array
  | record es => (toMembers? es).map .object
  | callable _ | var _ | wildcard => none

def toDocuments? : List Term → Option (List Document)
  | [] => some []
  | t :: ts =>
    match toDocument? t, toDocuments? ts with
    | some d, some ds => some (d :: ds)
    | _, _ => none

def toMembers? : List (String × Term) → Option (List (String × Document))
  | [] => some []
  | (k, t) :: es =>
    match toDocument? t, toMembers? es with
    | some d, some ds => some ((k, d) :: ds)
    | _, _ => none

end

end Term

def Bindings.toDocument (naming : Variable → String) (s : Bindings) : Document :=
  .objectOf ((s.reported naming).filterMap fun (name, t) => t.toDocument?.map ((name, ·)))

end Unification

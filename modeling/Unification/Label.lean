import Unification.Text

namespace Unification

namespace Label

def initials : Text.Ranges := [(0x41, 0x5a), (0x61, 0x7a), (0x5f, 0x5f), (0x24, 0x24)]

def followers : Text.Ranges := [(0x41, 0x5a), (0x61, 0x7a), (0x30, 0x39), (0x5f, 0x5f), (0x24, 0x24)]

/-- The pattern `^[A-Za-z_$][A-Za-z0-9_$]*$`. -/
def pattern : Text.Pattern := [.one initials, .many followers]

def isSimple (name : String) : Bool := pattern.accepts name.toList

inductive Fault where
  | empty
  | notSimple (name : String)

def Fault.text : Fault → String
  | empty => "variable name must not be empty"
  | notSimple name => "variable name " ++ Text.quoted name ++ " is not a simple label"

def check (name : String) : Except Fault Unit :=
  if name.isEmpty then .error .empty
  else if isSimple name then .ok ()
  else .error (.notSimple name)

end Label

inductive Fault where
  | invalidArgument (text : String)
  | invalidConfig (text : String)
deriving DecidableEq

namespace Fault

def ofLabel (f : Label.Fault) : Fault := invalidArgument f.text

def message : Fault → String
  | invalidArgument text => "Invalid argument: " ++ text
  | invalidConfig text => "Invalid configuration: " ++ text

end Fault

end Unification

import GraphCalc.Value

set_option autoImplicit false

namespace GraphCalc

inductive Slot where
  | variable (index : UInt8)
  | string (index : UInt8)
  | equation (index : UInt8)
  | list (index : UInt8)
  | customList (name : String)
  | matrix (index : UInt8)
deriving DecidableEq, Repr

def Slot.isCustomList : Slot → Bool
  | .customList _ => true
  | _ => false

structure Store where
  entries : List (Slot × Value)
deriving DecidableEq

namespace Store

def empty : Store := ⟨[]⟩

def variableCount : UInt8 := 27
def stringCount : UInt8 := 10
def equationCount : UInt8 := 31
def listCount : UInt8 := 6
def matrixCount : UInt8 := 10
def customListLimit : Nat := 50

def get? (s : Store) (slot : Slot) : Option Value :=
  (s.entries.find? (·.1 == slot)).map (·.2)

def put (s : Store) (slot : Slot) (v : Value) : Store :=
  ⟨(slot, v) :: s.entries.filter (·.1 != slot)⟩

def customListCount (s : Store) : Nat := s.entries.countP (·.1.isCustomList)

def checkIndex (index count : UInt8) : Except Cause Unit :=
  if index < count then .ok () else .error .domain

def checkScalar : Value → Except Cause Unit
  | .number _ | .complex _ => .ok ()
  | _ => .error .dataType

def checkString : Value → Except Cause Unit
  | .string _ => .ok ()
  | _ => .error .dataType

def checkList : Value → Except Cause Unit
  | .list xs => if xs.isEmpty then .error .invalidDim else .ok ()
  | .complexList cs => if cs.isEmpty then .error .invalidDim else .ok ()
  | _ => .error .dataType

def checkMatrix : Value → Except Cause Unit
  | .matrix _ => .ok ()
  | _ => .error .dataType

def checkName (s : Store) (name : String) : Except Cause Unit :=
  if name.length < 1 ∨ 5 < name.length then .error .invalidListName
  else if (s.get? (.customList name)).isNone ∧ customListLimit ≤ s.customListCount then
    .error .tooManyLists
  else .ok ()

def check (s : Store) (slot : Slot) (v : Value) : Except Cause Unit :=
  match slot with
  | .variable i => do checkIndex i variableCount; checkScalar v
  | .string i => do checkIndex i stringCount; checkString v
  | .equation i => do checkIndex i equationCount; checkString v
  | .list i => do checkIndex i listCount; checkList v
  | .customList name => do s.checkName name; checkList v
  | .matrix i => do checkIndex i matrixCount; checkMatrix v

/-- Puts a value that passes the checks; the memory is returned with a failure too. -/
def assign (s : Store) (slot : Slot) (v : Value) : Except Cause Unit × Store :=
  match s.check slot v with
  | .error e => (.error e, s)
  | .ok _ => (.ok (), s.put slot v)

def set (s : Store) (slot : Slot) (v : Value) : Except Cause Store :=
  let (result, s) := s.assign slot v
  result.map fun _ => s

end Store

end GraphCalc

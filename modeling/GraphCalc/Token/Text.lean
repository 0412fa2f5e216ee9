import GraphCalc.Fault
import GraphCalc.Token
import GraphCalc.Token.Spelling

set_option autoImplicit false

namespace GraphCalc

/-- The second byte of a lowercase letter. They run from `0xB0` on and pass over `0xBB`. -/
def lowercaseByte? (c : Char) : Option UInt8 :=
  if 'a' ≤ c ∧ c ≤ 'z' then
    let offset := c.toNat - 'a'.toNat
    some (UInt8.ofNat (if offset < 11 then 0xB0 + offset else 0xB1 + offset))
  else none

def lowercaseChar? (b : UInt8) : Option Char :=
  if 0xB0 ≤ b ∧ b < 0xBB then some (Char.ofNat ('a'.toNat + (b.toNat - 0xB0)))
  else if 0xBB < b ∧ b ≤ 0xCA then some (Char.ofNat ('a'.toNat + (b.toNat - 0xB1)))
  else none

structure Reading where
  inString : Bool
  last : Option UInt8
  place : Place
deriving DecidableEq, Repr

namespace Reading

def start : Reading := ⟨false, none, ⟨1, 1⟩⟩

def afterDigit (r : Reading) : Bool :=
  r.last.any fun b => Byte.digitZero ≤ b && b ≤ Byte.decimalPoint

def token? (r : Reading) (c : Char) (cs : List Char) : Option (Bytes × Nat) :=
  (Spelling.longest? r.afterDigit (c :: cs)).map fun s => (s.bytes, s.text.length - 1)

def stringToken? (r : Reading) (c : Char) (cs : List Char) : Option (Bytes × Nat) :=
  match lowercaseByte? c with
  | some b => some ([Byte.lowercase, b], 0)
  | none =>
    if c = ' ' then some ([Byte.space], 0)
    else if c = '-' ∧ cs.head? = some '>' then r.token? c cs
    else (Spelling.ofText? [c]).map (·, 0)

def read? (r : Reading) (c : Char) (cs : List Char) : Option (Bytes × Nat) :=
  if c = '\n' then some ([Byte.newline], 0)
  else if c = '\r' ∨ (r.inString = false ∧ (c = ' ' ∨ c = '\t')) then some ([], 0)
  else if r.inString then r.stringToken? c cs
  else r.token? c cs

def after (r : Reading) (c : Char) (bytes : Bytes) (used : Nat) : Reading :=
  if c = '\n' then ⟨false, some Byte.newline, ⟨r.place.line + 1, 1⟩⟩
  else
    { inString :=
        if bytes = [Byte.quote] then !r.inString else if bytes = [Byte.store] then false else r.inString
      last := bytes.getLast? <|> r.last
      place := ⟨r.place.line, r.place.column + 1 + used⟩ }

end Reading

def tokenizeFrom (r : Reading) : List Char → Except Fault Bytes
  | [] => .ok []
  | c :: cs =>
    match r.read? c cs with
    | none => .error ⟨.unrecognizedText, some r.place⟩
    | some (bytes, used) => (tokenizeFrom (r.after c bytes used) (cs.drop used)).map (bytes ++ ·)
termination_by chars => chars.length
decreasing_by
  simp only [List.length_drop, List.length_cons]
  omega

def tokenize (text : String) : Except Fault Bytes :=
  tokenizeFrom .start text.toList

def tokenText (token : Bytes) : List Char :=
  if token = [Byte.space] then [' ']
  else if token = [Byte.newline] then ['\n']
  else (Spelling.ofBytes? token).getD ['?']

def pairText (first second : UInt8) : List Char :=
  match if first = Byte.lowercase then lowercaseChar? second else none with
  | some c => [c]
  | none => tokenText [first, second]

def detokenizeChars : Bytes → List Char
  | [] => []
  | [b] => tokenText [b]
  | first :: second :: rest =>
    if Byte.isTwoByte first then pairText first second ++ detokenizeChars rest
    else tokenText [first] ++ detokenizeChars (second :: rest)

def detokenize (bytes : Bytes) : String :=
  String.ofList (detokenizeChars bytes)

end GraphCalc

set_option autoImplicit false

namespace GraphCalc

structure Spelling where
  text : List Char
  bytes : List UInt8
deriving DecidableEq, Repr

namespace Spelling

/-- Not read right after a digit or a decimal point, where `10` belongs to a number. -/
def tenPower : List Char := "10^(".toList

def entries : List (String × List UInt8) :=
  [("→", [0x04]), ("->", [0x04]), ("[", [0x06]), ("]", [0x07]), ("\x7b", [0x08]), ("\x7d", [0x09]),
   ("ʳ", [0x0A]), ("°", [0x0B]), ("⁻¹", [0x0C]), ("²", [0x0D]), ("ᵀ", [0x0E]), ("³", [0x0F]),
   ("(", [0x10]), (")", [0x11]), ("round(", [0x12]), ("pxl-Test(", [0x13]), ("augment(", [0x14]),
   ("rowSwap(", [0x15]), ("row+(", [0x16]), ("*row(", [0x17]), ("*row+(", [0x18]),
   ("max(", [0x19]), ("min(", [0x1A]), ("R►Pr(", [0x1B]), ("R>Pr(", [0x1B]), ("R►Pθ(", [0x1C]),
   ("R>Ptheta(", [0x1C]), ("P►Rx(", [0x1D]), ("P>Rx(", [0x1D]), ("P►Ry(", [0x1E]),
   ("P>Ry(", [0x1E]), ("median(", [0x1F]), ("randM(", [0x20]), ("mean(", [0x21]),
   ("solve(", [0x22]), ("seq(", [0x23]), ("fnInt(", [0x24]), ("nDeriv(", [0x25]),
   ("fMin(", [0x27]), ("fMax(", [0x28]), ("\"", [0x2A]), (",", [0x2B]), ("i", [0x2C]),
   ("!", [0x2D]), ("0", [0x30]), ("1", [0x31]), ("2", [0x32]), ("3", [0x33]), ("4", [0x34]),
   ("5", [0x35]), ("6", [0x36]), ("7", [0x37]), ("8", [0x38]), ("9", [0x39]), (".", [0x3A]),
   ("ᴇ", [0x3B]), ("|E", [0x3B]), ("or", [0x3C]), ("xor", [0x3D]), (":", [0x3E]), ("and", [0x40]),
   ("A", [0x41]), ("B", [0x42]), ("C", [0x43]), ("D", [0x44]), ("E", [0x45]), ("F", [0x46]),
   ("G", [0x47]), ("H", [0x48]), ("I", [0x49]), ("J", [0x4A]), ("K", [0x4B]), ("L", [0x4C]),
   ("M", [0x4D]), ("N", [0x4E]), ("O", [0x4F]), ("P", [0x50]), ("Q", [0x51]), ("R", [0x52]),
   ("S", [0x53]), ("T", [0x54]), ("U", [0x55]), ("V", [0x56]), ("W", [0x57]), ("X", [0x58]),
   ("Y", [0x59]), ("Z", [0x5A]), ("θ", [0x5B]), ("theta", [0x5B]), ("[A]", [0x5C, 0x00]),
   ("[B]", [0x5C, 0x01]), ("[C]", [0x5C, 0x02]), ("[D]", [0x5C, 0x03]), ("[E]", [0x5C, 0x04]),
   ("[F]", [0x5C, 0x05]), ("[G]", [0x5C, 0x06]), ("[H]", [0x5C, 0x07]), ("[I]", [0x5C, 0x08]),
   ("[J]", [0x5C, 0x09]), ("L1", [0x5D, 0x00]), ("L2", [0x5D, 0x01]), ("L3", [0x5D, 0x02]),
   ("L4", [0x5D, 0x03]), ("L5", [0x5D, 0x04]), ("L6", [0x5D, 0x05]), ("L₁", [0x5D, 0x00]),
   ("L₂", [0x5D, 0x01]), ("L₃", [0x5D, 0x02]), ("L₄", [0x5D, 0x03]), ("L₅", [0x5D, 0x04]),
   ("L₆", [0x5D, 0x05]), ("Y1", [0x5E, 0x10]), ("Y2", [0x5E, 0x11]), ("Y3", [0x5E, 0x12]),
   ("Y4", [0x5E, 0x13]), ("Y5", [0x5E, 0x14]), ("Y6", [0x5E, 0x15]), ("Y7", [0x5E, 0x16]),
   ("Y8", [0x5E, 0x17]), ("Y9", [0x5E, 0x18]), ("Y0", [0x5E, 0x19]), ("Y₁", [0x5E, 0x10]),
   ("Y₂", [0x5E, 0x11]), ("Y₃", [0x5E, 0x12]), ("Y₄", [0x5E, 0x13]), ("Y₅", [0x5E, 0x14]),
   ("Y₆", [0x5E, 0x15]), ("Y₇", [0x5E, 0x16]), ("Y₈", [0x5E, 0x17]), ("Y₉", [0x5E, 0x18]),
   ("Y₀", [0x5E, 0x19]), ("r1", [0x5E, 0x40]), ("r2", [0x5E, 0x41]), ("r3", [0x5E, 0x42]),
   ("r4", [0x5E, 0x43]), ("r5", [0x5E, 0x44]), ("r6", [0x5E, 0x45]), ("u", [0x5E, 0x80]),
   ("v", [0x5E, 0x81]), ("w", [0x5E, 0x82]), ("Radian", [0x64]), ("Degree", [0x65]),
   ("Normal", [0x66]), ("Sci", [0x67]), ("Eng", [0x68]), ("Float", [0x69]), ("=", [0x6A]),
   ("<", [0x6B]), (">", [0x6C]), ("≤", [0x6D]), ("<=", [0x6D]), ("≥", [0x6E]), (">=", [0x6E]),
   ("≠", [0x6F]), ("<>", [0x6F]), ("+", [0x70]), ("-", [0x71]), ("Ans", [0x72]), ("Fix", [0x73]),
   ("Horiz", [0x74]), ("Full", [0x75]), ("Func", [0x76]), ("Param", [0x77]), ("Polar", [0x78]),
   ("Seq", [0x79]), ("IndpntAuto", [0x7A]), ("IndpntAsk", [0x7B]), ("DependAuto", [0x7C]),
   ("DependAsk", [0x7D]), ("*", [0x82]), ("/", [0x83]), ("Trace", [0x84]), ("ClrDraw", [0x85]),
   ("ZStandard", [0x86]), ("ZTrig", [0x87]), ("ZBox", [0x88]), ("Zoom In", [0x89]),
   ("Zoom Out", [0x8A]), ("ZSquare", [0x8B]), ("ZInteger", [0x8C]), ("ZPrevious", [0x8D]),
   ("ZDecimal", [0x8E]), ("ZoomStat", [0x8F]), ("ZoomRcl", [0x90]), ("ZoomSto", [0x92]),
   ("Text(", [0x93]), ("nPr", [0x94]), ("nCr", [0x95]), ("Line(", [0x9C]), ("Pt-On(", [0x9E]),
   ("Pt-Off(", [0x9F]), ("Pt-Change(", [0xA0]), ("Pxl-On(", [0xA1]), ("Pxl-Off(", [0xA2]),
   ("Pxl-Change(", [0xA3]), ("Shade(", [0xA4]), ("Circle(", [0xA5]), ("Tangent(", [0xA7]),
   ("Str1", [0xAA, 0x00]), ("Str2", [0xAA, 0x01]), ("Str3", [0xAA, 0x02]), ("Str4", [0xAA, 0x03]),
   ("Str5", [0xAA, 0x04]), ("Str6", [0xAA, 0x05]), ("Str7", [0xAA, 0x06]), ("Str8", [0xAA, 0x07]),
   ("Str9", [0xAA, 0x08]), ("Str0", [0xAA, 0x09]), ("rand", [0xAB]), ("π", [0xAC]), ("pi", [0xAC]),
   ("getKey", [0xAD]), ("?", [0xAF]), ("~", [0xB0]), ("⁻", [0xB0]), ("int(", [0xB1]),
   ("abs(", [0xB2]), ("det(", [0xB3]), ("identity(", [0xB4]), ("dim(", [0xB5]), ("sum(", [0xB6]),
   ("prod(", [0xB7]), ("not(", [0xB8]), ("iPart(", [0xB9]), ("fPart(", [0xBA]), ("√(", [0xBC]),
   ("sqrt(", [0xBC]), ("³√(", [0xBD]), ("cbrt(", [0xBD]), ("ln(", [0xBE]), ("e^(", [0xBF]),
   ("log(", [0xC0]), ("10^(", [0xC1]), ("sin(", [0xC2]), ("sin⁻¹(", [0xC3]), ("asin(", [0xC3]),
   ("cos(", [0xC4]), ("cos⁻¹(", [0xC5]), ("acos(", [0xC5]), ("tan(", [0xC6]), ("tan⁻¹(", [0xC7]),
   ("atan(", [0xC7]), ("sinh(", [0xC8]), ("sinh⁻¹(", [0xC9]), ("asinh(", [0xC9]),
   ("cosh(", [0xCA]), ("cosh⁻¹(", [0xCB]), ("acosh(", [0xCB]), ("tanh(", [0xCC]),
   ("tanh⁻¹(", [0xCD]), ("atanh(", [0xCD]), ("If", [0xCE]), ("Then", [0xCF]), ("Else", [0xD0]),
   ("While", [0xD1]), ("Repeat", [0xD2]), ("For(", [0xD3]), ("End", [0xD4]), ("Return", [0xD5]),
   ("Lbl", [0xD6]), ("Goto", [0xD7]), ("Pause", [0xD8]), ("Stop", [0xD9]), ("Input", [0xDC]),
   ("Prompt", [0xDD]), ("Disp", [0xDE]), ("DispGraph", [0xDF]), ("Output(", [0xE0]),
   ("ClrHome", [0xE1]), ("Fill(", [0xE2]), ("SortA(", [0xE3]), ("SortD(", [0xE4]),
   ("DispTable", [0xE5]), ("Menu(", [0xE6]), ("Send(", [0xE7]), ("Get(", [0xE8]), ("∟", [0xEB]),
   ("|L", [0xEB]), ("Plot1(", [0xEC]), ("Plot2(", [0xED]), ("Plot3(", [0xEE]), ("^", [0xF0])]

def all : List Spelling :=
  entries.map fun (text, bytes) => ⟨text.toList, bytes⟩

def ofBytes? (bytes : List UInt8) : Option (List Char) :=
  (all.find? (·.bytes == bytes)).map (·.text)

def ofText? (text : List Char) : Option (List UInt8) :=
  (all.find? (·.text == text)).map (·.bytes)

def longer (found : Option Spelling) (s : Spelling) : Option Spelling :=
  match found with
  | some best => if best.text.length ≤ s.text.length then some s else found
  | none => some s

def longest? (afterDigit : Bool) (chars : List Char) : Option Spelling :=
  (all.filter fun s => s.text.isPrefixOf chars && !(afterDigit && s.text == tenPower)).foldl
    longer none

end Spelling

end GraphCalc

set_option autoImplicit false

namespace GraphCalc

inductive Shape where
  | standalone | args | paren
deriving DecidableEq, Repr

inductive Command where
  | radian | degree | normal | scientific | engineering | floating | fix | horizontal | full
  | functionGraph | parametricGraph | polarGraph | sequenceGraph | independentAuto | independentAsk
  | dependAuto | dependAsk | trace | clearDrawing | zStandard | zTrig | zBox | zoomIn | zoomOut
  | zSquare | zInteger | zPrevious | zDecimal | zoomStat | zoomRcl | zoomSto | text | line
  | pointOn | pointOff | pointChange | pixelOn | pixelOff | pixelChange | shade | circle | tangent
  | returns | stop | display | displayGraph | output | clearHome | fill | sortAscending
  | sortDescending | displayTable | menu | send | get | plot1 | plot2 | plot3
deriving DecidableEq, Repr

namespace Command

def all : List Command :=
  [.radian, .degree, .normal, .scientific, .engineering, .floating, .fix, .horizontal, .full,
   .functionGraph, .parametricGraph, .polarGraph, .sequenceGraph, .independentAuto,
   .independentAsk, .dependAuto, .dependAsk, .trace, .clearDrawing, .zStandard, .zTrig, .zBox,
   .zoomIn, .zoomOut, .zSquare, .zInteger, .zPrevious, .zDecimal, .zoomStat, .zoomRcl, .zoomSto,
   .text, .line, .pointOn, .pointOff, .pointChange, .pixelOn, .pixelOff, .pixelChange, .shade,
   .circle, .tangent, .returns, .stop, .display, .displayGraph, .output, .clearHome, .fill,
   .sortAscending, .sortDescending, .displayTable, .menu, .send, .get, .plot1, .plot2, .plot3]

def byte : Command → UInt8
  | .radian => 0x64
  | .degree => 0x65
  | .normal => 0x66
  | .scientific => 0x67
  | .engineering => 0x68
  | .floating => 0x69
  | .fix => 0x73
  | .horizontal => 0x74
  | .full => 0x75
  | .functionGraph => 0x76
  | .parametricGraph => 0x77
  | .polarGraph => 0x78
  | .sequenceGraph => 0x79
  | .independentAuto => 0x7A
  | .independentAsk => 0x7B
  | .dependAuto => 0x7C
  | .dependAsk => 0x7D
  | .trace => 0x84
  | .clearDrawing => 0x85
  | .zStandard => 0x86
  | .zTrig => 0x87
  | .zBox => 0x88
  | .zoomIn => 0x89
  | .zoomOut => 0x8A
  | .zSquare => 0x8B
  | .zInteger => 0x8C
  | .zPrevious => 0x8D
  | .zDecimal => 0x8E
  | .zoomStat => 0x8F
  | .zoomRcl => 0x90
  | .zoomSto => 0x92
  | .text => 0x93
  | .line => 0x9C
  | .pointOn => 0x9E
  | .pointOff => 0x9F
  | .pointChange => 0xA0
  | .pixelOn => 0xA1
  | .pixelOff => 0xA2
  | .pixelChange => 0xA3
  | .shade => 0xA4
  | .circle => 0xA5
  | .tangent => 0xA7
  | .returns => 0xD5
  | .stop => 0xD9
  | .display => 0xDE
  | .displayGraph => 0xDF
  | .output => 0xE0
  | .clearHome => 0xE1
  | .fill => 0xE2
  | .sortAscending => 0xE3
  | .sortDescending => 0xE4
  | .displayTable => 0xE5
  | .menu => 0xE6
  | .send => 0xE7
  | .get => 0xE8
  | .plot1 => 0xEC
  | .plot2 => 0xED
  | .plot3 => 0xEE

def name : Command → String
  | .radian => "Radian"
  | .degree => "Degree"
  | .normal => "Normal"
  | .scientific => "Sci"
  | .engineering => "Eng"
  | .floating => "Float"
  | .fix => "Fix"
  | .horizontal => "Horiz"
  | .full => "Full"
  | .functionGraph => "Func"
  | .parametricGraph => "Param"
  | .polarGraph => "Polar"
  | .sequenceGraph => "Seq"
  | .independentAuto => "IndpntAuto"
  | .independentAsk => "IndpntAsk"
  | .dependAuto => "DependAuto"
  | .dependAsk => "DependAsk"
  | .trace => "Trace"
  | .clearDrawing => "ClrDraw"
  | .zStandard => "ZStandard"
  | .zTrig => "ZTrig"
  | .zBox => "ZBox"
  | .zoomIn => "ZoomIn"
  | .zoomOut => "ZoomOut"
  | .zSquare => "ZSquare"
  | .zInteger => "ZInteger"
  | .zPrevious => "ZPrevious"
  | .zDecimal => "ZDecimal"
  | .zoomStat => "ZoomStat"
  | .zoomRcl => "ZoomRcl"
  | .zoomSto => "ZoomSto"
  | .text => "Text"
  | .line => "Line"
  | .pointOn => "PtOn"
  | .pointOff => "PtOff"
  | .pointChange => "PtChange"
  | .pixelOn => "PxlOn"
  | .pixelOff => "PxlOff"
  | .pixelChange => "PxlChange"
  | .shade => "Shade"
  | .circle => "Circle"
  | .tangent => "Tangent"
  | .returns => "Return"
  | .stop => "Stop"
  | .display => "Disp"
  | .displayGraph => "DispGraph"
  | .output => "Output"
  | .clearHome => "ClrHome"
  | .fill => "Fill"
  | .sortAscending => "SortA"
  | .sortDescending => "SortD"
  | .displayTable => "DispTable"
  | .menu => "Menu"
  | .send => "Send"
  | .get => "Get"
  | .plot1 => "Plot1"
  | .plot2 => "Plot2"
  | .plot3 => "Plot3"

def ofByte? (b : UInt8) : Option Command :=
  all.find? (·.byte == b)

def shape : Command → Shape
  | .display | .fix => .args
  | .text | .line | .pointOn | .pointOff | .pointChange | .pixelOn | .pixelOff | .pixelChange
  | .shade | .circle | .tangent | .output | .fill | .sortAscending | .sortDescending | .menu
  | .send | .get | .plot1 | .plot2 | .plot3 => .paren
  | _ => .standalone

end Command

end GraphCalc

set_option autoImplicit false

namespace GraphCalc

inductive Group where
  | paren | bracket | brace
deriving DecidableEq, Repr

def Group.closer : Group → String
  | .paren => ")"
  | .bracket => "]"
  | .brace => "\x7d"

inductive Kind where
  | overflow | divideByZero | malformed | dataType | domain | dimMismatch | invalidDim | undefined
  | memory | interrupted | notImplemented
deriving DecidableEq, Repr

namespace Kind

def number : Kind → Nat
  | .overflow => 1
  | .divideByZero => 2
  | .malformed => 8
  | .dataType => 9
  | .domain => 10
  | .dimMismatch => 11
  | .invalidDim => 12
  | .undefined => 14
  | .memory => 15
  | .interrupted => 16
  | .notImplemented => 51

def text : Kind → String
  | .overflow => "OVERFLOW"
  | .divideByZero => "DIVIDE BY 0"
  | .malformed => "SYNTAX"
  | .dataType => "DATA TYPE"
  | .domain => "DOMAIN"
  | .dimMismatch => "DIM MISMATCH"
  | .invalidDim => "INVALID DIM"
  | .undefined => "UNDEFINED"
  | .memory => "MEMORY"
  | .interrupted => "BREAK"
  | .notImplemented => "TOKEN NOT IMPLEMENTED"

end Kind

inductive Cause where
  | overflow
  | divideByZero
  | dataType
  | domain
  | dimMismatch
  | invalidDim
  | undefined
  | interrupted
  | notImplemented
  | unrecognizedText
  | invalidExpression
  | multipleStores
  | invalidNumber
  | missingIndex
  | invalidListName
  | argumentCount
  | operandCount
  | missingArgument
  | unexpectedCloser (group : Group)
  | missingCloser (group : Group)
  | tokenAfterCommand
  | tokenAfterParen
  | expectedArgument
  | expressionTooLarge
  | expressionTooComplex
  | tooManyLists
  | equationTooDeep
deriving DecidableEq, Repr

namespace Cause

def kind : Cause → Kind
  | .overflow => .overflow
  | .divideByZero => .divideByZero
  | .dataType => .dataType
  | .domain => .domain
  | .dimMismatch => .dimMismatch
  | .invalidDim => .invalidDim
  | .undefined => .undefined
  | .interrupted => .interrupted
  | .notImplemented => .notImplemented
  | .unrecognizedText | .invalidExpression | .multipleStores | .invalidNumber | .missingIndex
  | .invalidListName | .argumentCount | .operandCount | .missingArgument | .unexpectedCloser _
  | .missingCloser _ | .tokenAfterCommand | .tokenAfterParen | .expectedArgument => .malformed
  | .expressionTooLarge | .expressionTooComplex | .tooManyLists | .equationTooDeep => .memory

def detail : Cause → String
  | .unrecognizedText => "UNRECOGNIZED TEXT"
  | .invalidExpression => "INVALID EXPRESSION"
  | .multipleStores => "MULTIPLE STORES"
  | .invalidNumber => "INVALID NUMBER"
  | .missingIndex => "MISSING VARIABLE INDEX"
  | .invalidListName => "INVALID LIST NAME"
  | .argumentCount => "WRONG NUMBER OF ARGUMENTS"
  | .missingArgument => "MISSING ARGUMENT"
  | .unexpectedCloser group => "UNEXPECTED " ++ group.closer
  | .missingCloser group => "MISSING " ++ group.closer
  | .tokenAfterCommand => "UNEXPECTED TOKEN AFTER COMMAND"
  | .tokenAfterParen => "UNEXPECTED TOKEN AFTER )"
  | .expectedArgument => "EXPECTED ARGUMENT"
  | .expressionTooLarge => "EXPRESSION TOO LARGE"
  | .expressionTooComplex => "EXPRESSION TOO COMPLEX"
  | _ => ""

end Cause

structure Place where
  line : Nat
  column : Nat
deriving DecidableEq, Repr

structure Fault where
  cause : Cause
  place : Option Place
deriving DecidableEq, Repr

namespace Fault

def ofCause (cause : Cause) : Fault := ⟨cause, none⟩

/-- The place where it was found first is kept. -/
def located (fault : Fault) (place : Place) : Fault :=
  { fault with place := fault.place <|> some place }

def message (fault : Fault) : String :=
  let place := match fault.place with
    | some p => " IN " ++ toString p.line ++ " (" ++ toString p.column ++ ")"
    | none => ""
  let detail := if fault.cause.detail = "" then "" else "; " ++ fault.cause.detail
  "ERR:" ++ fault.cause.kind.text ++ place ++ detail

end Fault

end GraphCalc

import RegisterVm.ErrorKind

/-!
# Faults

A `Fault` is the cause of an error with the data its message names. `Fault.kind` and
`Fault.message` say how it is reported; a message is composed nowhere else.
-/

namespace RegisterVm

inductive Fault where
  /-- An error whose text was composed by the program or by whoever runs it. -/
  | stated (kind : ErrorKind) (text : String)
  /-- An error known by its kind alone. -/
  | signal (kind : ErrorKind)
  | danglingHandle (index : Nat)
  -- arithmetic and comparison
  | divisionByZero
  | integerDivisionByZero
  | integerModuloByZero
  | zeroToNegativePower
  | negativeShift
  | integerTooLarge
  | repeatTooLong (what : String)
  | unsupportedOperands (symbol left right : String)
  | badUnaryOperand (symbol type : String)
  | unordered (symbol left right : String)
  | comparisonTooDeep
  -- conversions and built-in functions
  | wrongArgumentCount (name : String) (least most given : Nat)
  | notAnInteger (type : String)
  | zeroRangeStep
  | nanToInteger
  | infinityToInteger
  | badIntegerLiteral (literal : String)
  | badFloatLiteral (literal : String)
  | noIntegerForm (type : String)
  | noFloatForm (type : String)
  | noMagnitude (type : String)
  | noArguments (name : String)
  | emptySequence (name : String)
  | sumOfStrings
  | pairLength (position length : Nat)
  | notAClass
  -- containers
  | badIndex (container type : String)
  | indexOutOfRange (what : String)
  | popFromEmpty
  | popOutOfRange
  | keyNotFound (key : String)
  | notSubscriptable (type : String)
  | noItemAssignment (type : String)
  | badSliceBound
  | noLength (type : String)
  | rangeTooLong
  | notASubstring (type : String)
  | notAContainer (type : String)
  | notInList (item : String)
  | unhashable (type : String)
  | appendToNonList (type : String)
  | notAList
  | extendNonList
  -- strings
  | notAString (method type : String)
  | emptySeparator
  | joinItem (position : Nat) (type : String)
  -- iteration, attributes, exceptions
  | notIterable (type : String)
  | notAnIterator (type : String)
  | noAttribute (type name : String)
  | classChainTooDeep
  | notCallable (type : String)
  | notAnException
  -- running bytecode
  | invalidBytecode (text : String)
  | notAName (index : Nat)
  | constantOutOfRange (index : Nat)
  | functionOutOfRange (index : Nat)
  | unknownFunction (id : Nat)
  | undefinedName (name : String)
  | recursionLimit
  | wrongPositionalCount (name : String) (expected given : Nat)
  | classTakesNoArguments (name : String)
  | initNotAFunction
  | classAttributeName
  | classNamespace
  | badBase
  -- compiled loops
  | invalidTag (tag : Nat)
  | invalidExit (address : Nat)
  | noInstruction (address : Nat)
  | returnInHelper
  | registerOutside (register size : Nat)
  | windowOutside (start count size : Nat)
  | handlerInLoop (mnemonic : String) (address : Nat)
  | loopTooLong (header backEdge size : Nat)
  | registerBeyondSlots (register : Nat)
  | registerNotMapped (register : Nat)
  deriving DecidableEq

namespace Fault

def kind : Fault → ErrorKind
  | stated kind _ | signal kind => kind
  | divisionByZero | integerDivisionByZero | integerModuloByZero | zeroToNegativePower =>
    .divisionByZero
  | negativeShift | integerTooLarge | repeatTooLong _ | zeroRangeStep | nanToInteger
  | infinityToInteger | badIntegerLiteral _ | badFloatLiteral _ | emptySequence _ | pairLength _ _
  | rangeTooLong | notInList _ | emptySeparator => .valueError
  | unsupportedOperands _ _ _ | badUnaryOperand _ _ | unordered _ _ _ | wrongArgumentCount _ _ _ _
  | notAnInteger _ | noIntegerForm _ | noFloatForm _ | noMagnitude _ | noArguments _ | sumOfStrings
  | notAClass | badIndex _ _ | appendToNonList _ | notSubscriptable _ | noItemAssignment _
  | badSliceBound | noLength _
  | notASubstring _ | notAContainer _ | unhashable _ | notAString _ _ | joinItem _ _
  | notIterable _ | notAnIterator _ | classChainTooDeep | notCallable _ | notAnException
  | wrongPositionalCount _ _ _ | classTakesNoArguments _ | initNotAFunction | classAttributeName
  | classNamespace | badBase => .typeError
  | indexOutOfRange _ | popFromEmpty | popOutOfRange => .indexOutOfRange
  | keyNotFound _ => .keyNotFound
  | noAttribute _ _ => .attributeNotFound
  | undefinedName _ => .nameNotFound
  | comparisonTooDeep | recursionLimit => .stackOverflow
  | invalidBytecode _ => .invalidBytecode
  | handlerInLoop _ _ | registerBeyondSlots _ => .jitCompileUnsupported
  | danglingHandle _ | notAList | extendNonList | notAName _ | constantOutOfRange _
  | functionOutOfRange _ | unknownFunction _ | invalidTag _ | invalidExit _ | noInstruction _
  | returnInHelper | registerOutside _ _ | windowOutside _ _ _ | loopTooLong _ _ _
  | registerNotMapped _ => .internalError

def signalText : ErrorKind → String
  | .divisionByZero => "division by zero"
  | .typeMismatch => "operand is not a primitive value"
  | .integerOverflow => "integer overflow"
  | .valueError => "invalid value"
  | _ => "runtime error"

def plural (n : Nat) : String := if n = 1 then "" else "s"

/-- How many arguments a call may have, as told to a caller that gave `given`. -/
def argumentsText (least most given : Nat) : String :=
  if least = most then
    if least = 0 then "no arguments"
    else if least = 1 then "exactly one argument"
    else s!"exactly {least} arguments"
  else if given < least then s!"at least {least} argument{plural least}"
  else s!"at most {most} argument{plural most}"

def message : Fault → String
  | stated _ text => text
  | signal kind => signalText kind
  | danglingHandle index => s!"dangling object handle #{index}"
  | divisionByZero => "division by zero"
  | integerDivisionByZero => "integer division or modulo by zero"
  | integerModuloByZero => "integer modulo by zero"
  | zeroToNegativePower => "0 cannot be raised to a negative power"
  | negativeShift => "negative shift count"
  | integerTooLarge => "integer result too large"
  | repeatTooLong what => s!"repeated {what} is too long"
  | unsupportedOperands symbol left right =>
    s!"unsupported operand type(s) for {symbol}: '{left}' and '{right}'"
  | badUnaryOperand symbol type => s!"bad operand type for unary {symbol}: '{type}'"
  | unordered symbol left right =>
    s!"'{symbol}' not supported between instances of '{left}' and '{right}'"
  | comparisonTooDeep => "maximum recursion depth exceeded in comparison"
  | wrongArgumentCount name least most given =>
    let expected := argumentsText least most given
    s!"{name}() takes {expected} ({given} given)"
  | notAnInteger type => s!"'{type}' object cannot be interpreted as an integer"
  | zeroRangeStep => "range() arg 3 must not be zero"
  | nanToInteger => "cannot convert float NaN to integer"
  | infinityToInteger => "cannot convert float infinity to integer"
  | badIntegerLiteral literal => s!"invalid literal for int() with base 10: {literal}"
  | badFloatLiteral literal => s!"could not convert string to float: {literal}"
  | noIntegerForm type => s!"int() argument must be a string or a number, not '{type}'"
  | noFloatForm type => s!"float() argument must be a string or a number, not '{type}'"
  | noMagnitude type => s!"bad operand type for abs(): '{type}'"
  | noArguments name => s!"{name} expected at least 1 argument, got 0"
  | emptySequence name => s!"{name}() arg is an empty sequence"
  | sumOfStrings => "sum() can't sum strings [use ''.join(seq) instead]"
  | pairLength position length =>
    s!"dictionary update sequence element #{position} has length {length}; 2 is required"
  | notAClass => "isinstance() arg 2 must be a type or tuple of types"
  | badIndex container type => s!"{container} indices must be integers or slices, not {type}"
  | indexOutOfRange what => s!"{what} index out of range"
  | popFromEmpty => "pop from empty list"
  | popOutOfRange => "pop index out of range"
  | keyNotFound key => key
  | notSubscriptable type => s!"'{type}' object is not subscriptable"
  | noItemAssignment type => s!"'{type}' object does not support item assignment"
  | badSliceBound => "slice indices must be integers or None"
  | noLength type => s!"object of type '{type}' has no len()"
  | rangeTooLong => "range() result has too many items"
  | notASubstring type => s!"'in <string>' requires string as left operand, not {type}"
  | notAContainer type => s!"argument of type '{type}' is not iterable"
  | notInList item => s!"{item} is not in list"
  | unhashable type => s!"unhashable type: '{type}'"
  | appendToNonList type => s!"'{type}' object has no attribute 'append'"
  | notAList => "receiver is not a list"
  | extendNonList => "extend target is not a list"
  | notAString method type => s!"{method}() argument must be str, not {type}"
  | emptySeparator => "empty separator"
  | joinItem position type => s!"sequence item {position}: expected str instance, {type} found"
  | notIterable type => s!"'{type}' object is not iterable"
  | notAnIterator type => s!"'{type}' object is not an iterator"
  | noAttribute type name => s!"'{type}' object has no attribute '{name}'"
  | classChainTooDeep => "class hierarchy is too deep or cyclic"
  | notCallable type => s!"'{type}' object is not callable"
  | notAnException => "exceptions must derive from BaseException"
  | invalidBytecode text => text
  | notAName index => s!"constant #{index} is not a name"
  | constantOutOfRange index => s!"constant #{index} out of range"
  | functionOutOfRange index => s!"nested function #{index} out of range"
  | unknownFunction id => s!"unknown function id {id}"
  | undefinedName name => s!"name '{name}' is not defined"
  | recursionLimit => "maximum recursion depth exceeded"
  | wrongPositionalCount name expected given =>
    let verb := if given = 1 then "was" else "were"
    s!"{name}() takes {expected} positional argument{plural expected} but {given} {verb} given"
  | classTakesNoArguments name => s!"{name}() takes no arguments"
  | initNotAFunction => "__init__ must be a function"
  | classAttributeName => "class attribute names must be strings"
  | classNamespace => "class namespace must be a dict"
  | badBase => "bases must be classes"
  | invalidTag tag => s!"invalid value tag {tag} in native slot"
  | invalidExit address => s!"compiled loop exited to invalid address {address}"
  | noInstruction address => s!"no instruction at {address}"
  | returnInHelper => "return executed by a runtime helper"
  | registerOutside register size => s!"register r{register} outside a file of {size}"
  | windowOutside start count size =>
    s!"registers r{start} and {count} from there on outside a file of {size}"
  | handlerInLoop mnemonic address => s!"{mnemonic} at PC {address} inside the loop"
  | loopTooLong header backEdge size => s!"loop [{header}, {backEdge}] exceeds {size} instructions"
  | registerBeyondSlots register => s!"register r{register} is out of native slot range"
  | registerNotMapped register => s!"register r{register} is not mapped"

end Fault

end RegisterVm

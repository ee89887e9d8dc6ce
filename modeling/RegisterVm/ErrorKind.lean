/-!
# Kinds of errors

Every error has one of a fixed set of kinds. Programs see a kind through the exception class it
belongs to; some kinds share a class. Two kinds never reach a program: they only ask for an
operation to be tried again in its general form.
-/

namespace RegisterVm

inductive ErrorKind where
  | divisionByZero
  | typeMismatch
  | integerOverflow
  | indexOutOfRange
  | keyNotFound
  | attributeNotFound
  | nameNotFound
  | typeError
  | valueError
  | uncaughtException
  | jitCompileUnsupported
  | stackOverflow
  | invalidBytecode
  | internalError
  deriving DecidableEq

namespace ErrorKind

def all : List ErrorKind :=
  [divisionByZero, typeMismatch, integerOverflow, indexOutOfRange, keyNotFound, attributeNotFound,
    nameNotFound, typeError, valueError, uncaughtException, jitCompileUnsupported, stackOverflow,
    invalidBytecode, internalError]

def name : ErrorKind → String
  | divisionByZero => "DivisionByZero"
  | typeMismatch => "TypeMismatch"
  | integerOverflow => "IntegerOverflow"
  | indexOutOfRange => "IndexOutOfRange"
  | keyNotFound => "KeyNotFound"
  | attributeNotFound => "AttributeNotFound"
  | nameNotFound => "NameNotFound"
  | typeError => "TypeError"
  | valueError => "ValueError"
  | uncaughtException => "UncaughtException"
  | jitCompileUnsupported => "JitCompileUnsupported"
  | stackOverflow => "StackOverflow"
  | invalidBytecode => "InvalidBytecode"
  | internalError => "InternalError"

/-- The exception class a program sees. -/
def className : ErrorKind → String
  | divisionByZero => "ZeroDivisionError"
  | typeMismatch | typeError => "TypeError"
  | integerOverflow => "OverflowError"
  | indexOutOfRange => "IndexError"
  | keyNotFound => "KeyError"
  | attributeNotFound => "AttributeError"
  | nameNotFound => "NameError"
  | valueError => "ValueError"
  | uncaughtException => "Exception"
  | stackOverflow => "RecursionError"
  | jitCompileUnsupported | invalidBytecode | internalError => "RuntimeError"

/-- The kinds that only ask for the general form of an operation. -/
def isFallback : ErrorKind → Bool
  | typeMismatch | integerOverflow => true
  | _ => false

/-- The kinds with an exception class of their own, in the order the classes are defined. -/
def exceptionClasses : List ErrorKind :=
  [uncaughtException, valueError, typeError, indexOutOfRange, keyNotFound, divisionByZero,
    attributeNotFound, internalError, nameNotFound, integerOverflow, stackOverflow]

/-- The kind whose exception class has this name. -/
def ofClassName? (className : String) : Option ErrorKind :=
  exceptionClasses.find? fun kind => kind.className = className

def ofName? (name : String) : Option ErrorKind :=
  all.find? fun kind => kind.name = name

end ErrorKind

end RegisterVm

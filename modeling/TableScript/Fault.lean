import TableScript.Number
import TableScript.Operator

namespace TableScript

/-! Faults: the causes for which a stage gives up, and their wording.  Every
stage has its own type of fault.  The constructor `reported` of each stands for
a cause that the host puts into its own words. -/

/-- Why a program text could not be obtained. -/
inductive InputFault where
  | missing
  | notText
  | reported (words : String)
deriving DecidableEq, Repr

def InputFault.message : InputFault → String
  | .missing => "No such file or directory (os error 2)"
  | .notText => "stream did not contain valid UTF-8"
  | .reported words => words

/-- Why the layout of a program is refused. -/
inductive LayoutFault where
  | lateConstant
  | malformedConstant (line : String)
  | endBeforeStart
  | expectedStart (line : String)
  | startInside
  | expectedDeclaration (line : String)
  | invalidIndex (text : String)
  | malformedHeader (signature : String)
  | missingValue (index : String)
  | openFunction (index : String)
  | openObject (index : String)
  | missingStart
  | reported (words : String)
deriving DecidableEq, Repr

def LayoutFault.message : LayoutFault → String
  | .lateConstant => "Constant declared after the preamble"
  | .malformedConstant line => s!"Malformed constant \"{line}\""
  | .endBeforeStart => "Program end without a matching start"
  | .expectedStart line => s!"Expected program start, got \"{line}\""
  | .startInside => "Unexpected program start inside the program"
  | .expectedDeclaration line => s!"Expected declaration, got \"{line}\""
  | .invalidIndex text => s!"Invalid index \"{text}\""
  | .malformedHeader signature => s!"Malformed function header \"{signature}\""
  | .missingValue index => s!"Missing value for [{index}]"
  | .openFunction index => s!"Unterminated function [{index}]"
  | .openObject index => s!"Unterminated object [{index}]"
  | .missingStart => "Missing program start"
  | .reported words => words

/-- Why a line cannot be read as a phrase. -/
inductive PhraseFault where
  | missingOperand
  | unrecognized (text : String)
  | invalidTarget (text : String)
  | invalidClause (text : String)
  | malformedFor (line : String)
  | reported (words : String)
deriving DecidableEq, Repr

def PhraseFault.message : PhraseFault → String
  | .missingOperand => "Missing operand"
  | .unrecognized text => s!"Unrecognized statement \"{text}\""
  | .invalidTarget text => s!"Invalid assignment target \"{text}\""
  | .invalidClause text => s!"Invalid clause \"{text}\""
  | .malformedFor line => s!"Malformed for header \"{line}\""
  | .reported words => words

/-- Why phrases do not make a tree. -/
inductive TreeFault where
  | strayClose
  | openBlocks (count : Nat)
  | headerAsValue
  | unbalanced
  | reported (words : String)
deriving DecidableEq, Repr

def TreeFault.message : TreeFault → String
  | .strayClose => "Unexpected terminator (whitespace overflow)"
  | .openBlocks count => s!"Unterminated block ({count} still open)"
  | .headerAsValue => "Control block header used as a value"
  | .unbalanced => "Unbalanced block stack"
  | .reported words => words

/-- Why an index or a name does not stand for what it is used as. -/
inductive BindFault where
  | unknownEntry (index : String)
  | unknownArray (index : String)
  | unknownRegister (index : String)
  | unknownParameter (name : String)
  | unknownFunction (index : String)
  | unknownObject (index : String)
  | objectAsValue (index : String)
  | assignedParameter (name : String)
  | strayReference (index : String)
  | reported (words : String)
deriving DecidableEq, Repr

def BindFault.message : BindFault → String
  | .unknownEntry index => s!"Unknown reference to entry \"{index}\""
  | .unknownArray index => s!"Unknown reference to array \"{index}\""
  | .unknownRegister index => s!"Unknown reference to register \"[here][{index}]\""
  | .unknownParameter name => s!"Unknown reference to parameter \"${name}\""
  | .unknownFunction index => s!"Unknown reference to function \"{index}\""
  | .unknownObject index => s!"Unknown reference to object \"{index}\""
  | .objectAsValue index => s!"Object [{index}] cannot be read as a value"
  | .assignedParameter name => s!"Cannot assign to parameter ${name}"
  | .strayReference index => s!"Reference &[{index}] is only allowed as a built-in argument"
  | .reported words => words

/-- Why a run stops. -/
inductive RunFault where
  | notInteger (value : String)
  | notBoolean (value : String)
  | moduloByZero
  | divisionByZero
  | overflow (op : Arithmetic) (left right : Int)
  | surplusArguments (index : String) (params arguments : Nat)
  | depthExceeded (limit : Nat) (index : String)
  | unknownBuiltin (name : String)
  | referenceAsValue (index : String)
  | sizeOfOther (index : String)
  | sizeOfValue
  | sizeOfNothing
  | invalidPosition (index element : String)
  | outOfBounds (index : String) (position size : Nat)
  | outermostScope
  | noScope
  | reported (words : String)
deriving DecidableEq, Repr

def RunFault.message : RunFault → String
  | .notInteger value => s!"Expected an integer, got \"{value}\""
  | .notBoolean value => s!"Expected a boolean condition, got \"{value}\""
  | .moduloByZero => "Modulo by zero"
  | .divisionByZero => "Division by zero"
  | .overflow op left right =>
      let exact := s!"{Number.write left} {op.symbol} {Number.write right}"
      s!"Integer overflow in {exact}"
  | .surplusArguments index params arguments =>
      s!"Function [{index}] takes {params} argument(s), got {arguments}"
  | .depthExceeded limit index =>
      s!"Maximum call depth of {limit} exceeded calling [{index}]"
  | .unknownBuiltin name => s!"Unknown built-in function \"{name}\""
  | .referenceAsValue index => s!"Reference &[{index}] cannot be used as a value"
  | .sizeOfOther index => s!"size expects an array, [{index}] is not one"
  | .sizeOfValue => "size expects a reference such as &[0]"
  | .sizeOfNothing => "size expects one argument"
  | .invalidPosition index element => s!"Invalid array index [{index}][{element}]"
  | .outOfBounds index position size =>
      s!"Index [{index}][{position}] out of bounds (size {size})"
  | .outermostScope => "Attempted to pop the outermost parameter scope"
  | .noScope => "Scope stack is empty"
  | .reported words => words

end TableScript

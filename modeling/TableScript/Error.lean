import TableScript.Fault

namespace TableScript

/-! Errors: a fault together with the stage that met it and the place it was
met.  The stages that read and check function bodies place a fault by the
function it was found in. -/

/-- The function a fault was found in, by its index and the line of its header. -/
structure Site where
  index : String
  line : Nat
deriving DecidableEq, Repr

def Site.message (site : Site) : String :=
  s!"in function [{site.index}] (line {site.line}): "

inductive Error where
  | input (fault : InputFault)
  | structural (line : Nat) (fault : LayoutFault)
  | phrase (sites : List Site) (fault : PhraseFault)
  | tree (sites : List Site) (fault : TreeFault)
  | bind (sites : List Site) (fault : BindFault)
  | runtime (fault : RunFault)
deriving DecidableEq, Repr

namespace Error

/-- Places a fault of a function body in that function.  The other stages have
no function to name, and their errors stay as they are. -/
def within (site : Site) : Error → Error
  | phrase sites fault => phrase (site :: sites) fault
  | tree sites fault => tree (site :: sites) fault
  | bind sites fault => bind (site :: sites) fault
  | error => error

def placed (sites : List Site) (words : String) : String :=
  String.join (sites.map Site.message) ++ words

/-- The whole wording of an error, its stage first. -/
def message : Error → String
  | input fault => "IO Error: " ++ fault.message
  | structural line fault => s!"Syntax error on line {line}: " ++ fault.message
  | phrase sites fault => "Tokenize Error: " ++ placed sites fault.message
  | tree sites fault => "Tree Error: " ++ placed sites fault.message
  | bind sites fault => "Bind Error: " ++ placed sites fault.message
  | runtime fault => "Runtime Error: " ++ fault.message

end Error

end TableScript

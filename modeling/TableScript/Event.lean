import TableScript.Phrase.Printer

namespace TableScript

open Text (shown shownList)

/-! The journal: what the stages note about their work.  An event is data, and
its wording is made only when the journal is shown. -/

inductive Level where
  | trace
  | debug
  | info
  | warn
deriving DecidableEq, Repr

namespace Level

def label : Level → String
  | trace => "TRACE"
  | debug => "DEBUG"
  | info => "INFO"
  | warn => "WARN"

/-- A higher rank is more severe. -/
def rank : Level → Nat
  | trace => 0
  | debug => 1
  | info => 2
  | warn => 3

end Level

inductive Event where
  | constantDefined (name value : String)
  | objectStarted (index : String)
  | objectFinished (index : String)
  | functionRead (index : String) (params : List String) (lines : Nat)
  | scalarRead (index value : String)
  | arrayRead (index : String) (items : List String)
  | redeclared (line : Nat) (index : String) (previous : Nat)
  | bodyNeverClosed
  | trailingLines (count : Nat)
  | lineTaken (line : String)
  | phraseTaken (phrase : Phrase)
  | functionCompiled (index : String)
  | objectCompiled (index : String)
  | programCompiled (count : Nat)
  | surplusDropped (count : Nat) (index : String)
  | called (index : String) (arguments : List String)
  | scalarSet (index value : String)
  | itemAppended (index value : String)
  | registerSet (index value : String)
  | written (text : String)
  | fileOpened (path : String)

namespace Event

def level : Event → Level
  | redeclared .. | bodyNeverClosed | trailingLines _ | surplusDropped .. => .warn
  | programCompiled _ | written _ => .info
  | constantDefined .. | objectStarted _ | objectFinished _ | functionRead .. | scalarRead ..
  | arrayRead .. | functionCompiled _ | objectCompiled _ | fileOpened _ => .debug
  | lineTaken _ | phraseTaken _ | called .. | scalarSet .. | itemAppended .. | registerSet .. =>
      .trace

def message : Event → String
  | constantDefined name value => s!"Constant {name} = {value}"
  | objectStarted index => s!"Start object [{index}]"
  | objectFinished index => s!"Finished object [{index}]"
  | functionRead index params lines =>
      let names := ",".intercalate params
      s!"Function [{index}]({names}) with {lines} line(s)"
  | scalarRead index value =>
      let scalar := displayOne "Scalar" (shown value)
      s!"Entry [{index}] => {scalar}"
  | arrayRead index items =>
      let array := displayOne "Array" (shownList (items.map shown))
      s!"Entry [{index}] => {array}"
  | redeclared line index previous => s!"Line {line}: redeclaring [{index}] from line {previous}"
  | bodyNeverClosed => "Program body is never closed"
  | trailingLines count => s!"Ignoring {count} line(s) after the program end"
  | lineTaken line => s!"Tokenize \"{line}\""
  | phraseTaken phrase => "Tree token " ++ phrase.display
  | functionCompiled index => s!"Compiled function [{index}]"
  | objectCompiled index => s!"Compiled object [{index}]"
  | programCompiled count => s!"Compiled {count} top level entries"
  | surplusDropped count index => s!"Ignoring {count} surplus argument(s) to entry [{index}]"
  | called index arguments =>
      let values := ",".intercalate arguments
      s!"Call [{index}]({values})"
  | scalarSet index value => s!"Set [{index}] = {value}"
  | itemAppended index value => s!"Append {value} to [{index}]"
  | registerSet index value => s!"Set [here][{index}] = {value}"
  | written text => text
  | fileOpened path => s!"Reading {path}"

def line (event : Event) : String :=
  event.level.label ++ ": " ++ event.message

end Event

abbrev Journal := Array Event

/-- The lines of a journal for the events that are at least as severe as `threshold`. -/
def Journal.lines (journal : Journal) (threshold : Level) : List String :=
  (journal.toList.filter fun event => threshold.rank ≤ event.level.rank).map Event.line

end TableScript

import LayeredConfig.FileSystem.Basic
import LayeredConfig.Section.Evaluate

/-!
# Why a parse fails

Every error but one carries the back trace of the place it is about. An error in a reference
carries the definitions of its key instead.
-/

namespace LayeredConfig

/-- Text that is not well formed, or an item that makes no sense where it stands. -/
inductive SyntaxFault
  /-- Something that is no item. -/
  | malformed
  /-- A header with different numbers of opening and closing brackets. -/
  | unbalancedHeader
  /-- A header more than one level below the open section. -/
  | headerTooDeep
  | unknownCommand (name : String)
  /-- A value with a reference that cannot be read. -/
  | badReference (e : EmptySegment)
  /-- The open section is no longer there. -/
  | sectionLost
deriving DecidableEq, Repr

/-- The diagnostic for a syntax fault. -/
def SyntaxFault.message : SyntaxFault → String
  | .malformed => "Syntax error"
  | .unbalancedHeader => "Incorrect section depth"
  | .headerTooDeep => "Section too nested"
  | .unknownCommand name => s!"Unknown command : {name}"
  | .badReference e => e.message
  | .sectionLost => "Current section is no longer a section"

/-- Why a parse fails. -/
inductive ParseError
  | malformed (fault : SyntaxFault) (origin : Origin)
  /-- A document that cannot be opened or read. -/
  | fileAccess (path : String) (cause : FileError) (origin : Origin)
  /-- A document that includes itself, directly or through others. -/
  | cyclicInclude (path : String) (origin : Origin)
  /-- A write that protection refuses, by an assignment or by a merge. -/
  | writeProtection (cause : SectionError) (origin : Origin)
  /-- A reference that cannot be evaluated. -/
  | reference (e : ReferenceError)
deriving DecidableEq, Repr

namespace ParseError

/-- The whole diagnostic. -/
def message : ParseError → String
  | malformed fault origin => s!"{fault.message}\n{origin.render}"
  | fileAccess path cause origin =>
    s!"Fail to access config file : {path} ({cause.message})\n{origin.render}"
  | cyclicInclude path origin =>
    s!"Cyclic(Recursive) parsing is detected : {path}\n{origin.render}"
  | writeProtection cause origin => s!"{cause.message}\n{origin.render}"
  | reference e => e.message

/-- Where the error is: for a reference, the latest definition of its key. -/
def origin? : ParseError → Option Origin
  | malformed _ origin | fileAccess _ _ origin | cyclicInclude _ origin
  | writeProtection _ origin => some origin
  | reference e => e.history.latest?

/-- Whether a file could not be read. -/
def isFileAccess : ParseError → Bool
  | fileAccess .. => true
  | _ => false

/-- Whether a document includes itself. -/
def isCyclicInclude : ParseError → Bool
  | cyclicInclude .. => true
  | _ => false

/-- Whether protection refused a write. -/
def isWriteProtection : ParseError → Bool
  | writeProtection .. => true
  | _ => false

end ParseError

end LayeredConfig

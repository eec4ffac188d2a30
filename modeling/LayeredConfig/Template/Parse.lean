import LayeredConfig.Template.Basic

/-!
# Reading templates

A raw value is split into literal spans and references. `(!` opens a reference when a `)` follows
later, something stands before that `)`, and the character before `(!` is not another `(`.
-/

namespace LayeredConfig

namespace Template

/-- A piece of a raw value: text as it is written, or what stands between `(!` and `)`. -/
inductive Span
  | literal (text : List Char)
  | reference (body : List Char)
deriving DecidableEq, Repr

/-- Where a scan stands: in literal text, with the information whether the last character was an
opening parenthesis, or inside a reference. -/
inductive ScanState
  | text (afterParen : Bool)
  | body

/-- Whether what follows `(!` makes it a reference: a `)` comes later, but not at once. -/
def closes (cs : List Char) : Bool :=
  cs.head? != some ')' && cs.contains ')'

/-- Puts a character in front of some spans, as part of the literal there if they start with one.
-/
def consLiteral (c : Char) : List Span → List Span
  | .literal text :: spans => .literal (c :: text) :: spans
  | spans => .literal [c] :: spans

/-- The spans of a raw value. -/
def scan : ScanState → List Char → List Span
  | _, [] => []
  | .body, c :: cs => if c = ')' then scan (.text false) cs else scan .body cs
  | .text false, '(' :: '!' :: cs =>
    if closes cs then .reference (cs.takeWhile (· != ')')) :: scan .body cs
    else consLiteral '(' (consLiteral '!' (scan (.text false) cs))
  | .text _, c :: cs => consLiteral c (scan (.text (c = '(')) cs)

/-- The fragment that a span stands for. -/
def Span.toFragment : Span → Except EmptySegment Fragment
  | .literal text => .ok (.literal (String.ofList (Fragment.unescape text)))
  | .reference body => (Reference.parse (String.ofList body)).map .reference

/-- Reads a raw value. One without references is a plain text. -/
def parse (raw : String) : Except EmptySegment Scalar :=
  ((scan (.text false) raw.toList).mapM Span.toFragment).map fun fragments =>
    Template.collapse { fragments }

end Template

end LayeredConfig

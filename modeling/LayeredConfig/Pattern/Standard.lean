import LayeredConfig.Pattern.Engine
import LayeredConfig.Pattern.Match
import LayeredConfig.Pattern.Parse

/-!
# The standard engine

The engine that the program runs with reads a pattern with `Pattern.parse` and searches a text with
`Pattern.isMatch`. Of the properties of characters it knows those that it has tables for: decimal
digits, white space, ASCII, and the property of all characters.
-/

namespace LayeredConfig

namespace Pattern.PropertyTable

/-- The name of a property in its plainest form: lower case, and without separators and the word
`is` before it. -/
def plainName (name : List Char) : String :=
  let letters := (name.filter fun c => c != '_' && c != '-' && c != ' ').map Char.toLower
  String.ofList <| match name.map Char.toLower with
    | 'i' :: 's' :: _ => letters.drop 2
    | _ => letters

/-- A property of characters, by its plain name. -/
def property? : (name : String) → Option CharSet
  | "nd" | "digit" | "decimalnumber" => some .digit
  | "space" | "wspace" | "whitespace" => some .space
  | "ascii" => some (.range '\x00' '\x7f')
  | "any" => some (.complement .empty)
  | _ => none

/-- The properties of the standard engine. Letters lose their case before a property is negated. -/
def standard : PropertyTable := fun name anyCase negated =>
  (property? (plainName name.toList)).map fun set =>
    let set := if anyCase then set.anyCase else set
    if negated then set.complement else set

end Pattern.PropertyTable

/-- The engine that the program runs with. -/
def PatternEngine.standard : PatternEngine where
  compile text := (Pattern.parse .standard text).map fun p => { isMatch := p.isMatch }

end LayeredConfig

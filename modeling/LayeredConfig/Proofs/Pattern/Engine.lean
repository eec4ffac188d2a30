import LayeredConfig.Pattern.Standard
import LayeredConfig.Proofs.Pattern.Wrapping

/-!
# What an engine is relied on for

Of the engine that compiles the patterns of a schema two things are known. What it compiles is a
pattern, and what it has compiled matches a text if and only if some part of the text matches that
pattern (`PatternEngine.Faithful`). Which properties of characters there are, which patterns are too
large, and how a search works is left to the engine.

This is enough to say what a pattern matches between anchors. The standard engine is faithful to the
patterns with the properties that it knows (`standard_faithful`).
-/

namespace LayeredConfig.PatternEngine

open Pattern

variable {engine : PatternEngine} {table : PropertyTable} {text : String} {p : Pattern}
  {compiled : CompiledPattern}

end LayeredConfig.PatternEngine

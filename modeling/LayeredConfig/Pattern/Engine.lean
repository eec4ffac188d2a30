import LayeredConfig.Pattern.Error

/-!
# Pattern engines

What a pattern matches is left to an engine. Schemas and predicates ask two things of it: to compile
the text of a pattern, and then whether a text has a part that matches.
-/

namespace LayeredConfig

/-- A pattern that an engine has compiled. -/
structure CompiledPattern where
  /-- Whether some part of a text matches. -/
  isMatch : (text : String) → Bool

/-- An engine for patterns. -/
structure PatternEngine where
  /-- Compiles the text of a pattern, unless it is none or takes too much room. -/
  compile : (text : String) → Except PatternError CompiledPattern

end LayeredConfig

/-!
# Errors in patterns

The reasons for which a text is no pattern, and how each is put in words.
-/

namespace LayeredConfig

/-- Why a text is no pattern. -/
inductive PatternError
  | unexpectedEnd
  | unclosedGroup
  | unopenedGroup
  | unclosedClass
  | badClassItem
  | badClassRange
  | nothingToRepeat
  | badRepetition
  | badEscape
  | backreference
  | lookAround
  | badGroupName
  | duplicateGroupName
  | badFlags
  | unknownProperty
  | notUnicode
  | tooNested
  | tooLarge
deriving DecidableEq, Repr

/-- What is wrong with a pattern, in words. -/
def PatternError.message : PatternError → String
  | .unexpectedEnd => "the pattern ends too early"
  | .unclosedGroup => "unclosed group"
  | .unopenedGroup => "unopened group"
  | .unclosedClass => "unclosed character class"
  | .badClassItem => "no set of characters in a character class"
  | .badClassRange => "invalid character class range"
  | .nothingToRepeat => "a repetition without anything to repeat"
  | .badRepetition => "invalid repetition count"
  | .badEscape => "unrecognized escape sequence"
  | .backreference => "backreferences are not supported"
  | .lookAround => "look-around is not supported"
  | .badGroupName => "invalid group name"
  | .duplicateGroupName => "duplicate group name"
  | .badFlags => "invalid flags"
  | .unknownProperty => "unknown property of characters"
  | .notUnicode => "the pattern can match a part of a character"
  | .tooNested => "the pattern is nested too deeply"
  | .tooLarge => "the pattern is too large"

end LayeredConfig

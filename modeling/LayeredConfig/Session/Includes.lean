import LayeredConfig.Session.Parse

/-!
# What a document includes

A parse asks its file system for the documents that commands name. They can be told from the text
alone, so that a file system can be gathered before the parse begins.
-/

namespace LayeredConfig.Session

/-- The path that an item includes a document from, if it is a command that does so. -/
def includeTarget? (path : String) : Item → Option String
  | .command name argument =>
    (grantsWriting? name).map fun _ => Path.join (Path.parent path) argument
  | _ => none

/-- The paths that the document at `path` includes documents from. -/
def includeTargets (mode : Mode) (path text : String) : List String :=
  let source := String.ofList (Text.normalizeNewlines text.toList)
  (Document.read mode source).items.filterMap fun placed => includeTarget? path placed.item

end LayeredConfig.Session

import LayeredConfig.CommandLine
import LayeredConfig.Pattern.Standard
import LayeredConfig.Session.Includes

/-!
# The program

The program gathers the files that a configuration and its schema are made of, and leaves the rest
to `CommandLine.run`.
-/

namespace LayeredConfig.Main

/-- The files that have been gathered: where paths lead, and what is there. -/
structure Gathered where
  canonical : OrderedMap (Except FileError String) := ∅
  contents : OrderedMap (Except FileError String) := ∅

/-- The gathered files as a file system. -/
def Gathered.toFileSystem (files : Gathered) : FileSystem :=
  { canonicalize := fun path => (files.canonical.get? path).getD (.error .notFound)
    contents := files.contents }

/-- The error that the system reports, as far as it has a name here. -/
def fileError : IO.Error → FileError
  | .noFileOrDirectory .. => .notFound
  | .inappropriateType _ code _ => if code = 21 then .isDirectory else .notDirectory
  | e => .other (toString e)

/-- Runs an action of the system. -/
def attempt (action : IO α) : IO (Except FileError α) := do
  try
    return .ok (← action)
  catch e =>
    return .error (fileError e)

/-- The canonical path of a path. -/
def canonicalPath (path : String) : IO (Except FileError String) := do
  if path.toList.contains '\x00' then return .error .nulInName
  if path.isEmpty then return .error .notFound
  attempt do return (← IO.FS.realPath path).toString

/-- The text of the file at a path. -/
def fileText (path : String) : IO (Except FileError String) := do
  match ← attempt (IO.FS.readBinFile path) with
  | .error e => return .error e
  | .ok bytes =>
    match String.fromUTF8? bytes with
    | some text => return .ok text
    | none => return .error .notUtf8

/-- Gathers the documents at some paths and those that they include. -/
partial def gather (mode : Mode) (files : Gathered) : (paths : List String) → IO Gathered
  | [] => return files
  | path :: paths => do
    if files.canonical.contains path then return ← gather mode files paths
    let canonical ← canonicalPath path
    let files := { files with canonical := files.canonical.insert path canonical }
    match canonical with
    | .error _ => gather mode files paths
    | .ok target =>
      let text ← fileText target
      let files := { files with contents := files.contents.insert target text }
      let more := match text with
        | .ok text => Session.includeTargets mode target text
        | .error _ => []
      gather mode files (more ++ paths)

/-- Gathers a document and those that it includes, if there is one to gather. -/
def gatherFrom (mode : Mode) (path : Option String) : IO Gathered :=
  gather mode {} path.toList

/-- The files of two gatherings. -/
def Gathered.union (a b : Gathered) : Gathered :=
  { canonical := .ofList (a.canonical.toList ++ b.canonical.toList)
    contents := .ofList (a.contents.toList ++ b.contents.toList) }

end LayeredConfig.Main

/-- Resolves a configuration and writes it as JSON. -/
def main (args : List String) : IO UInt32 := do
  let options := LayeredConfig.CommandLine.Options.ofArgs? args
  let configFiles ← LayeredConfig.Main.gatherFrom .config (options.map (·.config))
  let schemaFiles ← LayeredConfig.Main.gatherFrom .schema (options.bind (·.schema))
  let files := configFiles.union schemaFiles
  let outcome := LayeredConfig.CommandLine.run files.toFileSystem .standard args
  IO.print outcome.stdout
  IO.eprint outcome.stderr
  return UInt32.ofNat outcome.exitCode

import RowTypes.CommandLine.Session

/-! The program. The files below the working directory become a tree, the session is run
on it, and the texts that it has changed are written back. No server is looked for
here, and git is taken to have nothing to say. -/

namespace RowTypes.Main

def variableNames : List String :=
  ["CONNECTION_STRING", "ROOT_DIR", "INCLUDE", "EXCLUDE", "SINCE", "CHECK_CLEAN", "LAZY",
    "DEFAULT_TYPE", "DATABASE__CONNECTION_TIMEOUT", "DATABASE__STATEMENT_TIMEOUT",
    "DATABASE__DESCRIBE_CONCURRENCY", "LOG__LEVEL", "LOG__FORMAT"].map ("TYPEGEN_" ++ ·)

def environment : IO Environment.Variables :=
  variableNames.filterMapM fun name => do
    return (← IO.getEnv name).map fun text => (name, text)

def maxDepth : Nat := 64

def readBelow : Nat → String → List IO.FS.DirEntry → FileTree → IO FileTree
  | 0, _, _, t => return t
  | levels + 1, dir, entries, t =>
    entries.foldlM (fun t entry => do
      let path := if dir = "" then entry.fileName else Path.join dir entry.fileName
      if ← entry.path.isDir then
        readBelow levels path (← entry.path.readDir).toList (t.makeDirectories path)
      else
        let content := Content.ofBytes (← IO.FS.readBinFile entry.path)
        return (t.put path content).toOption.getD t) t

def texts (t : FileTree) : List (String × String) :=
  t.entries.filterMap fun (l, e) =>
    match e with
    | .file (.text s) _ =>
      some (String.intercalate "/" (l.drop t.workingDirectory.length), s)
    | _ => none

def writeChanges (before after : FileTree) : IO Unit := do
  let here ← IO.currentDir
  let old := texts before
  for (path, text) in texts after do
    if old.lookup path ≠ some text then
      IO.FS.createDirAll (here / (Path.parent? path).getD "")
      IO.FS.writeFile (here / path) text

end RowTypes.Main

open RowTypes in
def main (args : List String) : IO UInt32 := do
  let entries ← (← IO.currentDir).readDir
  let t ← Main.readBelow Main.maxDepth "" entries.toList (.empty ["work"] 0o022)
  let s := CommandLine.Session.run args (← Main.environment) (.quiet .unreachable false)
    ⟨t, [], .empty⟩
  Main.writeChanges t s.world.tree
  IO.print s.output
  IO.eprint s.errorOutput
  return s.exitCode.toUInt32

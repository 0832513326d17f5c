import SchemaDump.CommandLine.Run

/-! The program: a run on the part of the file system that it concerns. Of what the operating system
refuses it knows beforehand what may not be read, and meets the rest when it writes. -/
namespace SchemaDump.Program

open CommandLine

/-- Why what has this name cannot be opened for reading. -/
def failure? (name : String) : IO (Option IO.Error) := do
  try
    IO.FS.withFile name .read fun _ => return none
  catch e => return some e

/-- What stands at a path, and whether it may not be read. The dot below a folder is there; below a
file there is none. -/
def node? (p : Path) : IO (Option (Node × Bool)) := do
  let name := String.ofList p.render
  match ← failure? (name ++ "/.") with
  | none => return some (.folder, false)
  | some (.permissionDenied ..) => return some (.folder, true)
  | some _ =>
    match ← failure? name with
    | none => return some (.file [], false)
    | some (.permissionDenied ..) => return some (.file [], true)
    | some _ => return none

/-- The paths on the way to `p`, and `p`. -/
def way (p : Path) : List Path := (List.range p.length).map fun n => p.take (n + 1)

/-- The file tree at the given paths, with the content of the file at `source` alone. -/
def load (source : Path) (paths : List Path) : IO Tree := do
  let mut tree : Tree := {}
  for p in paths do
    if let some (n, closed) ← node? p then
      tree := tree.put p n
      if closed then
        tree := { tree with refusals := ((.read, p), .denied) :: tree.refusals }
  if (tree.read source).isOk then
    let content ← IO.FS.readBinFile (String.ofList source.render)
    tree := tree.put source (.file content.toList)
  return tree

/-- Makes what a run has added to the tree, in the order in which it did. -/
def store (before after : Tree) : IO Unit := do
  for (p, n) in after.nodes.reverse do
    if before.get? p ≠ some n then
      let name := String.ofList p.render
      match n with
      | .folder => IO.FS.createDir name
      | .file content => IO.FS.writeBinFile name ⟨content.toArray⟩

/-- Runs with the options. What the run writes where nothing is known to stand tells which paths
it concerns. -/
def run (o : Options) (base : Path) : IO (Option Outcome) := do
  match Path.resolve? base o.file, Path.resolve? base o.directory with
  | some file, some out =>
    let known := way file ++ way out ++ Kind.all.map fun k => out ++ [k.folder]
    let first := process o file out (← load file known)
    let tree ← load file (known ++ first.tree.nodes.map Prod.fst)
    let outcome := run? o base tree
    outcome.forM fun r => store tree r.tree
    return outcome
  | _, _ => return none

def print (elapsed : String) (r : Outcome) : IO UInt32 := do
  r.output.forM IO.println
  r.log.forM fun line => IO.eprintln (line.render elapsed)
  return UInt32.ofNat r.status

end SchemaDump.Program

open SchemaDump SchemaDump.CommandLine in
def main (arguments : List String) : IO UInt32 := do
  let start ← IO.monoMsNow
  let base := (Path.resolve? [] (← IO.currentDir).toString.toList).getD []
  let outcome ← match Options.parse (arguments.map String.toList) with
    | .error stop => pure (some (stopped {} stop))
    | .ok o => Program.run o base
  let elapsed := Report.duration (.whole ((← IO.monoMsNow) - start : Nat))
  match outcome with
  | some r => Program.print (String.ofList (elapsed.toOption.getD [])) r
  | none => return 1

import Arbor.Command.Program

/-!
# The executable

The files and outputs of the computer, for the program to run with.
-/

namespace Arbor.Cli

def FileCause.ofError : IO.Error → FileCause
  | .noFileOrDirectory .. => .notFound
  | .alreadyExists .. => .exists_
  | .inappropriateType _ code text =>
    if code.toNat = 20 then .notDirectory else .other code.toNat text
  | .permissionDenied _ code text => .other code.toNat text
  | .resourceExhausted _ code text => .other code.toNat text
  | error => .other 5 error.toString

/-- An attempt at a path, which must not hold the null character. -/
def attemptAt (path : String) (act : IO α) : ExceptT Fault IO α := do
  if path.toList.contains '\x00' then throw .nulInPath
  match ← act.toBaseIO with
  | .ok a => return a
  | .error error => throw (.refused (FileCause.ofError error) path)

/-- The part of a path before its last slash. -/
def parentOf (path : String) : String :=
  String.ofList ((path.toList.reverse.dropWhile (· != '/')).drop 1).reverse

def makeParents (path : String) : ExceptT Fault IO Unit :=
  attemptAt path do
    if !path.isEmpty then IO.FS.createDirAll path

/-- Writes a text to the file at a path, once the file is open. -/
def writeContents (path : String) (contents : LooseText) : ExceptT Fault IO Unit := do
  let handle ← attemptAt path (IO.FS.Handle.mk path .write)
  let bytes ← MonadExcept.ofExcept (Utf8.encode contents)
  let written : IO Unit := do
    handle.write ⟨bytes.toArray⟩
    handle.flush
  match ← written.toBaseIO with
  | .ok _ => return
  | .error error => throw (.notWritten (FileCause.ofError error))

/-- Lone surrogates are printed as escapes. -/
instance : Console (ExceptT Fault IO) where
  readFile path := do
    let bytes ← attemptAt path (IO.FS.readBinFile path)
    return bytes.toList
  writeFile path contents := do
    makeParents (parentOf path)
    writeContents path contents
  print text := IO.print text.escaped
  warn text := IO.eprint text.escaped

def runProgram (words : List String) : IO UInt32 := do
  match readInvocation words with
  | .error halt =>
    let report := Report.ofHalt halt
    IO.print report.stdout.escaped
    IO.eprint report.stderr.escaped
    match report.exit with
    | .code n => return n.toUInt32
    | .unhandled _ => return 1
  | .ok invocation =>
    match ← (invocation.run : ExceptT Fault IO Nat).run with
    | .ok code => return code.toUInt32
    | .error fault =>
      IO.eprintln fault.wording
      return 1

end Arbor.Cli

def main (words : List String) : IO UInt32 := Arbor.Cli.runProgram words

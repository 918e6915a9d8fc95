import ClassForge.Demo
import ClassForge.Report

/-!
The command line: `inspect` prints a class file, `roundtrip` checks that writing gives back what was
read, and `demo` assembles a small class.
-/

namespace ClassForge.Main

def usage : String :=
  "Read, check, and assemble JVM class files\n\n" ++
  "Usage:\n" ++
  "  inspect INPUT\n" ++
  "  roundtrip INPUT\n" ++
  "  demo --output-class CLASS_NAME [--output PATH]"

def readBytes (path : String) : IO (List UInt8) := do
  return (← IO.FS.readBinFile path).toList

/-- Ends the program with an error. -/
def fail (e : Error) : IO UInt32 := do
  IO.eprintln ("Error: " ++ e.outline.line)
  return 1

def inspect (path : String) : IO UInt32 := do
  let outcome := Report.inspect (← readBytes path)
  outcome.lines.forM IO.println
  match outcome.fault with
  | none => return 0
  | some e => fail (.malformed e)

def roundTrip (path : String) : IO UInt32 := do
  match Report.roundTrip (← readBytes path) with
  | .error e => fail (.malformed e)
  | .ok .same => return 0
  | .ok (.differs ..) => return 1

/-- The directory part of a path, if it has one. -/
def parent? (path : String) : Option String :=
  match path.toList.reverse.dropWhile (· ≠ '/') with
  | [] => none
  | _ :: rest => some (String.ofList rest.reverse)

def save (path : String) (bytes : List UInt8) : IO Unit := do
  match parent? path with
  | some directory => IO.FS.createDirAll directory
  | none => pure ()
  IO.FS.writeBinFile path (ByteArray.mk bytes.toArray)

def demo (name path : String) : IO UInt32 := do
  match Demo.classFile name with
  | .error e => fail e
  | .ok c =>
    save path c.write
    return 0

end ClassForge.Main

def main (args : List String) : IO UInt32 :=
  match args with
  | ["inspect", path] => ClassForge.Main.inspect path
  | ["roundtrip", path] => ClassForge.Main.roundTrip path
  | ["demo", "--output-class", name] => ClassForge.Main.demo name (name ++ ".class")
  | ["demo", "--output-class", name, "--output", path]
  | ["demo", "--output", path, "--output-class", name] => ClassForge.Main.demo name path
  | _ => do
    IO.eprintln ClassForge.Main.usage
    return 2

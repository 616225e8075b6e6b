import LlvmAsm.Pipeline

/-!
# The command line

The program takes `[--check] [--log-level LEVEL] [FILE]`. It reads a module from `FILE`, or from
standard input when no file is given, and prints its canonical text. With `--check` it only reads
and checks the module. A failure is reported on standard error as `error: SOURCE: MESSAGE`,
`SOURCE` being the file or `<stdin>`, and the exit status is 1; running out of implicit local
numbers stops the program with status 101.
-/

namespace LlvmAsm.Cli

/-- What the command line asks for. -/
structure Options where
  check : Bool := false
  input : Option String := none

/-- Reads the arguments; the log level is accepted and has no effect here. -/
def Options.ofArgs : List String → Options → Except String Options
  | [], o => .ok o
  | "--check" :: rest, o => Options.ofArgs rest { o with check := true }
  | "--log-level" :: _ :: rest, o => Options.ofArgs rest o
  | arg :: rest, o =>
    if arg.startsWith "-" then .error ("unexpected argument '" ++ arg ++ "'")
    else if o.input.isSome then .error ("unexpected argument '" ++ arg ++ "'")
    else Options.ofArgs rest { o with input := some arg }

/-- The name a failure report gives the input. -/
def Options.source (o : Options) : String := o.input.getD "<stdin>"

/-- The text to print for an input, or the failure. -/
def Options.run (o : Options) (text : String) : Except IrError String :=
  if o.check then (checkModule text).map fun _ => "" else formatModule text

end LlvmAsm.Cli

/-- Reads the input, runs the pipeline and reports the outcome. -/
def main (args : List String) : IO UInt32 := do
  match LlvmAsm.Cli.Options.ofArgs args {} with
  | .error msg =>
    IO.eprintln ("error: " ++ msg)
    return 2
  | .ok o =>
    let text ← match o.input with
      | some path => IO.FS.readFile path
      | none => (← IO.getStdin).readToEnd
    match o.run text with
    | .ok out =>
      IO.print out
      return 0
    | .error .idsExhausted =>
      IO.eprintln ("panicked: " ++ LlvmAsm.IrError.idsExhausted.message)
      return 101
    | .error e =>
      IO.eprintln ("error: " ++ o.source ++ ": " ++ e.message)
      return 1

import Pipewright.CommandLine
import Pipewright.Compilation
import Pipewright.ParseTree.Outline
import Pipewright.Program.Printer

set_option autoImplicit false

namespace Pipewright.CommandLine

inductive ReadError where
  | notFound
  | isDirectory
  | notUtf8
  | other (reason : String)
deriving DecidableEq

def ReadError.message : ReadError → String
  | .notFound => "No such file or directory (os error 2)"
  | .isDirectory => "Is a directory (os error 21)"
  | .notUtf8 => "stream did not contain valid UTF-8"
  | .other reason => reason

def decode (bytes : ByteArray) : Except ReadError String :=
  match String.fromUTF8? bytes with
  | some text => .ok text
  | none => .error .notUtf8

structure Outcome where
  exitCode : UInt8
  stdout : String
  stderr : String
deriving DecidableEq

def tokenLine (token : Token) : String :=
  token.span.toString ++ " " ++ token.toString ++ "\n"

def Invocation.output (invocation : Invocation) (compilation : Compilation) : Lowered String :=
  match invocation.emit with
  | .tokens =>
      .ok (String.join ((compilation.tokens.filter fun token => token.kind ≠ .eof).map tokenLine))
  | .cst => .ok (compilation.tree.outline.render 0 ++ "\n")
  | .ast => Program.toString <$> compilation.lower
  | .estree => do
      let program ← compilation.toJavaScript
      let json := program.toJson
      .ok ((if invocation.compact then json.compact else json.pretty) ++ "\n")

/-- Compiles a text. Errors end the run before any output, unless it is told to keep going. -/
def Invocation.run (invocation : Invocation) (text : String) : Outcome :=
  let compilation := compile invocation.file text
  let diagnostics := compilation.diagnostics text
  let notes := String.join (diagnostics.map (· ++ "\n\n"))
  if !diagnostics.isEmpty && !invocation.keepGoing then ⟨1, "", notes⟩
  else
    match invocation.output compilation with
    | .ok output => ⟨0, output, notes⟩
    | .error error => ⟨1, "", notes ++ error.fullMessage text ++ "\n"⟩

def Invocation.runOn (invocation : Invocation) (content : Except ReadError ByteArray) : Outcome :=
  match content.bind decode with
  | .ok text => invocation.run text
  | .error error => ⟨1, "", "cannot read " ++ invocation.file ++ ": " ++ error.message ++ "\n"⟩

-- The words of the help and of a usage error are not the command's own, and are left out.
def Stop.outcome : Stop → Outcome
  | .version => ⟨0, "dwc 0.1.0\n", ""⟩
  | .help => ⟨0, "", ""⟩
  | .usage _ => ⟨2, "", ""⟩

def perform {m : Type → Type} [Monad m] (read : String → m (Except ReadError ByteArray))
    (arguments : List String) : m Outcome :=
  match Invocation.ofArguments arguments with
  | .ok invocation => invocation.runOn <$> read invocation.file
  | .error stop => pure stop.outcome

end Pipewright.CommandLine

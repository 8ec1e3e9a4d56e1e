set_option autoImplicit false

namespace Pipewright.CommandLine

inductive Emit where
  | tokens | cst | ast | estree
deriving DecidableEq

def Emit.ofString? : String → Option Emit
  | "tokens" => some .tokens
  | "cst" => some .cst
  | "ast" => some .ast
  | "estree" => some .estree
  | _ => none

structure Invocation where
  file : String
  emit : Emit
  compact : Bool
  keepGoing : Bool
deriving DecidableEq

inductive UsageError where
  | missingFile
  | emptyFile
  | secondFile (file : String)
  | unknownOption (option : String)
  | missingValue (option : String)
  | unknownValue (value : String)
  | needlessValue (option : String)
  | repeated (option : String)
deriving DecidableEq

inductive Stop where
  | version
  | help
  | usage (error : UsageError)
deriving DecidableEq

inductive Argument where
  | word (text : String)
  | short (letters : List Char)
  | long (name : String) (value : Option String)
  | endOfOptions

def Argument.ofString (argument : String) : Argument :=
  match argument.toList with
  | ['-'] => .word argument
  | ['-', '-'] => .endOfOptions
  | '-' :: '-' :: option =>
      match option.dropWhile (· != '=') with
      | [] => .long (String.ofList option) none
      | _ :: value =>
          .long (String.ofList (option.takeWhile (· != '='))) (some (String.ofList value))
  | '-' :: letters => .short letters
  | _ => .word argument

/-- What the next argument may be: an option or a file, the value of `--emit`, or a file only. -/
inductive Mode where
  | options | value | files
deriving DecidableEq

structure Settings where
  mode : Mode
  file : Option String
  emit : Option Emit
  compact : Bool
  keepGoing : Bool

namespace Settings

def initial : Settings :=
  ⟨.options, none, none, false, false⟩

def setFile (settings : Settings) (file : String) : Except Stop Settings :=
  if settings.file.isSome then .error (.usage (.secondFile file))
  else if file.isEmpty then .error (.usage .emptyFile)
  else .ok { settings with file := some file }

def setEmit (settings : Settings) (value : String) : Except Stop Settings :=
  match Emit.ofString? value with
  | none => .error (.usage (.unknownValue value))
  | some emit =>
      if settings.emit.isSome then .error (.usage (.repeated "--emit"))
      else .ok { settings with mode := .options, emit := some emit }

def setCompact (settings : Settings) : Except Stop Settings :=
  if settings.compact then .error (.usage (.repeated "--compact"))
  else .ok { settings with compact := true }

def setKeepGoing (settings : Settings) : Except Stop Settings :=
  if settings.keepGoing then .error (.usage (.repeated "--keep-going"))
  else .ok { settings with keepGoing := true }

def takeLong (settings : Settings) (name : String) (value : Option String) : Except Stop Settings :=
  match name, value with
  | "emit", none => .ok { settings with mode := .value }
  | "emit", some value => settings.setEmit value
  | "compact", none => settings.setCompact
  | "keep-going", none => settings.setKeepGoing
  | "version", none => .error .version
  | "help", none => .error .help
  | "compact", some _ | "keep-going", some _ | "version", some _ | "help", some _ =>
      .error (.usage (.needlessValue name))
  | _, _ => .error (.usage (.unknownOption name))

def takeOption (settings : Settings) : Argument → Except Stop Settings
  | .word file => settings.setFile file
  | .short ('V' :: _) => .error .version
  | .short ('h' :: _) => .error .help
  | .short letters => .error (.usage (.unknownOption (String.ofList letters)))
  | .long name value => settings.takeLong name value
  | .endOfOptions => .ok { settings with mode := .files }

def takeValue (settings : Settings) : Argument → Except Stop Settings
  | .word value => settings.setEmit value
  | .short _ | .long _ _ | .endOfOptions => .error (.usage (.missingValue "--emit"))

def take (settings : Settings) (argument : String) : Except Stop Settings :=
  match settings.mode with
  | .options => settings.takeOption (.ofString argument)
  | .value => settings.takeValue (.ofString argument)
  | .files => settings.setFile argument

def finish (settings : Settings) : Except Stop Invocation :=
  match settings.mode, settings.file with
  | .value, _ => .error (.usage (.missingValue "--emit"))
  | _, none => .error (.usage .missingFile)
  | _, some file => .ok ⟨file, settings.emit.getD .estree, settings.compact, settings.keepGoing⟩

end Settings

/-- Arguments are taken from left to right; the first that is wrong, or asks for the version or
for help, decides. -/
def Invocation.ofArguments (arguments : List String) : Except Stop Invocation := do
  let settings ← arguments.foldlM Settings.take .initial
  settings.finish

end Pipewright.CommandLine

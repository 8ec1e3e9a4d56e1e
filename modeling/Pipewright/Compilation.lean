import Pipewright.JavaScript.Target
import Pipewright.ParseTree.Reader
import Pipewright.Program.Lowering
import Pipewright.Token.Lexer

set_option autoImplicit false

namespace Pipewright

structure Compilation where
  source : String
  tokens : List Token
  tree : ParseTree.Program
  lexErrors : List (Located LexError)
  parseErrors : List (Located ParseError)

def compile (source text : String) : Compilation :=
  let lexed := tokenize source text
  let parsed := ParseTree.parse lexed.tokens
  ⟨source, lexed.tokens, parsed.program, lexed.errors, parsed.errors⟩

namespace Compilation

def hasErrors (compilation : Compilation) : Bool :=
  !compilation.lexErrors.isEmpty || !compilation.parseErrors.isEmpty

def lower (compilation : Compilation) : Lowered Program :=
  compilation.tree.lower compilation.source

def toJavaScript (compilation : Compilation) : Lowered JavaScript.Program :=
  Program.toJavaScript <$> compilation.lower

/-- The full messages of all errors, by their starts; of two with one start that of the lexer is
the first. -/
def diagnostics (compilation : Compilation) (text : String) : List String :=
  let all := compilation.lexErrors.map (fun error => (error.span.start, error.fullMessage text)) ++
    compilation.parseErrors.map (fun error => (error.span.start, error.fullMessage text))
  (all.mergeSort fun a b => a.1 ≤ b.1).map (·.2)

end Compilation

def exchange {α : Type} (xs : List α) (i j : Nat) : List α :=
  match xs[i]?, xs[j]? with
  | some x, some y => (xs.set i y).set j x
  | _, _ => xs

inductive Edit where
  | recompile (source text : String)
  | append (source text : String)
  | remove (index : Nat)
  | swap (i j : Nat)
  | clearErrors
  | reparse (start stop : Nat)

namespace Compilation

def withStatements (compilation : Compilation)
    (change : List ParseTree.Statement → List ParseTree.Statement) : Compilation :=
  { compilation with
    tree := { compilation.tree with statements := change compilation.tree.statements } }

/-- Appended statements and errors follow those that are there; the source and the tokens stay. -/
def edit (compilation : Compilation) : Edit → Compilation
  | .recompile source text => compile source text
  | .append source text =>
      let other := compile source text
      { compilation.withStatements (· ++ other.tree.statements) with
        lexErrors := compilation.lexErrors ++ other.lexErrors
        parseErrors := compilation.parseErrors ++ other.parseErrors }
  | .remove index => compilation.withStatements (·.eraseIdx index)
  | .swap i j => compilation.withStatements (exchange · i j)
  | .clearErrors => { compilation with lexErrors := [], parseErrors := [] }
  | .reparse start stop =>
      let parsed := ParseTree.parse ((compilation.tokens.take stop).drop start)
      { compilation with tree := parsed.program, parseErrors := parsed.errors }

end Compilation

end Pipewright

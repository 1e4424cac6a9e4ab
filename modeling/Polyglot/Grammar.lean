/-
Grammars as the ranking meets them: each language's grammar may be refused when it is loaded, and
parsing a sample with it gives a tree, nothing, or a crash.
-/
import Polyglot.Failure
import Polyglot.Language
import Polyglot.SyntaxTree.Basic
import Polyglot.Text.Utf8

namespace Polyglot

/-- What becomes of parsing a sample. -/
inductive Parse where
  | tree (tree : SyntaxTree)
  | nothing
  | crash (crash : Crash)

/-- The grammars of all languages. -/
structure Grammars where
  /-- The version of the language's grammar, if it is one that cannot be loaded. -/
  refusal : Language → Option Nat
  /-- Parsing a sample with the language's grammar. -/
  parse : Language → List Char → Parse

namespace Grammars

/-- Grammars that accept every sample as a whole. -/
def lenient : Grammars where
  refusal _ := none
  parse _ sample := .tree (.node .clean 0 (Text.Utf8.size sample) [])

/-- Why there are no trees to rank by. -/
inductive Failure where
  | refused (language : Language) (version : Nat)
  | noTree (language : Language)
  deriving DecidableEq, Repr

/-- The failure in words. -/
def Failure.message : Failure → String
  | .refused language version =>
    "cannot load " ++ language.name ++ " grammar: Incompatible language version " ++
      toString version ++ ". Expected minimum 13, maximum 15"
  | .noTree language => language.name ++ " parser returned no tree"

/-- The first of the languages whose grammar is refused. -/
def firstRefusal (g : Grammars) : List Language → Option Failure
  | [] => none
  | l :: rest =>
    match g.refusal l with
    | some version => some (.refused l version)
    | none => firstRefusal g rest

end Grammars

end Polyglot

/-
The rules: for each language that is guessed at, patterns with their weights. A positive weight
speaks for the language and makes it a candidate, a negative one speaks against it.
-/
import Polyglot.Pattern.Basic

namespace Polyglot

/-- A pattern and what its occurrence weighs. -/
structure Rule where
  pattern : Pattern
  weight : Int
  deriving Repr

namespace Rule

open Pattern

/-! ## Pieces of patterns -/

/-- One of the given characters. -/
def anyOf (characters : String) : Pattern := one (.of characters)

/-- One character that is none of those given. -/
def noneOf (characters : String) : Pattern := one (.except (.of characters))

/-- One character that is not blank. -/
def visible : Pattern := one (.except .blank)

/-- At least one character that is a word character or one of those given. -/
def nameWith (characters : String) : Pattern := oneOrMore (one (.union .word (.of characters)))

/-- The rest of a line, or a part of it. -/
def line : Pattern := many (one .inLine)

/-- Something in angle brackets. -/
def angled : Pattern := seq [text "<", many (noneOf ">"), text ">"]

/-- One hexadecimal digit. -/
def hexDigit : Pattern :=
  one (.union (.between '0' '9') (.union (.between 'a' 'f') (.between 'A' 'F')))

/-! ## The rules of each language -/

def typescript : List Rule := [
  ⟨seq [text ":", gap, oneText ["string", "number", "boolean", "any", "void", "unknown"], wordEdge],
    4⟩,
  ⟨seq [wordEdge, text "interface", space, name, gap, maybe angled, gap, text "\x7b"], 3⟩,
  ⟨seq [wordEdge, text "type", space, name, gap, text "="], 3⟩,
  ⟨seq [wordEdge, oneText ["let", "const"], space, name, gap, text ":", gap, name], 3⟩,
  ⟨seq [wordEdge, text "export", space, maybe (seq [text "default", space]), oneText ["class",
    "function", "const", "interface"], wordEdge], 1⟩,
  ⟨seq [wordEdge, text "import", space, line, wordEdge, text "from", space, anyOf "'\""], 1⟩]

def javascript : List Rule := [
  ⟨seq [wordEdge, oneText ["const", "let", "var"], space, name, gap, text "="], 2⟩,
  ⟨seq [wordEdge, text "function", gap, many (one .word), gap, text "("], 2⟩,
  ⟨text "=>", 1⟩,
  ⟨seq [text "console.", oneText ["log", "error", "warn"], text "("], 3⟩,
  ⟨seq [wordEdge, text "require(", anyOf "'\""], 3⟩,
  ⟨text "module.exports", 3⟩,
  ⟨seq [wordEdge, text "document.", name], 2⟩]

def python : List Rule := [
  ⟨seq [lineStart, gap, text "def", space, name, gap, text "(", line, text ")", gap,
    maybe (seq [text "->", gap, nameWith "[], ."]), gap, text ":"], 5⟩,
  ⟨seq [lineStart, gap, oneText ["if", "elif", "while", "for", "with", "try", "else"], wordEdge,
    line, text ":", gap, lineEnd], 3⟩,
  ⟨seq [lineStart, gap, maybe (seq [text "from", space, nameWith ".", space]), text "import", space,
    nameWith "."], 1⟩,
  ⟨seq [wordEdge, text "print("], 2⟩,
  ⟨seq [wordEdge, text "self."], 2⟩,
  ⟨seq [wordEdge, text "None", wordEdge], 2⟩,
  ⟨seq [text "__", name, text "__"], 2⟩,
  ⟨seq [text ";", gap, lineEnd], -2⟩,
  ⟨seq [text "\x7b", gap, lineEnd], -2⟩]

def rust : List Rule := [
  ⟨seq [wordEdge, text "fn", space, name, gap, maybe angled, gap, text "("], 4⟩,
  ⟨seq [wordEdge, text "let", space, text "mut", wordEdge], 4⟩,
  ⟨seq [wordEdge, text "impl", wordEdge], 3⟩,
  ⟨seq [text "&", maybe (seq [text "mut", space]), text "self", wordEdge], 3⟩,
  ⟨seq [wordEdge, text "use", space, name, text "::"], 3⟩,
  ⟨seq [text "#[", name], 3⟩,
  ⟨seq [wordEdge, maybe (seq [text "pub", space]), oneText ["struct", "enum", "trait"], space,
    name], 2⟩,
  ⟨seq [name, text "!("], 2⟩]

def go : List Rule := [
  ⟨seq [lineStart, gap, text "package", space, name, gap, lineEnd], 4⟩,
  ⟨seq [wordEdge, text "func", space, maybe (seq [text "(", name, space, maybe (text "*"), name,
    text ")", gap]), name, gap, text "("], 5⟩,
  ⟨seq [wordEdge, text "fmt.", name], 4⟩,
  ⟨text ":=", 2⟩,
  ⟨seq [wordEdge, text "chan", wordEdge], 2⟩,
  ⟨seq [wordEdge, text "defer", wordEdge], 2⟩]

def java : List Rule := [
  ⟨seq [wordEdge, text "System.out.print"], 5⟩,
  ⟨seq [text "public", space, text "static", space, text "void", space, text "main"], 5⟩,
  ⟨seq [wordEdge, text "import", space, text "java."], 5⟩,
  ⟨seq [wordEdge, text "public", space, maybe (seq [text "static", space]),
    maybe (seq [text "final", space]), text "class", space, name], 4⟩,
  ⟨text "@Override", 3⟩,
  ⟨seq [wordEdge, oneText ["private", "protected", "public"], space, name, maybe angled, space,
    name, gap, anyOf ";=("], 2⟩]

def c : List Rule := [
  ⟨seq [text "#include", gap, text "<", name, text ".h>"], 4⟩,
  ⟨seq [wordEdge, text "printf", gap, text "("], 3⟩,
  ⟨seq [wordEdge, oneText ["malloc", "calloc", "free"], gap, text "("], 3⟩,
  ⟨seq [wordEdge, text "int", space, text "main", gap, text "("], 2⟩,
  ⟨seq [wordEdge, text "typedef", wordEdge], 2⟩,
  ⟨seq [wordEdge, text "struct", space, name, gap, text "\x7b"], 1⟩,
  ⟨text "std::", -4⟩,
  ⟨seq [wordEdge, text "class", wordEdge], -2⟩]

def cpp : List Rule := [
  ⟨seq [text "#include", gap, text "<", name, text ">"], 4⟩,
  ⟨seq [text "std::", name], 4⟩,
  ⟨seq [wordEdge, text "template", gap, text "<"], 4⟩,
  ⟨seq [wordEdge, text "namespace", space, name], 3⟩,
  ⟨seq [wordEdge, oneText ["public", "private", "protected"], text ":"], 3⟩,
  ⟨seq [wordEdge, text "nullptr", wordEdge], 3⟩]

def csharp : List Rule := [
  ⟨seq [wordEdge, text "using", space, text "System", many (seq [text ".", name]), text ";"], 5⟩,
  ⟨seq [text "Console.Write", maybe (text "Line"), text "("], 5⟩,
  ⟨seq [text "\x7b", gap, text "get;", gap, maybe (text "set;"), gap, text "\x7d"], 4⟩,
  ⟨seq [wordEdge, text "namespace", space, nameWith "."], 2⟩,
  ⟨seq [wordEdge, oneText ["public", "private", "internal"], space, maybe (seq [text "static",
    space]), maybe (seq [text "async", space]), oneText ["void", "Task", "string", "int"], space,
    name, gap, text "("], 2⟩,
  ⟨seq [wordEdge, text "var", space, name, gap, text "=", gap, text "new", wordEdge], 2⟩]

def php : List Rule := [
  ⟨text "<?php", 10⟩,
  ⟨seq [wordEdge, text "function", space, name, gap, text "(", gap, text "$"], 3⟩,
  ⟨seq [text "$", name, gap, text "="], 2⟩,
  ⟨seq [text "->", name, text "("], 1⟩,
  ⟨seq [wordEdge, text "echo", wordEdge], 1⟩]

def ruby : List Rule := [
  ⟨seq [wordEdge, text "attr_", oneText ["accessor", "reader", "writer"], wordEdge], 4⟩,
  ⟨seq [lineStart, gap, text "def", space, name, maybe (anyOf "?!"), gap, maybe (seq [text "(",
    line, text ")"]), gap, lineEnd], 3⟩,
  ⟨seq [lineStart, gap, text "end", gap, lineEnd], 3⟩,
  ⟨seq [wordEdge, text "puts", wordEdge], 3⟩,
  ⟨seq [wordEdge, text "do", gap, text "|", name], 3⟩,
  ⟨seq [wordEdge, text "require", space, anyOf "'\""], 2⟩]

def shellscript : List Rule := [
  ⟨seq [lineStart, text "#!", gap, text "/", maybe (text "usr/"), text "bin/",
    maybe (seq [text "env", space]), maybe (oneText ["ba", "z"]), text "sh", wordEdge], 10⟩,
  ⟨seq [wordEdge, text "esac", wordEdge], 3⟩,
  ⟨seq [wordEdge, text "fi", wordEdge], 2⟩,
  ⟨seq [lineStart, gap, text "echo", one .blank], 2⟩,
  ⟨seq [wordEdge, text "then", wordEdge], 1⟩,
  ⟨seq [wordEdge, text "done", wordEdge], 1⟩,
  ⟨seq [text "$", maybe (text "\x7b"), name, maybe (text "\x7d")], 1⟩]

def powershell : List Rule := [
  ⟨seq [wordEdge, oneText ["Get", "Set", "New", "Remove", "Write"], text "-",
    one (.between 'A' 'Z'), name], 5⟩,
  ⟨seq [wordEdge, text "param", gap, text "("], 3⟩,
  ⟨seq [text "-", oneText ["eq", "ne", "lt", "gt", "like"], wordEdge], 3⟩,
  ⟨seq [text "$_", wordEdge], 2⟩]

def sql : List Rule := [
  ⟨seq [wordEdge, anyCase "insert", space, anyCase "into", wordEdge], 5⟩,
  ⟨seq [wordEdge, anyCase "create", space, anyCase "table", wordEdge], 5⟩,
  ⟨seq [wordEdge, anyCase "select", wordEdge, oneOrMore (one .any), wordEdge, anyCase "from",
    wordEdge], 4⟩,
  ⟨seq [wordEdge, anyCase "update", space, name, space, anyCase "set", wordEdge], 4⟩,
  ⟨seq [wordEdge, anyCase "where", wordEdge], 1⟩]

def html : List Rule := [
  ⟨seq [anyCase "<!DOCTYPE", space, anyCase "html"], 10⟩,
  ⟨seq [text "<", oneAnyCase ["html", "head", "body", "div", "span", "p", "a", "ul", "li"],
    wordEdge, many (noneOf ">"), text ">"], 3⟩,
  ⟨seq [text "</", oneAnyCase ["html", "head", "body", "div", "span", "p", "a", "ul", "li"],
    text ">"], 3⟩]

def css : List Rule := [
  ⟨seq [text "@media", wordEdge], 3⟩,
  ⟨seq [lineStart, gap, maybe (anyOf ".#"), nameWith "-", many (seq [gap, anyOf ",>+~", gap,
    maybe (anyOf ".#"), nameWith "-"]), gap, text "\x7b"], 2⟩,
  ⟨seq [lineStart, gap, nameWith "-", gap, text ":", gap, oneOrMore (noneOf ";\x7b"), text ";", gap,
    lineEnd], 2⟩,
  ⟨seq [wordEdge, oneOrMore (one .digit), oneText ["px", "em", "rem", "vh", "vw"], wordEdge], 2⟩,
  ⟨seq [text "#", times hexDigit 3 3, wordEdge], 1⟩]

def json : List Rule := [
  ⟨seq [textStart, gap, text "\x7b", gap, text "\"", oneOrMore (noneOf "\""), text "\"", gap,
    text ":"], 5⟩,
  ⟨seq [text "\"", oneOrMore (noneOf "\""), text "\"", gap, text ":", gap, oneOf [text "\"",
    one .digit, text "true", text "false", text "null", text "\x7b", text "["]], 2⟩,
  ⟨seq [textStart, gap, anyOf "\x7b["], 1⟩,
  ⟨seq [lineStart, gap, oneText ["//", "#"]], -3⟩]

def yaml : List Rule := [
  ⟨seq [lineStart, text "---", gap, lineEnd], 3⟩,
  ⟨seq [lineStart, nameWith "-", text ":", gap, many visible, lineEnd], 2⟩,
  ⟨seq [lineStart, gap, text "-", space, name], 2⟩,
  ⟨seq [anyOf ";\x7b\x7d", gap, lineEnd], -2⟩]

def markdown : List Rule := [
  ⟨seq [lineStart, times (text "#") 1 5, space, visible], 3⟩,
  ⟨seq [text "[", oneOrMore (noneOf "]"), text "](", oneOrMore (noneOf ")"), text ")"], 3⟩,
  ⟨seq [lineStart, text "```"], 3⟩,
  ⟨seq [text "**", oneOrMore (noneOf "*"), text "**"], 2⟩,
  ⟨seq [lineStart, gap, anyOf "-*", space, visible], 1⟩]

def lua : List Rule := [
  ⟨seq [wordEdge, text "local", space, name, gap, text "="], 3⟩,
  ⟨text "~=", 3⟩,
  ⟨text "--[[", 3⟩,
  ⟨seq [text "..", gap, anyOf "'\""], 2⟩,
  ⟨seq [wordEdge, text "function", space, name, many (seq [text ".", name]), gap, text "("], 1⟩,
  ⟨seq [wordEdge, text "then", wordEdge], 1⟩,
  ⟨seq [wordEdge, text "nil", wordEdge], 1⟩]

/-- The languages with their rules. Of equal scores the earlier language wins. -/
def table : List (String × List Rule) := [
  ("typescript", typescript), ("javascript", javascript), ("python", python), ("rust", rust), ("go",
  go), ("java", java), ("c", c), ("cpp", cpp), ("csharp", csharp), ("php", php), ("ruby", ruby),
  ("shellscript", shellscript), ("powershell", powershell), ("sql", sql), ("html", html), ("css",
  css), ("json", json), ("yaml", yaml), ("markdown", markdown), ("lua", lua)]

end Rule

end Polyglot

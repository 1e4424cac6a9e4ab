/-
The languages that samples are ranked among, with the short id that predictions carry, the name of
the grammar, and the hints: pieces of text that are typical of the language.
-/
namespace Polyglot

/-- A language that has a grammar. -/
inductive Language where
  | typescript | javascript | python | rust | go | java | c | cpp | kotlin
  | html | css | json | yaml | toml | xml | hcl | bash
  deriving DecidableEq, Repr

namespace Language

/-- Every language, in the order in which equal confidences are listed. -/
def all : List Language :=
  [typescript, javascript, python, rust, go, java, c, cpp, kotlin, html, css, json, yaml, toml, xml,
    hcl, bash]

/-- The id in predictions: the usual extension of file names. -/
def id : Language → String
  | typescript => "ts"
  | javascript => "js"
  | python => "py"
  | rust => "rs"
  | go => "go"
  | java => "java"
  | c => "c"
  | cpp => "cpp"
  | kotlin => "kt"
  | html => "html"
  | css => "css"
  | json => "json"
  | yaml => "yaml"
  | toml => "toml"
  | xml => "xml"
  | hcl => "tf"
  | bash => "sh"

/-- The name of the language and of its grammar. -/
def name : Language → String
  | typescript => "typescript"
  | javascript => "javascript"
  | python => "python"
  | rust => "rust"
  | go => "go"
  | java => "java"
  | c => "c"
  | cpp => "cpp"
  | kotlin => "kotlin"
  | html => "html"
  | css => "css"
  | json => "json"
  | yaml => "yaml"
  | toml => "toml"
  | xml => "xml"
  | hcl => "hcl"
  | bash => "bash"

/-- Pieces of text that are typical of the language. Grammars are permissive, so these count beside
the syntax. -/
def hints : Language → List String
  | typescript => [": string", ": number", ": boolean", "interface ", "export type ", "implements ",
      "readonly ", "as const"]
  | javascript => ["function ", "const ", "=> ", "console.log", "require(", "module.exports",
      "document.", "==="]
  | rust => ["fn ", "let mut ", "impl ", "pub ", "&self", "-> ", "#[", "println!", "use std::"]
  | python => ["def ", "self.", "elif ", "print(", "None", "lambda ", "__init__", "import "]
  | go => ["func ", "package ", ":=", "fmt.", "defer ", "chan ", "nil"]
  | java => ["public class ", "public static void", "System.out", "import java.", "@Override",
      "private ", "extends "]
  | c => ["#include <", "int main", "printf(", "malloc(", "sizeof(", "NULL", "->"]
  | cpp => ["#include <", "std::", "cout", "template<", "template <", "namespace ", "nullptr",
      "public:"]
  | kotlin => ["fun ", "val ", "println(", "data class ", "companion object", "?."]
  | html => ["<!DOCTYPE", "<html", "<div", "<body", "<head", "</", "class=\""]
  | css => ["color:", "margin:", "padding:", "px;", "font-", "@media", "display:"]
  | json => ["\x7b\"", "\":", "\",", "null", "true"]
  | yaml => ["---", "\n- ", ": "]
  | toml => ["[package]", "[dependencies]", " = \"", "[[", "[tool."]
  | xml => ["<?xml", "xmlns", "/>", "<!--", "</"]
  | hcl => ["resource \"", "variable \"", "provider \"", "module \"", "output \"",
      "terraform \x7b"]
  | bash => ["#!/bin/", "echo ", "then", "fi", "esac", "$(", "$\x7b", "export "]

/-- No language is left out. -/
theorem mem_all (l : Language) : l ∈ all := by cases l <;> decide

theorem nodup_all : all.Nodup := by decide

end Language

end Polyglot

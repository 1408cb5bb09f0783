import PitFleet.Json.Basic
import PitFleet.Toml.Basic

/-!
# Writing documents

A document has a line for every value of its table and then a section for every table of a list of
tables. Longer arrays are spread over lines. A string is written in the plainest form that can hold
it: in double quotes if nothing in it has to be marked, else in single quotes, else between three
quotes, and with marks only if no other form will do.
-/

namespace PitFleet.Toml

inductive Quotation
  | basic
  | literal
  | basicLines
  | literalLines
  deriving DecidableEq, Repr

/-- What about a text decides its form. -/
structure Traits where
  /-- It has control characters other than tabs and line breaks. -/
  control : Bool
  lineBreak : Bool
  backslash : Bool
  /-- The longest run of double quotes. -/
  doubleQuotes : Nat
  /-- The longest run of single quotes. -/
  singleQuotes : Nat

/-- The longest run of a character, given the run before. -/
def longestRun (c : Char) : Nat → List Char → Nat
  | run, [] => run
  | run, d :: cs => if d = c then longestRun c (run + 1) cs else max run (longestRun c 0 cs)

def isControl (c : Char) : Bool :=
  (c.toNat < 0x20 && c ≠ '\t' && c ≠ '\n') || c = '\x7f'

def Traits.of (cs : List Char) : Traits where
  control := cs.any isControl
  lineBreak := cs.contains '\n'
  backslash := cs.contains '\\'
  doubleQuotes := longestRun '"' 0 cs
  singleQuotes := longestRun '\'' 0 cs

namespace Quotation

/-- The plainest form that can hold a text. -/
def choose (t : Traits) : Quotation :=
  if !t.control && !t.lineBreak && !t.backslash && t.doubleQuotes = 0 then basic
  else if !t.control && !t.lineBreak && t.singleQuotes = 0 then literal
  else if !t.control && !t.backslash && t.doubleQuotes ≤ 2 then basicLines
  else if !t.control && t.singleQuotes ≤ 2 then literalLines
  else if t.lineBreak then basicLines
  else basic

def quotes : Quotation → List Char
  | basic => ['"']
  | literal => ['\'']
  | basicLines => ['"', '"', '"']
  | literalLines => ['\'', '\'', '\'']

end Quotation

def upperHexDigit (n : Nat) : Char :=
  (Json.hexDigit n).toUpper

/-- The mark for a character, if it has one of one letter, or else its number. -/
def mark (c : Char) : List Char :=
  if c = '\x08' then ['\\', 'b']
  else if c = '\t' then ['\\', 't']
  else if c = '\n' then ['\\', 'n']
  else if c = '\x0c' then ['\\', 'f']
  else if c = '\r' then ['\\', 'r']
  else if c = '"' then ['\\', '"']
  else if c = '\\' then ['\\', '\\']
  else ['\\', 'u', '0', '0', upperHexDigit (c.toNat / 16), upperHexDigit (c.toNat % 16)]

/-- The characters of a text in double quotes, given how many quotes stand before them. Line
breaks and up to two quotes in a row stay as they are in a text of several lines. -/
def escape (lines : Bool) : Nat → List Char → List Char
  | _, [] => []
  | quotes, c :: cs =>
    if c = '"' then
      if lines && quotes < 2 then c :: escape lines (quotes + 1) cs
      else mark c ++ escape lines 0 cs
    else
      (if c = '\n' && lines then [c]
        else if c = '\\' || c = '\t' || c = '\n' || isControl c then mark c
        else [c])
        ++ escape lines 0 cs

def writeString (s : String) : List Char :=
  let cs := s.toList
  let t := Traits.of cs
  let form := Quotation.choose t
  let break? := match form with
    | .basicLines | .literalLines => if t.lineBreak then ['\n'] else []
    | _ => []
  let body := match form with
    | .basic => escape false 0 cs
    | .basicLines => escape true 0 cs
    | _ => cs
  form.quotes ++ break? ++ body ++ form.quotes

/-- A key of letters, digits, underscores and dashes stands without quotes. -/
def writeKey (key : String) : List Char :=
  let cs := key.toList
  if !cs.isEmpty && cs.all fun c => c.isAlphanum || c = '_' || c = '-' then cs else writeString key

/-- Entries of an inline table or items of an array with commas between them. -/
def commas : List (List Char) → List Char
  | [] => []
  | [x] => x
  | x :: xs => x ++ [',', ' '] ++ commas xs

/-- Some fixed moment: moments are read but their texts are not kept. -/
def someMoment : List Char := "1970-01-01".toList

mutual

def write : Toml → List Char
  | .string s => writeString s
  | .integer n => (toString n).toList
  | .real x => (NumberStyle.toml.write x).toList
  | .bool true => "true".toList
  | .bool false => "false".toList
  | .dateTime => someMoment
  | .array [] => ['[', ']']
  | .array [item] => '[' :: item.write ++ [']']
  | .array items => '[' :: '\n' :: writeItems items ++ [']']
  | .table entries => ['{', ' '] ++ commas (writeInline entries) ++ [' ', '}']

/-- Each item on a line of its own. -/
def writeItems : List Toml → List Char
  | [] => []
  | item :: items => [' ', ' ', ' ', ' '] ++ item.write ++ [',', '\n'] ++ writeItems items

def writeInline : List (String × Toml) → List (List Char)
  | [] => []
  | (key, v) :: entries => (writeKey key ++ [' ', '=', ' '] ++ v.write) :: writeInline entries

end

def writeLine (key : String) (v : Toml) : List Char :=
  writeKey key ++ [' ', '=', ' '] ++ v.write ++ ['\n']

def writeLines (entries : List (String × Toml)) : List Char :=
  entries.flatMap fun (key, v) => writeLine key v

/-- The tables that are written as sections: those of a list that holds nothing else. -/
def sections? : Toml → Option (List (List (String × Toml)))
  | .array (item :: items) => (item :: items).mapM fun
    | .table entries => some entries
    | _ => none
  | _ => none

def writeSection (key : String) (entries : List (String × Toml)) : List Char :=
  ['[', '['] ++ writeKey key ++ [']', ']', '\n'] ++ writeLines entries

/-- The parts of a document: the lines of its values, if there are any, and its sections. -/
def parts (entries : List (String × Toml)) : List (List Char) :=
  let lines := writeLines (entries.filter fun (_, v) => (sections? v).isNone)
  let sections := entries.flatMap fun (key, v) => ((sections? v).getD []).map (writeSection key)
  if lines.isEmpty then sections else lines :: sections

/-- The text of a document; blank lines part its sections. -/
def render (entries : List (String × Toml)) : String :=
  String.ofList (List.intercalate ['\n'] (parts entries))

end PitFleet.Toml

import PitFleet.Toml.Numeral
import PitFleet.Toml.Text
import PitFleet.Toml.Tree

/-!
# Reading documents

A document is read line by line: headers choose the table that the lines after them add to. Arrays
may be spread over lines, inline tables may not.
-/

namespace PitFleet.Toml

/-- The most parts of a dotted key. -/
def keyPartLimit : Nat := 79

/-- The most levels of brackets of a value. -/
def nestingLimit : Nat := 79

/-- Letters, digits, underscores and dashes of ASCII. -/
def isBareKeyChar (c : Char) : Bool :=
  c.isAlphanum || c = '_' || c = '-'

def keyPart : Reader String
  | '"' :: cs => lineText ('"' :: cs)
  | '\'' :: cs => lineText ('\'' :: cs)
  | cs =>
    let bare := cs.takeWhile isBareKeyChar
    if bare.isEmpty then none else some (String.ofList bare, cs.dropWhile isBareKeyChar)

/-- A key of at most so many parts with the space around it. -/
def keyParts : Nat → Reader (List String)
  | 0, _ => none
  | limit + 1, cs => do
    let (part, cs) ← keyPart (skipSpace cs)
    match skipSpace cs with
    | '.' :: cs =>
      let (parts, cs) ← keyParts limit cs
      return (part :: parts, cs)
    | cs => return ([part], cs)

/-- A key taken apart into the path to its table and its last part. -/
def key (cs : List Char) : Option ((List String × String) × List Char) := do
  let (parts, cs) ← keyParts keyPartLimit cs
  return ((parts.dropLast, ← parts.getLast?), cs)

/-- Skips space, line breaks and comments; a comment has to end with its line. -/
def skipFiller : Nat → List Char → Option (List Char)
  | 0, _ => none
  | _, [] => some []
  | fuel + 1, c :: cs =>
    if isSpace c then skipFiller fuel cs
    else
      match newline? (skipComment (c :: cs)) with
      | some cs => skipFiller fuel cs
      | none => if c = '#' then none else some (c :: cs)

def filler (cs : List Char) : Option (List Char) :=
  skipFiller (cs.length + 1) cs

mutual

/-- A value with room for so many levels of brackets. -/
def value : Nat → Nat → Reader Toml
  | 0, _, _ => none
  | fuel + 1, room, cs =>
    match cs with
    | '[' :: cs =>
      match room with
      | 0 => none
      | room + 1 => do
        let (items, cs) ← arrayItems fuel room cs
        return (.array items, cs)
    | '{' :: cs =>
      match room with
      | 0 => none
      | room + 1 => do
        let (entries, cs) ← match skipSpace cs with
          | '}' :: cs => pure ([], cs)
          | cs => inlineEntries fuel room [] cs
        return (.table (entriesToToml entries), cs)
    | '"' :: cs => do
      let (s, cs) ← text ('"' :: cs)
      return (.string s, cs)
    | '\'' :: cs => do
      let (s, cs) ← text ('\'' :: cs)
      return (.string s, cs)
    | 't' :: 'r' :: 'u' :: 'e' :: cs => some (.bool true, cs)
    | 'f' :: 'a' :: 'l' :: 's' :: 'e' :: cs => some (.bool false, cs)
    | cs => quantity cs

/-- The items after a bracket or a comma, and the closing bracket. -/
def arrayItems : Nat → Nat → Reader (List Toml)
  | 0, _, _ => none
  | fuel + 1, room, cs => do
    match ← filler cs with
    | ']' :: cs => return ([], cs)
    | cs =>
      let (item, cs) ← value fuel room cs
      match ← filler cs with
      | ',' :: cs =>
        let (items, cs) ← arrayItems fuel room cs
        return (item :: items, cs)
      | ']' :: cs => return ([item], cs)
      | _ => none

/-- The entries of an inline table from the next one on, of which there is at least one, and the
closing brace. -/
def inlineEntries : Nat → Nat → Entries → Reader Entries
  | 0, _, _, _ => none
  | fuel + 1, room, entries, cs => do
    let ((path, last), cs) ← key cs
    let (v, cs) ← value fuel room (skipSpace (← expect '=' cs))
    let entries ← entries.put last v path
    match skipSpace cs with
    | ',' :: cs => inlineEntries fuel room entries cs
    | '}' :: cs => return (entries, cs)
    | _ => none

end

/-- A document in the making. -/
structure Outline where
  root : Entries
  /-- The path of the table that lines add to. -/
  current : List String

namespace Outline

def empty : Outline := ⟨[], []⟩

/-- A key, its value and the end of the line. -/
def readEntry (d : Outline) (cs : List Char) : Option (Outline × List Char) := do
  let ((path, last), cs) ← key cs
  let (v, cs) ← value (2 * cs.length + 2) nestingLimit (skipSpace (← expect '=' cs))
  let cs ← endLine cs
  return ({ d with root := ← d.root.enter (·.put last v path) d.current }, cs)

def readHeader (d : Outline) (cs : List Char) : Option (Outline × List Char) := do
  match cs with
  | '[' :: cs =>
    let ((path, last), cs) ← key cs
    let cs ← endLine (← expect ']' (← expect ']' cs))
    return (⟨← d.root.enter (·.appendTable last) path, path ++ [last]⟩, cs)
  | cs =>
    let ((path, last), cs) ← key cs
    let cs ← endLine (← expect ']' cs)
    return (⟨← d.root.enter (·.addTable last) path, path ++ [last]⟩, cs)

def readLines : Nat → Outline → List Char → Option Outline
  | 0, _, _ => none
  | fuel + 1, d, cs =>
    match skipSpace cs with
    | [] => some d
    | '[' :: cs => do
      let (d, cs) ← d.readHeader cs
      readLines fuel d cs
    | c :: cs =>
      if c = '#' ∨ c = '\n' ∨ c = '\r' then do readLines fuel d (← endLine (c :: cs))
      else do
        let (d, cs) ← d.readEntry (c :: cs)
        readLines fuel d cs

end Outline

/-- The table that a document writes; a mark of the byte order may come first. -/
def read? (document : String) : Option (List (String × Toml)) :=
  let cs := match document.toList with
    | '\ufeff' :: cs => cs
    | cs => cs
  (Outline.readLines (cs.length + 1) .empty cs).map fun d => entriesToToml d.root

end PitFleet.Toml

import PitFleet.Json.Quoted
import PitFleet.Toml.Basic

/-!
# Reading strings

Strings in double quotes know marks for characters, strings in single quotes do not. Three quotes
enclose a text of several lines. One or two quotes may stand in such a text and also before its
end, so `closing` counts the quotes of a run.
-/

namespace PitFleet.Toml

/-- The character that a hexadecimal number of that many digits stands for. -/
def codePoint (length : Nat) (cs : List Char) : Option (Char × List Char) := do
  let digits := cs.take length
  if digits.length < length then none
  let n ← Json.hexNumber? digits
  if n.isValidChar then some (Char.ofNat n, cs.drop length) else none

def escaped : Reader Char
  | 'b' :: cs => some ('\x08', cs)
  | 'f' :: cs => some ('\x0c', cs)
  | 'n' :: cs => some ('\n', cs)
  | 'r' :: cs => some ('\r', cs)
  | 't' :: cs => some ('\t', cs)
  | '\\' :: cs => some ('\\', cs)
  | '"' :: cs => some ('"', cs)
  | 'u' :: cs => codePoint 4 cs
  | 'U' :: cs => codePoint 8 cs
  | _ => none

/-- The rest of a string in double quotes. -/
def basicBody : Nat → Reader (List Char)
  | 0, _ => none
  | _, [] => none
  | _, '"' :: cs => some ([], cs)
  | fuel + 1, '\\' :: cs => do
    let (c, cs) ← escaped cs
    let (text, cs) ← basicBody fuel cs
    return (c :: text, cs)
  | fuel + 1, c :: cs => do
    if !isPlain c then none
    let (text, cs) ← basicBody fuel cs
    return (c :: text, cs)

/-- The rest of a string in single quotes. -/
def literalBody : Reader (List Char)
  | [] => none
  | '\'' :: cs => some ([], cs)
  | c :: cs => do
    if !isPlain c then none
    let (text, cs) ← literalBody cs
    return (c :: text, cs)

/-- The rest of the text after a run of quotes that closes it, with the quotes of the run that
belong to the text. A run of less than three closes nothing. -/
def closing (quote : Char) (cs : List Char) : Option (List Char × List Char) :=
  let run := (cs.takeWhile (· = quote)).length
  if run < 3 then none
  else
    let inside := min (run - 3) 2
    some (List.replicate inside quote, cs.drop (inside + 3))

/-- Skips line breaks, spaces and tabs. -/
def skipBlankLines : Nat → List Char → List Char
  | 0, cs => cs
  | fuel + 1, cs =>
    match newline? cs with
    | some cs => skipBlankLines fuel cs
    | none =>
      match cs with
      | c :: cs' => if isSpace c then skipBlankLines fuel cs' else cs
      | [] => []

/-- What follows a backslash at the end of a line: the text goes on at the next character. -/
def joinedLine (cs : List Char) : Option (List Char) :=
  (newline? (skipSpace cs)).map fun cs => skipBlankLines cs.length cs

/-- The rest of a text between three double quotes. -/
def basicLines : Nat → Reader (List Char)
  | 0, _ => none
  | _, [] => none
  | fuel + 1, '"' :: cs =>
    match closing '"' ('"' :: cs) with
    | some (text, cs) => some (text, cs)
    | none => do
      let (text, cs) ← basicLines fuel cs
      return ('"' :: text, cs)
  | fuel + 1, '\\' :: cs =>
    match joinedLine cs with
    | some cs => basicLines fuel cs
    | none => do
      let (c, cs) ← escaped cs
      let (text, cs) ← basicLines fuel cs
      return (c :: text, cs)
  | fuel + 1, c :: cs =>
    match newline? (c :: cs) with
    | some cs => do
      let (text, cs) ← basicLines fuel cs
      return ('\n' :: text, cs)
    | none => do
      if !isPlain c then none
      let (text, cs) ← basicLines fuel cs
      return (c :: text, cs)

/-- The rest of a text between three single quotes. -/
def literalLines : Nat → Reader (List Char)
  | 0, _ => none
  | _, [] => none
  | fuel + 1, '\'' :: cs =>
    match closing '\'' ('\'' :: cs) with
    | some (text, cs) => some (text, cs)
    | none => do
      let (text, cs) ← literalLines fuel cs
      return ('\'' :: text, cs)
  | fuel + 1, c :: cs =>
    match newline? (c :: cs) with
    | some cs => do
      let (text, cs) ← literalLines fuel cs
      return ('\n' :: text, cs)
    | none => do
      if !isPlain c then none
      let (text, cs) ← literalLines fuel cs
      return (c :: text, cs)

/-- A line break right after the opening quotes does not count. -/
def skipFirstBreak (cs : List Char) : List Char :=
  (newline? cs).getD cs

/-- A string on one line. -/
def lineText : Reader String
  | '"' :: cs => (basicBody (cs.length + 1) cs).map fun (text, cs) => (String.ofList text, cs)
  | '\'' :: cs => (literalBody cs).map fun (text, cs) => (String.ofList text, cs)
  | _ => none

def text : Reader String
  | '"' :: '"' :: '"' :: cs =>
    let cs := skipFirstBreak cs
    (basicLines (cs.length + 1) cs).map fun (text, cs) => (String.ofList text, cs)
  | '\'' :: '\'' :: '\'' :: cs =>
    let cs := skipFirstBreak cs
    (literalLines (cs.length + 1) cs).map fun (text, cs) => (String.ofList text, cs)
  | cs => lineText cs

end PitFleet.Toml

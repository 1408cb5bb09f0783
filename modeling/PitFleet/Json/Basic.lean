import PitFleet.Number.Style

/-!
# JSON values

JSON values and their text. The members of an object keep their order. A text is written on one
line, or with every member and every item on a line of its own.
-/

namespace PitFleet

inductive Json
  | null
  | bool (b : Bool)
  | integer (n : Int)
  | real (x : Float)
  | string (s : String)
  | array (items : List Json)
  | object (members : List (String × Json))
  deriving Repr

namespace Json

def hexDigit (n : Nat) : Char :=
  Char.ofNat (if n < 10 then '0'.toNat + n else 'a'.toNat + (n - 10))

/-- A character inside quotes. Quotes, backslashes and control characters are marked. -/
def escape (c : Char) : List Char :=
  if c = '"' then ['\\', '"']
  else if c = '\\' then ['\\', '\\']
  else if c = '\n' then ['\\', 'n']
  else if c = '\r' then ['\\', 'r']
  else if c = '\t' then ['\\', 't']
  else if c = '\x08' then ['\\', 'b']
  else if c = '\x0c' then ['\\', 'f']
  else if c.toNat < 32 then
    ['\\', 'u', '0', '0', hexDigit (c.toNat / 16), hexDigit (c.toNat % 16)]
  else [c]

def quote (s : String) : List Char :=
  '"' :: s.toList.flatMap escape ++ ['"']

/-- Whether lines are broken. -/
inductive Style
  | compact
  | indented
  deriving DecidableEq, Repr

namespace Style

/-- What stands before an item, a member or a closing bracket. -/
def gap : Style → Nat → List Char
  | compact, _ => []
  | indented, depth => '\n' :: List.replicate (2 * depth) ' '

def colon : Style → List Char
  | compact => [':']
  | indented => [':', ' ']

end Style

mutual

/-- The text of a value at a depth. -/
def write (style : Style) (depth : Nat) : Json → List Char
  | null => "null".toList
  | bool true => "true".toList
  | bool false => "false".toList
  | integer n => (toString n).toList
  | real x => (NumberStyle.json.write x).toList
  | string s => quote s
  | array [] => ['[', ']']
  | array (item :: items) =>
    '[' :: style.gap (depth + 1) ++ write style (depth + 1) item
      ++ writeItems style depth items
  | object [] => ['{', '}']
  | object ((key, value) :: members) =>
    '{' :: style.gap (depth + 1) ++ quote key ++ style.colon ++ write style (depth + 1) value
      ++ writeMembers style depth members

/-- The items after the first and the closing bracket. -/
def writeItems (style : Style) (depth : Nat) : List Json → List Char
  | [] => style.gap depth ++ [']']
  | item :: items =>
    ',' :: style.gap (depth + 1) ++ write style (depth + 1) item ++ writeItems style depth items

/-- The members after the first and the closing brace. -/
def writeMembers (style : Style) (depth : Nat) : List (String × Json) → List Char
  | [] => style.gap depth ++ ['}']
  | (key, value) :: members =>
    ',' :: style.gap (depth + 1) ++ quote key ++ style.colon ++ write style (depth + 1) value
      ++ writeMembers style depth members

end

def render (style : Style) (v : Json) : String :=
  String.ofList (v.write style 0)

end Json

end PitFleet

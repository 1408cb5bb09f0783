import PitFleet.Json.Numeral
import PitFleet.Json.Quoted

/-!
# Scanning a text

The draft of a JSON text. What follows a value is known only if the value is whole; the first fault
ends the draft. Every step takes a character or more, so twice the length of the text bounds the
steps.
-/

namespace PitFleet.Json

def isBlank (c : Char) : Bool :=
  c = ' ' || c = '\t' || c = '\n' || c = '\r'

def skipBlanks (cs : List Char) : List Char :=
  cs.dropWhile isBlank

/-- One of the three words, given what follows its first letter. -/
def word (d : Draft) : List Char → List Char → Draft × Option (List Char)
  | [], rest => (d, some rest)
  | _ :: _, [] => (.broken ⟨.truncated, .truncated, .malformed⟩, none)
  | w :: ws, c :: cs => if c = w then word d ws cs else (.broken .malformed, none)

/-- A draft and what follows it, unless it is broken off. -/
abbrev Scanned (δ : Type) := δ × Option (List Char)

mutual

def scanValue : Nat → List Char → Scanned Draft
  | 0, _ => (.broken .malformed, none)
  | fuel + 1, cs =>
    match skipBlanks cs with
    | [] => (.broken .truncated, none)
    | '[' :: cs =>
      let (items, rest) := match skipBlanks cs with
        | ']' :: rest => (.closed, some rest)
        | cs => scanItems fuel cs
      (.array items, rest)
    | '{' :: cs =>
      let (members, rest) := match skipBlanks cs with
        | '}' :: rest => (.closed, some rest)
        | cs => scanMembers fuel cs
      (.object members, rest)
    | '"' :: cs =>
      match quoted cs with
      | .ok (s, rest) => (.string s, some rest)
      | .error b => (.broken b, none)
    | 'n' :: cs => word .null ['u', 'l', 'l'] cs
    | 't' :: cs => word (.bool true) ['r', 'u', 'e'] cs
    | 'f' :: cs => word (.bool false) ['a', 'l', 's', 'e'] cs
    | c :: cs =>
      if c = '-' ∨ c.isDigit then
        match numeral (c :: cs) with
        | .ok (n, rest) => (.number n, some rest)
        | .error b => (.broken b, none)
      else (.broken .malformed, none)

/-- The items from the next one on, of which there is at least one. -/
def scanItems : Nat → List Char → Scanned Items
  | 0, _ => (.broken .malformed, none)
  | fuel + 1, cs =>
    match scanValue fuel cs with
    | (item, none) => (.cons item .closed, none)
    | (item, some cs) =>
      let (rest, after) := match skipBlanks cs with
        | ',' :: cs => scanItems fuel cs
        | ']' :: cs => (.closed, some cs)
        | [] => (.broken .truncated, none)
        | _ => (.broken .malformed, none)
      (.cons item rest, after)

/-- The members from the next one on, of which there is at least one. -/
def scanMembers : Nat → List Char → Scanned Members
  | 0, _ => (.broken .malformed, none)
  | fuel + 1, cs =>
    match skipBlanks cs with
    | [] => (.broken .truncated, none)
    | '"' :: cs =>
      match quoted cs with
      | .error b => (.broken b, none)
      | .ok (key, cs) =>
        match skipBlanks cs with
        | ':' :: cs =>
          match scanValue fuel cs with
          | (value, none) => (.cons key value .closed, none)
          | (value, some cs) =>
            let (rest, after) := match skipBlanks cs with
              | ',' :: cs => scanMembers fuel cs
              | '}' :: cs => (.closed, some cs)
              | [] => (.broken .truncated, none)
              | _ => (.broken .malformed, none)
            (.cons key value rest, after)
        | [] => (.cons key (.broken .truncated) .closed, none)
        | _ => (.cons key (.broken .malformed) .closed, none)
    | _ => (.broken .malformed, none)

end

def scan (cs : List Char) : Scanned Draft :=
  scanValue (2 * cs.length + 1) cs

def parse? (text : String) : Option Json :=
  match scan text.toList with
  | (d, some rest) => if (skipBlanks rest).isEmpty then d.value? else none
  | (_, none) => none

end PitFleet.Json

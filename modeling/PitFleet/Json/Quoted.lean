import PitFleet.Json.Draft

/-!
# Reading quoted text

The characters between quotes are read in two steps. `pieces` takes the text apart into characters
and marked UTF-16 units up to the closing quote; `join` puts the units of a pair together. A unit
without its partner spoils the text only for one who wants to know it.
-/

namespace PitFleet.Json

/-- What stands for a character, or for half of one, between quotes. -/
inductive Piece
  | char (c : Char)
  | unit (n : Nat)
  deriving DecidableEq, Repr

inductive Ending
  | closed (rest : List Char)
  | broken (cause : Cause)

def hexValue? (c : Char) : Option Nat :=
  if c.isDigit then some (c.toNat - '0'.toNat)
  else if 'a' ≤ c ∧ c ≤ 'f' then some (c.toNat - 'a'.toNat + 10)
  else if 'A' ≤ c ∧ c ≤ 'F' then some (c.toNat - 'A'.toNat + 10)
  else none

def hexNumber? (cs : List Char) : Option Nat :=
  cs.foldlM (fun n c => (16 * n + ·) <$> hexValue? c) 0

/-- The character that a mark of one letter stands for. -/
def unescape? : Char → Option Char
  | '"' => some '"'
  | '\\' => some '\\'
  | '/' => some '/'
  | 'b' => some '\x08'
  | 'f' => some '\x0c'
  | 'n' => some '\n'
  | 'r' => some '\r'
  | 't' => some '\t'
  | _ => none

def attach (p : Piece) : List Piece × Ending → List Piece × Ending
  | (ps, e) => (p :: ps, e)

/-- The text after an opening quote. Less than four bytes behind a mark for a unit count as an end
of the text. -/
def pieces : List Char → List Piece × Ending
  | [] => ([], .broken .truncated)
  | '"' :: rest => ([], .closed rest)
  | ['\\'] => ([], .broken .truncated)
  | '\\' :: 'u' :: rest =>
    match rest with
    | a :: b :: c :: d :: rest' =>
      match hexNumber? [a, b, c, d] with
      | some n => attach (.unit n) (pieces rest')
      | none => ([], .broken .malformed)
    | _ =>
      ([], .broken (if rest.foldl (· + ·.utf8Size) 0 < 4 then .truncated else .malformed))
  | '\\' :: c :: rest =>
    match unescape? c with
    | some c => attach (.char c) (pieces rest)
    | none => ([], .broken .malformed)
  | c :: rest =>
    if c.toNat < 32 then ([], .broken .malformed) else attach (.char c) (pieces rest)

def isLeading (n : Nat) : Bool := 0xD800 ≤ n && n < 0xDC00

def isTrailing (n : Nat) : Bool := 0xDC00 ≤ n && n < 0xE000

/-- The character beyond the basic plane that a pair of units stands for. -/
def ofPair (leading trailing : Nat) : Char :=
  Char.ofNat (0x10000 + (leading - 0xD800) * 0x400 + (trailing - 0xDC00))

inductive Joined
  | text (cs : List Char)
  /-- The first half of a pair comes last. -/
  | unfinished
  /-- Half of a pair stands alone. -/
  | unpaired

def Joined.cons (c : Char) : Joined → Joined
  | .text cs => .text (c :: cs)
  | j => j

def join : List Piece → Joined
  | [] => .text []
  | .char c :: ps => (join ps).cons c
  | .unit n :: ps =>
    if isTrailing n then .unpaired
    else if isLeading n then
      match ps with
      | [] => .unfinished
      | .unit m :: ps => if isTrailing m then (join ps).cons (ofPair n m) else .unpaired
      | .char _ :: _ => .unpaired
    else (join ps).cons (Char.ofNat n)

/-- A quoted text, none if it holds half a pair, and what follows it; or where it goes wrong. -/
def quoted (cs : List Char) : Except Break (Option String × List Char) :=
  match pieces cs with
  | (ps, .closed rest) =>
    match join ps with
    | .text cs => .ok (some (String.ofList cs), rest)
    | _ => .ok (none, rest)
  | (ps, .broken cause) =>
    let read := match join ps with
      | .unpaired => .malformed
      | _ => cause
    .error ⟨read, cause, read⟩

end PitFleet.Json

/-!
# Settings on a command line

A setting has a long name and may have a short one. It is a flag or takes a value, which follows
behind an equals sign or as the next argument. Short names may be joined, the last of them with its
value. A value that came as an argument of its own is looked at only when the next setting or the
end comes, and no setting may be given twice.
-/

namespace PitFleet.CommandLine

inductive Stop
  /-- The arguments are faulty. -/
  | usage
  | help
  | version
  deriving DecidableEq, Repr

/-- What a setting does to the options collected so far. -/
inductive Action (σ : Type)
  | flag (apply : σ → σ)
  /-- Without a result if the value is refused. -/
  | value (apply : String → σ → Option σ)
  | stop (reason : Stop)

structure Setting (σ : Type) where
  long : String
  short : Option Char
  action : Action σ

structure Progress (σ : Type) where
  options : σ
  /-- The long names of the settings that were given. -/
  given : List String
  /-- A setting that takes a value, and its value once it is there. -/
  pending : Option (Setting σ × Option String)

namespace Progress

variable {σ : Type}

def start (options : σ) : Progress σ :=
  ⟨options, [], none⟩

def applyValue (p : Progress σ) (s : Setting σ) (v : String) : Except Stop (Progress σ) :=
  if s.long ∈ p.given then .error .usage
  else
    match s.action with
    | .value apply =>
      match apply v p.options with
      | some options => .ok { p with options, given := s.long :: p.given }
      | none => .error .usage
    | _ => .error .usage

def settle (p : Progress σ) : Except Stop (Progress σ) :=
  match p.pending with
  | none => .ok p
  | some (_, none) => .error .usage
  | some (s, some v) => { p with pending := none }.applyValue s v

def give (p : Progress σ) (s : Setting σ) : Except Stop (Progress σ) := do
  let p ← p.settle
  match s.action with
  | .flag apply =>
    if s.long ∈ p.given then .error .usage
    else .ok { p with options := apply p.options, given := s.long :: p.given }
  | .value _ => .ok { p with pending := some (s, none) }
  | .stop reason => .error reason

def giveValue (p : Progress σ) (s : Setting σ) (v : String) : Except Stop (Progress σ) := do
  (← p.settle).applyValue s v

/-- Short names joined in one argument. -/
def giveShorts (settings : List (Setting σ)) (p : Progress σ) :
    List Char → Except Stop (Progress σ)
  | [] => .ok p
  | c :: cs =>
    match settings.find? (·.short = some c) with
    | none => .error .usage
    | some s =>
      match s.action, cs with
      | .value _, '=' :: v => p.giveValue s (String.ofList v)
      | .value _, c :: v => p.giveValue s (String.ofList (c :: v))
      | _, _ => do giveShorts settings (← p.give s) cs

/-- A long name, or a long name, an equals sign and a value. -/
def giveLong (settings : List (Setting σ)) (p : Progress σ) (cs : List Char) :
    Except Stop (Progress σ) :=
  let name := String.ofList (cs.takeWhile (· ≠ '='))
  match settings.find? (·.long = name), cs.dropWhile (· ≠ '=') with
  | none, _ => .error .usage
  | some s, [] => p.give s
  | some s, _ :: v => p.giveValue s (String.ofList v)

/-- Takes arguments up to the first one that is neither a setting nor a value; that one and what
follows it is left. Behind two dashes there may be nothing. -/
def takeAll (settings : List (Setting σ)) :
    Progress σ → List String → Except Stop (Progress σ × List String)
  | p, [] => .ok (p, [])
  | p, arg :: args =>
    match arg.toList with
    | ['-', '-'] => if args.isEmpty then .ok (p, []) else .error .usage
    | '-' :: '-' :: cs => do takeAll settings (← p.giveLong settings cs) args
    | '-' :: c :: cs => do takeAll settings (← p.giveShorts settings (c :: cs)) args
    | _ =>
      match p.pending with
      | some (s, none) => takeAll settings { p with pending := some (s, some arg) } args
      | _ => .ok (p, arg :: args)

end Progress

end PitFleet.CommandLine

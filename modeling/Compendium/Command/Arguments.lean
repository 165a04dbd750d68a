import Compendium.Command.Help
import Compendium.Number.Numeral
import Compendium.Text.Quoted

/-! Reading the arguments of the command line. Options may be cut short as long as it is clear which one is
meant, and their values stand behind an equals sign or in the next argument. -/
namespace Compendium.Command

open Compendium.Number

/-- An option: its names, and whether it takes a value. -/
structure Flag where
  names : List String
  takesValue : Bool
  deriving DecidableEq, Repr

def helpFlag : Flag := ⟨["-h", "--help"], false⟩

def searchFlags : List Flag :=
  [helpFlag, ⟨["--risk-type"], true⟩, ⟨["--top-k"], true⟩, ⟨["--threshold"], true⟩,
    ⟨["--summary"], false⟩]

def Flag.label (f : Flag) : String := "/".intercalate f.names

inductive Misuse where
  | ambiguous (argument : String) (matching : List String)
  | valueMissing (f : Flag)
  | valueIgnored (f : Flag) (value : String)
  | notWhole (f : Flag) (value : String)
  | notNumber (f : Flag) (value : String)
  | unknownCommand (name : String)
  | required (name : String)
  | unrecognized (arguments : List String)

def Misuse.message : Misuse → String
  | .ambiguous argument matching =>
    "ambiguous option: " ++ argument ++ " could match " ++ ", ".intercalate matching
  | .valueMissing f => "argument " ++ f.label ++ ": expected one argument"
  | .valueIgnored f value => "argument " ++ f.label ++ ": ignored explicit argument " ++ Text.quoted value
  | .notWhole f value => "argument " ++ f.label ++ ": invalid int value: " ++ Text.quoted value
  | .notNumber f value => "argument " ++ f.label ++ ": invalid float value: " ++ Text.quoted value
  | .unknownCommand name =>
    "argument command: invalid choice: " ++ Text.quoted name ++ " (choose from " ++
      ", ".intercalate (names.map Text.quoted) ++ ")"
  | .required name => "the following arguments are required: " ++ name
  | .unrecognized arguments => "unrecognized arguments: " ++ " ".intercalate arguments

/-- Why the arguments do not make a command: help was asked for, or something is wrong; `command` is the one
that the arguments belong to, if they are not those of the whole program. -/
inductive Refusal where
  | help (command : Option String)
  | misuse (command : Option String) (m : Misuse)

/-- A value that is written in one argument with its option, behind an equals sign or right behind the letter. -/
inductive Attached where
  | behindSign (value : String)
  | behindLetter (value : String)

def Attached.value : Attached → String
  | .behindSign v => v
  | .behindLetter v => v

/-- What an argument is: one that stands for itself, an option with the value that was given with it, one that
looks like an option, or the dashes behind which there are no options. -/
inductive Role where
  | plain
  | option (f : Flag) (name : String) (value : Option Attached)
  | stray
  | dashes

def Role.isOption : Role → Bool
  | .option _ _ _ => true
  | .stray => true
  | _ => false

/-- The part before the first equals sign, and the part behind it if there is one. -/
def splitValue (s : List Char) : List Char × Option (List Char) :=
  let name := s.takeWhile (· != '=')
  match s.drop name.length with
  | [] => (name, none)
  | _ :: value => (name, some value)

def named (flags : List Flag) : List (Flag × String) := flags.flatMap fun f => f.names.map fun n => (f, n)

/-- The options that an argument with two dashes may be short for. -/
def longMatches (flags : List Flag) (s : List Char) : List Role :=
  let (start, value) := splitValue s
  ((named flags).filter fun e => start.isPrefixOf e.2.toList).map fun e =>
    .option e.1 e.2 (value.map fun v => .behindSign (String.ofList v))

/-- The options that an argument with one dash may stand for: one of a single letter with a value behind it, or
one that it is short for. -/
def shortMatches (flags : List Flag) (s : List Char) : List Role :=
  (named flags).filterMap fun e =>
    if e.2.toList = s.take 2 then some (.option e.1 e.2 (some (.behindLetter (String.ofList (s.drop 2)))))
    else if s.isPrefixOf e.2.toList then some (.option e.1 e.2 none)
    else none

/-- Whether an argument is a negative number: digits, or a point with digits behind it. -/
def isNegativeNumber : List Char → Bool
  | '-' :: r =>
    let digits := r.takeWhile fun c => (digitValue? c).isSome
    match r.drop digits.length with
    | [] => !digits.isEmpty
    | '.' :: decimals => !decimals.isEmpty && decimals.all fun c => (digitValue? c).isSome
    | _ => false
  | _ => false

def roleNames (roles : List Role) : List String :=
  roles.filterMap fun r => match r with
    | .option _ name _ => some name
    | _ => none

/-- What an argument is before the dashes that end the options. -/
def roleOf (flags : List Flag) (argument : String) : Except Misuse Role :=
  let s := argument.toList
  if s.head? != some '-' then .ok .plain
  else
    match (named flags).find? fun e => e.2 = argument with
    | some e => .ok (.option e.1 e.2 none)
    | none =>
      if s.length = 1 then .ok .plain
      else
        let (name, value) := splitValue s
        match value, (named flags).find? fun e => e.2.toList = name with
        | some v, some e => .ok (.option e.1 e.2 (some (.behindSign (String.ofList v))))
        | _, _ =>
          match if s.take 2 = ['-', '-'] then longMatches flags s else shortMatches flags s with
          | [role] => .ok role
          | [] => .ok (if isNegativeNumber s || s.contains ' ' then .plain else .stray)
          | roles => .error (.ambiguous argument (roleNames roles))

def rolesOf (flags : List Flag) : List String → Except Misuse (List (String × Role))
  | [] => .ok []
  | "--" :: rest => .ok (("--", .dashes) :: rest.map fun a => (a, .plain))
  | a :: rest => do
    let role ← roleOf flags a
    return (a, role) :: (← rolesOf flags rest)

structure Query where
  text : String
  riskType : Option String := none
  topK : Option Int := none
  threshold : Option Float := none
  summary : Bool := false

inductive Order where
  | scan
  | rebuild
  | bootstrap
  | status
  | categories
  | search (q : Query)

/-- How far the reading of the arguments of a command has come: the text that stands for itself, the options,
and the arguments that nothing is known of. -/
structure Gathered where
  text : Option String := none
  query : Query := { text := "" }
  unknown : List String := []

def takeValue (f : Flag) (value : String) (q : Query) : Except Misuse Query :=
  if f.names = ["--top-k"] then
    match readInt? value.toList with
    | some n => .ok { q with topK := some n }
    | none => .error (.notWhole f value)
  else if f.names = ["--threshold"] then
    match readFloat? value.toList with
    | some x => .ok { q with threshold := some x }
    | none => .error (.notNumber f value)
  else .ok { q with riskType := some value }

/-- Reads the letters behind the letter of help: more of that letter change nothing, and neither do others, but
a dash or an equals sign is refused. -/
def afterHelp : List Char → Except Misuse Unit
  | [] => .ok ()
  | '-' :: r => .error (.valueIgnored helpFlag (String.ofList ('-' :: r)))
  | 'h' :: '=' :: r => .error (.valueIgnored helpFlag (String.ofList r))
  | 'h' :: r => afterHelp r
  | _ => .ok ()

/-- An option that takes no value refuses one; but a letter may stand for several. -/
def withoutValue (f : Flag) (value : Option Attached) : Except Misuse Unit :=
  match value with
  | none => .ok ()
  | some (.behindLetter v) => if v.isEmpty then .error (.valueIgnored f v) else afterHelp v.toList
  | some (.behindSign v) => .error (.valueIgnored f v)

/-- Takes an option and the arguments behind it; gives those that are left, or nothing if help is asked for. -/
def takeOption (f : Flag) (value : Option Attached) (rest : List (String × Role)) (p : Gathered) :
    Except Misuse (Option (Gathered × List (String × Role))) :=
  if f.takesValue then
    match value, rest with
    | some v, _ => do return some ({ p with query := ← takeValue f v.value p.query }, rest)
    | none, (v, .plain) :: rest => do return some ({ p with query := ← takeValue f v p.query }, rest)
    | none, _ => .error (.valueMissing f)
  else do
    withoutValue f value
    if f = helpFlag then return none
    return some ({ p with query := { p.query with summary := true } }, rest)

/-- The argument that stands for itself at the front, with dashes before or behind it, and what is left. -/
def takePlain? : List (String × Role) → Option (String × List (String × Role))
  | (_, .dashes) :: (a, .plain) :: rest => some (a, rest)
  | (a, .plain) :: (_, .dashes) :: rest => some (a, rest)
  | (a, .plain) :: rest => some (a, rest)
  | _ => none

def takeText (wanted : Bool) (items : List (String × Role)) (p : Gathered) : Gathered × List (String × Role) :=
  if wanted && p.text.isNone then
    match takePlain? items with
    | some (a, rest) => ({ p with text := some a }, rest)
    | none => (p, items)
  else (p, items)

def setAside (items : List (String × Role)) (p : Gathered) : Gathered :=
  { p with unknown := p.unknown ++ items.map (·.1) }

/-- Reads the arguments of a command in order. The number of steps is at most twice that of the arguments. -/
def readItems (wanted : Bool) : (steps : Nat) → List (String × Role) → Gathered → Except Misuse (Option Gathered)
  | 0, items, p => .ok (some (setAside items p))
  | _ + 1, [], p => .ok (some p)
  | steps + 1, (a, role) :: rest, p =>
    match role with
    | .stray => readItems wanted steps rest (setAside [(a, role)] p)
    | .option f _ value =>
      match takeOption f value rest p with
      | .error m => .error m
      | .ok none => .ok none
      | .ok (some (p, rest)) => readItems wanted steps rest p
    | _ =>
      let (p, left) := takeText wanted ((a, role) :: rest) p
      if left.length ≤ rest.length then readItems wanted steps left p
      else
        let plain := left.takeWhile fun e => !e.2.isOption
        readItems wanted steps (left.drop plain.length) (setAside plain p)

/-- The order of a command without a text of its own. -/
def simpleOrder? (name : String) : Option Order :=
  (names.zip [Order.scan, .rebuild, .bootstrap, .status, .categories]).find? (fun e => e.1 = name) |>.map (·.2)

/-- The arguments that nothing is known of are a misuse of the whole program. -/
def finish (unknown : List String) (order : Option Order) : Except Refusal (Option Order) :=
  if unknown.isEmpty then .ok order else .error (.misuse none (.unrecognized unknown))

def blame {α : Type} (command : Option String) : Except Misuse α → Except Refusal α
  | .ok a => .ok a
  | .error m => .error (.misuse command m)

/-- Reads the arguments of a command; `unknown` were found before it. -/
def readCommand (unknown : List String) (name : String) (arguments : List String) : Except Refusal (Option Order) := do
  let isSearch := name == "search"
  let items ← blame (some name) (rolesOf (if isSearch then searchFlags else [helpFlag]) arguments)
  match ← blame (some name) (readItems isSearch (2 * items.length + 1) items {}) with
  | none => throw (.help (some name))
  | some p =>
    if !isSearch then finish (unknown ++ p.unknown) (simpleOrder? name)
    else
      match p.text with
      | none => throw (.misuse (some name) (.required "query"))
      | some text => finish (unknown ++ p.unknown) (some (.search { p.query with text := text }))

/-- Reads the arguments before the command; what comes behind its name belongs to it. -/
def readProgram (unknown : List String) : List (String × Role) → Except Refusal (Option Order)
  | [] => finish unknown none
  | (a, .stray) :: rest => readProgram (unknown ++ [a]) rest
  | (_, .option f _ value) :: _ => do
    blame none (withoutValue f value)
    throw (.help none)
  | (a, .plain) :: rest =>
    if names.contains a then readCommand unknown a (rest.map (·.1))
    else .error (.misuse none (.unknownCommand a))
  | (a, .dashes) :: rest =>
    if rest.isEmpty then finish (unknown ++ [a]) none else .error (.misuse none (.unknownCommand a))

/-- The order that arguments give; none if there are no arguments. -/
def read (arguments : List String) : Except Refusal (Option Order) := do
  readProgram [] (← blame none (rolesOf [helpFlag] arguments))

end Compendium.Command

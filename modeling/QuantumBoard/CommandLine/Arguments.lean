import QuantumBoard.Decimal.Numeral

/-! Arguments of the command line: a command, its options with their values, and the flag `-v`
anywhere, which may be repeated. An option is given at most once; a value that is an
argument of its own does not start with a dash, unless it is one. -/

namespace QuantumBoard.CommandLine

inductive Command where
  | compile (link format : String) (time : Option Float)
  | cells (filter : Option String)
  | version
deriving DecidableEq

/-- The two spellings of an option. -/
structure Spelling where
  short : Char
  long : String
deriving Repr, DecidableEq

/-- What one argument says. -/
inductive Reading where
  | flag
  | value (option : String) (text : List Char)
  /-- The value is the next argument. -/
  | wants (option : String)
deriving DecidableEq

/-- An option in its long form, with or without its value. -/
def readLong (known : List Spelling) (cs : List Char) : Option Reading :=
  let name := String.ofList (cs.takeWhile (· ≠ '='))
  match cs.dropWhile (· ≠ '='), known.find? (·.long = name) with
  | [], some option => some (.wants option.long)
  | [], none => if name = "verbose" then some .flag else none
  | _ :: text, some option => some (.value option.long text)
  | _ :: _, none => none

/-- Letters behind one dash: flags, then possibly an option with its value behind it. -/
def readShort (known : List Spelling) : List Char → Option Reading
  | [] => none
  | c :: rest =>
    match known.find? (·.short = c), rest with
    | some option, [] => some (.wants option.long)
    | some option, '=' :: text => some (.value option.long text)
    | some option, text => some (.value option.long text)
    | none, [] => if c = 'v' then some .flag else none
    | none, rest => if c = 'v' then readShort known rest else none

def readArgument (known : List Spelling) (argument : String) : Option Reading :=
  match argument.toList with
  | '-' :: '-' :: cs => readLong known cs
  | '-' :: cs => readShort known cs
  | _ => none

/-- Whether an argument can be the value of an option. -/
def isValue (argument : String) : Bool := argument = "-" || !argument.startsWith "-"

/-- The options of a command, in order; two dashes may end them. -/
def readOptions (known : List Spelling) : List String → Option (List (String × String))
  | [] | ["--"] => some []
  | argument :: rest =>
    match readArgument known argument, rest with
    | some .flag, rest => readOptions known rest
    | some (.value option text), rest =>
      (readOptions known rest).map ((option, String.ofList text) :: ·)
    | some (.wants option), value :: rest =>
      if isValue value then (readOptions known rest).map ((option, value) :: ·) else none
    | _, _ => none

/-- The options of a command, each at most once. -/
def uniqueOptions (known : List Spelling) (arguments : List String) :
    Option (List (String × String)) := do
  let options ← readOptions known arguments
  if (options.map Prod.fst).Nodup then some options else none

def compileOptions : List Spelling := [⟨'u', "url"⟩, ⟨'f', "format"⟩, ⟨'t', "time"⟩]

def cellsOptions : List Spelling := [⟨'f', "filter"⟩]

/-- The time, when it is given; it must be a number. -/
def readTime : Option String → Option (Option Float)
  | none => some none
  | some text => (Decimal.parse? text).map some

/-- The command that the arguments spell; a link that is not given is the default one. -/
def readCommand (defaultLink : Option String) : List String → Option Command
  | [] => none
  | "compile" :: rest => do
    let options ← uniqueOptions compileOptions rest
    let link ← (options.lookup "url").or defaultLink
    let time ← readTime (options.lookup "time")
    return .compile link ((options.lookup "format").getD "text") time
  | "cells" :: rest => do
    let options ← uniqueOptions cellsOptions rest
    return .cells (options.lookup "filter")
  | "version" :: rest => (uniqueOptions [] rest).map fun _ => .version
  | argument :: rest =>
    if readArgument [] argument = some .flag then readCommand defaultLink rest else none

end QuantumBoard.CommandLine

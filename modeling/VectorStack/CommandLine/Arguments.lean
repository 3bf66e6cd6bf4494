import VectorStack.Assembly.Config
import VectorStack.CommandLine.DumpRange
/-!
The arguments that a run is started with: one source, flags, and settings with a value, in any
order. Only search paths and dumps may be given more than once.
-/

namespace VectorStack

/-- Options without a value. -/
inductive Flag where
  | trace
  | traceMacros
  | symbols
  | listing
  | strictTypes
  | poolLabel
deriving DecidableEq, Repr

namespace Flag

def all : List Flag := [trace, traceMacros, symbols, listing, strictTypes, poolLabel]

/-- What is written behind two dashes. -/
def name : Flag → String
  | trace => "trace"
  | traceMacros => "trace-macros"
  | symbols => "symbols"
  | listing => "listing"
  | strictTypes => "strict-types"
  | poolLabel => "pool-anchor"

def ofName? (text : String) : Option Flag := all.find? fun flag => flag.name == text

end Flag

/-- Options with a value. -/
inductive Setting where
  | searchPath
  | steps
  | dump
  | logLevel
deriving DecidableEq, Repr

namespace Setting

def all : List Setting := [searchPath, steps, dump, logLevel]

/-- What is written behind two dashes. -/
def name : Setting → String
  | searchPath => "include"
  | steps => "steps"
  | dump => "dump"
  | logLevel => "log-level"

/-- What is written behind one dash. -/
def letter? : Setting → Option Char
  | searchPath => some 'I'
  | steps => some 's'
  | dump => none
  | logLevel => some 'l'

def ofName? (text : String) : Option Setting := all.find? fun setting => setting.name == text

def ofLetter? (c : Char) : Option Setting := all.find? fun setting => setting.letter? == some c

end Setting

/-- How much is logged, from least to most. -/
inductive LogLevel where
  | error
  | warn
  | info
  | debug
  | trace
deriving DecidableEq, Repr

namespace LogLevel

def all : List LogLevel := [error, warn, info, debug, trace]

def name : LogLevel → String
  | error => "error"
  | warn => "warn"
  | info => "info"
  | debug => "debug"
  | trace => "trace"

/-- A level by its name in any case, or by its number counted from one. -/
def parse? (text : String) : Option LogLevel :=
  match all.find? fun level => level.name == text.map Char.toLower with
  | some level => some level
  | none => ((Decimal.unsigned? 10 text.toList).filter (0 < ·)).bind fun n => all[n.toNat - 1]?

end LogLevel

/-- Why arguments start no run. -/
inductive UsageFault where
  | unknownOption (text : String)
  | missingValue (setting : Setting)
  | badValue (setting : Setting) (text : String)
  | badDump (fault : DumpRangeFault)
  | repeated (name : String)
  | missingSource
  | extraSource (text : String)
deriving DecidableEq, Repr

namespace UsageFault

def message : UsageFault → String
  | unknownOption text => "unknown option `" ++ text ++ "`"
  | missingValue setting => "`--" ++ setting.name ++ "` needs a value"
  | badValue setting text => "`" ++ text ++ "` is no value for `--" ++ setting.name ++ "`"
  | badDump fault => fault.message
  | repeated name => "`--" ++ name ++ "` is given more than once"
  | missingSource => "no source file is given"
  | extraSource text => "unexpected argument `" ++ text ++ "`"

end UsageFault

/-- One argument, or a setting and the argument that holds its value. -/
inductive Argument where
  | source (text : String)
  | flag (flag : Flag)
  | setting (setting : Setting) (value : String)
deriving DecidableEq, Repr

namespace Argument

/-- What one argument is by itself. -/
inductive Shape where
  | whole (argument : Argument)
  /-- Only sources follow. -/
  | separator
  /-- The value of the setting is the next argument. -/
  | open (setting : Setting)
  | unknown
deriving DecidableEq, Repr

/-- An argument without its two dashes. -/
def shapeOfLong (text : List Char) : Shape :=
  match text.span (· != '=') with
  | (name, []) =>
    match Flag.ofName? (String.ofList name), Setting.ofName? (String.ofList name) with
    | some known, _ => .whole (.flag known)
    | none, some known => .open known
    | none, none => .unknown
  | (name, _ :: value) =>
    match Setting.ofName? (String.ofList name) with
    | some known => .whole (.setting known (String.ofList value))
    | none => .unknown

/-- An argument without its dash; an equals sign between the letter and the value is left out. -/
def shapeOfShort (letter : Char) (rest : List Char) : Shape :=
  match Setting.ofLetter? letter, rest with
  | none, _ => .unknown
  | some known, [] => .open known
  | some known, '=' :: value => .whole (.setting known (String.ofList value))
  | some known, value => .whole (.setting known (String.ofList value))

/-- What an argument is by itself; a dash alone is a source. -/
def shape (text : String) : Shape :=
  match text.toList with
  | ['-', '-'] => .separator
  | '-' :: '-' :: long => shapeOfLong long
  | '-' :: letter :: rest => shapeOfShort letter rest
  | _ => .whole (.source text)

/-- Whether a text can be the value of the setting before it; other texts with a dash in front
cannot. -/
def isValue (text : String) : Bool := text == "-" || text.toList.head? != some '-'

/-- Read arguments in order. -/
def readAll : List String → Except UsageFault (List Argument)
  | [] => .ok []
  | text :: rest =>
    match shape text with
    | .whole argument => do .ok (argument :: (← readAll rest))
    | .separator => .ok (rest.map source)
    | .unknown => .error (.unknownOption text)
    | .open opened =>
      match rest with
      | [] => .error (.missingValue opened)
      | value :: rest =>
        if isValue value then do .ok (.setting opened value :: (← readAll rest))
        else .error (.missingValue opened)

end Argument

/-- What a run is asked to do. -/
structure Arguments where
  source : String
  /-- Where imported text is looked for, besides next to its importer. -/
  searchPaths : List String
  /-- Most steps that are taken. -/
  steps : Nat
  dumps : List DumpRange
  logLevel : LogLevel
  flags : List Flag
deriving DecidableEq, Repr

namespace Arguments

/-- Steps that are taken when no other number is given. -/
def defaultSteps : Nat := 1000000

/-- The values given for a setting, in order. -/
def values (setting : Setting) (given : List Argument) : List String :=
  given.filterMap fun
    | .setting s value => if s = setting then some value else none
    | _ => none

/-- The only source. -/
def onlySource (given : List Argument) : Except UsageFault String :=
  match given.filterMap fun | .source text => some text | _ => none with
  | [] => .error .missingSource
  | [text] => if text = "" then .error .missingSource else .ok text
  | _ :: text :: _ => .error (.extraSource text)

/-- The value given for a setting, or its default. -/
def single {α : Type} (setting : Setting) (read? : String → Option α) (default : α)
    (given : List Argument) : Except UsageFault α :=
  match values setting given with
  | [] => .ok default
  | [text] => (read? text).elim (.error (.badValue setting text)) .ok
  | _ => .error (.repeated setting.name)

/-- The flags that are given. -/
def flagsOf (given : List Argument) : Except UsageFault (List Flag) :=
  let flags := given.filterMap fun | .flag flag => some flag | _ => none
  match Flag.all.find? fun flag => 1 < flags.count flag with
  | some flag => .error (.repeated flag.name)
  | none => .ok flags

/-- A directory is any text but the empty one. -/
def searchPath (text : String) : Except UsageFault String :=
  if text = "" then .error (.badValue .searchPath text) else .ok text

/-- What arguments ask for. -/
def parse (texts : List String) : Except UsageFault Arguments := do
  let given ← Argument.readAll texts
  .ok
    { source := ← onlySource given
      searchPaths := ← (values .searchPath given).mapM searchPath
      steps := ← single .steps
        (fun text => (Decimal.unsigned? 10 text.toList).map UInt64.toNat) defaultSteps given
      dumps := ← (values .dump given).mapM fun text => (DumpRange.parse text).mapError .badDump
      logLevel := ← single .logLevel LogLevel.parse? .warn given
      flags := ← flagsOf given }

def has (arguments : Arguments) (flag : Flag) : Bool := arguments.flags.contains flag

/-- The choices for assembling. -/
def config (arguments : Arguments) : AssemblyConfig :=
  { AssemblyConfig.standard with
    defaultType :=
      if arguments.has .strictTypes then none else AssemblyConfig.standard.defaultType
    requirePoolLabel := arguments.has .poolLabel }

end Arguments

end VectorStack

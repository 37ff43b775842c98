import VisibleDifference.Conditions
import VisibleDifference.Decimal.Reader
import VisibleDifference.Terminal.PlainText

/-!
# Command-line arguments

Two picture files, and options that are given once at most. An option takes its value after an
equals sign or from the next argument, unless that one begins with a dash; a one-letter option also
from the rest of its own argument. After `--` all arguments are files. A value that stands in an
argument of its own is looked at when the next argument has been recognised, so an argument that is
not recognised is reported first. Asking for help or for the version ends the reading there.
-/

namespace VisibleDifference.CommandLine

/-- The options that take a value. -/
inductive ValueOption where
  | gamma
  | luminance
  | fieldOfView
  | threshold
  | mapFile
  | exactFile
deriving DecidableEq, Repr

namespace ValueOption

def all : List ValueOption := [gamma, luminance, fieldOfView, threshold, mapFile, exactFile]

def long : ValueOption → String
  | gamma => "gamma"
  | luminance => "luminance"
  | fieldOfView => "fov"
  | threshold => "threshold"
  | mapFile => "output"
  | exactFile => "exact-diff"

def placeholder : ValueOption → String
  | gamma => "F"
  | luminance => "CD_M2"
  | fieldOfView => "DEGREES"
  | threshold => "PIXELS"
  | mapFile => "FILE"
  | exactFile => "FILE"

/-- The option as it is named in messages. -/
def usage (o : ValueOption) : String := s!"--{o.long} <{o.placeholder}>"

end ValueOption

/-- The options that take no value. -/
inductive Flag where
  | verbose
  | help
  | version
deriving DecidableEq, Repr

namespace Flag

def all : List Flag := [verbose, help, version]

def long : Flag → String
  | verbose => "verbose"
  | help => "help"
  | version => "version"

def letter : Flag → Char
  | verbose => 'v'
  | help => 'h'
  | version => 'V'

/-- The flag as it is named in messages. -/
def usage (f : Flag) : String := s!"--{f.long}"

end Flag

inductive UsageFault where
  | invalidReal (option : ValueOption) (value : String) (fault : Decimal.NumeralFault)
  | invalidCount (option : ValueOption) (value : String) (fault : Decimal.NumeralFault)
  | valueMissing (option : ValueOption)
  | repeated (usage : String)
  | valueNotTaken (value usage : String)
  | unexpected (argument : String)
  | filesMissing

def realFaultText : Decimal.NumeralFault → String
  | .empty => "cannot parse float from empty string"
  | _ => "invalid float literal"

def countFaultText : Decimal.NumeralFault → String
  | .empty => "cannot parse integer from empty string"
  | .malformed => "invalid digit found in string"
  | .tooLarge => "number too large to fit in target type"

/-- What is said about a fault. Arguments are quoted as plain text. -/
def UsageFault.message : UsageFault → String
  | .invalidReal o value fault =>
      s!"invalid value '{Terminal.plain value}' for '{o.usage}': {realFaultText fault}"
  | .invalidCount o value fault =>
      s!"invalid value '{Terminal.plain value}' for '{o.usage}': {countFaultText fault}"
  | .valueMissing o => s!"a value is required for '{o.usage}' but none was supplied"
  | .repeated usage => s!"the argument '{usage}' cannot be used multiple times"
  | .valueNotTaken value usage =>
      s!"unexpected value '{Terminal.plain value}' for '{usage}' found; no more were expected"
  | .unexpected argument => s!"unexpected argument '{Terminal.plain argument}' found"
  | .filesMissing => "the following required arguments were not provided:"

/-- Why arguments set no task. -/
inductive Halt where
  | fault (f : UsageFault)
  | help
  | version

def reject {α : Type} (f : UsageFault) : Except Halt α := .error (.fault f)

/-- What has been understood of the arguments so far. -/
structure Draft where
  files : List String := []
  gamma : Option Float32 := none
  luminance : Option Float32 := none
  fieldOfView : Option Float32 := none
  threshold : Option Nat := none
  mapFile : Option String := none
  exactFile : Option String := none
  verbose : Bool := false
  /-- An option that waits for its value, or whose value has not been looked at yet. -/
  pending : Option (ValueOption × Option String) := none
  filesOnly : Bool := false

namespace Draft

def isGiven (d : Draft) : ValueOption → Bool
  | .gamma => d.gamma.isSome
  | .luminance => d.luminance.isSome
  | .fieldOfView => d.fieldOfView.isSome
  | .threshold => d.threshold.isSome
  | .mapFile => d.mapFile.isSome
  | .exactFile => d.exactFile.isSome

def readReal (o : ValueOption) (value : String) : Except Halt Float32 :=
  (Decimal.readReal value).mapError fun f => .fault (.invalidReal o value f)

def readCount (o : ValueOption) (value : String) : Except Halt Nat :=
  (Decimal.readCount value).mapError fun f => .fault (.invalidCount o value f)

def readFile (o : ValueOption) (value : String) : Except Halt String :=
  if value = "" then reject (.valueMissing o) else .ok value

def store (d : Draft) (o : ValueOption) (value : String) : Except Halt Draft :=
  if d.isGiven o then reject (.repeated o.usage)
  else match o with
    | .gamma => (readReal o value).map fun v => { d with gamma := some v }
    | .luminance => (readReal o value).map fun v => { d with luminance := some v }
    | .fieldOfView => (readReal o value).map fun v => { d with fieldOfView := some v }
    | .threshold => (readCount o value).map fun v => { d with threshold := some v }
    | .mapFile => (readFile o value).map fun v => { d with mapFile := some v }
    | .exactFile => (readFile o value).map fun v => { d with exactFile := some v }

/-- Looks at a value that has been put off. -/
def settle (d : Draft) : Except Halt Draft :=
  match d.pending with
  | none => .ok d
  | some (o, none) => reject (.valueMissing o)
  | some (o, some value) => { d with pending := none }.store o value

def raise (d : Draft) (f : Flag) : Except Halt Draft := do
  let d ← d.settle
  match f with
  | .verbose => if d.verbose then reject (.repeated f.usage) else return { d with verbose := true }
  | .help => throw .help
  | .version => throw .version

/-- An option with the value written behind it, or one that waits for its value. -/
def option (d : Draft) (o : ValueOption) : Option String → Except Halt Draft
  | some value => do (← d.settle).store o value
  | none => do return { ← d.settle with pending := some (o, none) }

/-- The text before the first equals sign, and the text after it if there is one. -/
def splitAtEquals (cs : List Char) : String × Option String :=
  match cs.span (· ≠ '=') with
  | (name, []) => (String.ofList name, none)
  | (name, _ :: value) => (String.ofList name, some (String.ofList value))

def longOption (d : Draft) (cs : List Char) : Except Halt Draft :=
  let (name, value) := splitAtEquals cs
  match Flag.all.find? (·.long = name), ValueOption.all.find? (·.long = name), value with
  | some f, _, none => d.raise f
  | some f, _, some value => reject (.valueNotTaken value f.usage)
  | none, some o, value => d.option o value
  | none, none, _ => reject (.unexpected s!"--{name}")

/-- The value in the rest of a one-letter option, without a leading equals sign. -/
def attachedValue : List Char → Option String
  | [] => none
  | '=' :: value => some (String.ofList value)
  | value => some (String.ofList value)

def shortOptions (d : Draft) : List Char → Except Halt Draft
  | [] => .ok d
  | c :: cs =>
      match Flag.all.find? (·.letter = c) with
      | some f => do (← d.raise f).shortOptions cs
      | none =>
          if c = 'o' then d.option .mapFile (attachedValue cs)
          else reject (.unexpected (String.ofList ['-', c]))

def file (d : Draft) (name : String) : Except Halt Draft :=
  if d.files.length < 2 then do
    let d ← d.settle
    return { d with files := d.files ++ [name] }
  else reject (.unexpected name)

/-- An argument that is neither an option nor `--`. -/
def plain (d : Draft) (argument : String) : Except Halt Draft :=
  match d.pending with
  | some (o, none) => .ok { d with pending := some (o, some argument) }
  | _ => d.file argument

def argument (d : Draft) (argument : String) : Except Halt Draft :=
  if d.filesOnly then d.file argument
  else match argument.toList with
    | ['-', '-'] => .ok { d with filesOnly := true }
    | '-' :: '-' :: cs => d.longOption cs
    | '-' :: c :: cs => d.shortOptions (c :: cs)
    | _ => d.plain argument

def arguments (d : Draft) : List String → Except Halt Draft
  | [] => d.settle
  | a :: as => do (← d.argument a).arguments as

end Draft

/-- What a run is asked to do. -/
structure Task where
  left : String
  right : String
  conditions : Conditions
  verbose : Bool
  mapFile : Option String
  exactFile : Option String

/-- A map is wanted if there is a file to write it to. -/
def Draft.task (d : Draft) : Except Halt Task :=
  match d.files with
  | [left, right] =>
      let defaults : Conditions := {}
      .ok
        { left
          right
          conditions :=
            { gamma := d.gamma.getD defaults.gamma
              luminance := d.luminance.getD defaults.luminance
              fieldOfView := d.fieldOfView.getD defaults.fieldOfView
              threshold := d.threshold.getD defaults.threshold
              wantsMap := d.mapFile.isSome }
          verbose := d.verbose
          mapFile := d.mapFile
          exactFile := d.exactFile }
  | _ => reject .filesMissing

def Task.ofArguments (as : List String) : Except Halt Task := do
  (← ({} : Draft).arguments as).task

end VisibleDifference.CommandLine

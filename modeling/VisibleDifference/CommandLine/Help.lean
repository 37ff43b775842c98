import VisibleDifference.CommandLine.Arguments

/-!
# Help

What is printed when help or the version is asked for. Every option has one line: its spellings,
a description, and the value it has when it is not given.
-/

namespace VisibleDifference.CommandLine

def versionText : String := "visible-difference 0.1.0"

def ValueOption.spelling : ValueOption → String
  | mapFile => s!"-o, {usage mapFile}"
  | o => s!"    {o.usage}"

def ValueOption.description : ValueOption → String
  | gamma => "Gamma of the display"
  | luminance => "Luminance of the display at white, in candela per square metre"
  | fieldOfView => "Angle that the width of a picture spans, in degrees"
  | threshold => "Pictures match while fewer pixels than this differ visibly"
  | mapFile => "Write the map of visibly different pixels"
  | exactFile => "Write the exact difference of all channels"

/-- The value of an option that is not given, if it has one. -/
def ValueOption.standard : ValueOption → Option String
  | gamma => some (Decimal.text ({} : Conditions).gamma)
  | luminance => some (Decimal.text ({} : Conditions).luminance)
  | fieldOfView => some (Decimal.text ({} : Conditions).fieldOfView)
  | threshold => some (toString ({} : Conditions).threshold)
  | mapFile => none
  | exactFile => none

def Flag.spelling (f : Flag) : String := String.ofList ['-', f.letter, ',', ' '] ++ f.usage

def Flag.description : Flag → String
  | verbose => "Print the conditions in effect"
  | help => "Print this help"
  | version => "Print the version"

/-- An option and what it does, in two columns. -/
def optionLine (spelling description : String) : String :=
  "  " ++ spelling ++ String.ofList (List.replicate (26 - spelling.length) ' ') ++ description

def ValueOption.line (o : ValueOption) : String :=
  optionLine o.spelling <| match o.standard with
    | none => o.description
    | some value => s!"{o.description} [default: {value}]"

def helpLines : List String :=
  ["Tells whether two pictures look the same to a viewer.", "",
   "Usage: visible-difference [OPTIONS] <IMAGE_A> <IMAGE_B>", "", "Options:"] ++
    ValueOption.all.map ValueOption.line ++
    Flag.all.map (fun f => optionLine f.spelling f.description) ++
    ["", "The exit code is 0 for a match, 1 for a difference and 2 for an error."]

def helpText : String := String.intercalate "\n" helpLines

end VisibleDifference.CommandLine

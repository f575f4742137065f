/-!
# Colours

Parts of what is shown are painted by what they say. Where colours are off, painting changes
nothing.
-/

namespace Crosswalk.CommandLine

inductive Tone where
  | success
  | warning
  | failure
  | info
  /-- The text is of less weight than those around it. -/
  | dim
deriving DecidableEq

namespace Tone

/-- A control sequence of a terminal that sets how the following text looks. -/
def control (code : String) : String :=
  "\x1b[" ++ code ++ "m"

/-- The codes that begin and end a tone; a colour is given by its red, green and blue parts. -/
def codes : Tone → String × String
  | success => ("38;2;000;128;000", "39")
  | warning => ("38;2;255;165;000", "39")
  | failure => ("38;2;255;000;000", "39")
  | info => ("38;2;173;216;230", "39")
  | dim => ("2", "0")

/-- A text in a tone, if colours are on. -/
def paint (tone : Tone) (colours : Bool) (s : String) : String :=
  if colours then control tone.codes.1 ++ s ++ control tone.codes.2 else s

end Tone

end Crosswalk.CommandLine

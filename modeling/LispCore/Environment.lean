/-
  LispCore — settings.

  Two settings are texts of the environment: the nesting limit and the encoding
  of files.  A text that makes no sense counts as if it were not there.

  * `Environment`: the texts;
  * `positiveSetting`: a positive integer from a text, or a default;
  * `Environment.depthLimit`: the nesting limit, 500 by default;
  * `Environment.encodingName`: the name of the encoding, UTF-8 by default.
-/
import LispCore.Text.Numeral

namespace LispCore

/-- The settings as they stand in the environment; `none` where one is unset. -/
structure Environment where
  /-- The nesting limit. -/
  maxDepth : Option String := none
  /-- The name of the encoding of files. -/
  slurpEncoding : Option String := none
  deriving DecidableEq, Repr

/-- The positive integer that a text stands for once the blanks at its ends are
    dropped, and `default` for every other text or none. -/
def positiveSetting (raw : Option String) (default : Int) : Int :=
  match raw.bind fun text => Text.integerLiteral? (Text.strip text.toList) with
  | some n => if 0 < n then n else default
  | none => default

namespace Environment

/-- In how many lists an element may lie to be rendered or compared. -/
def depthLimit (env : Environment) : Nat := (positiveSetting env.maxDepth 500).toNat

/-- The name of the encoding of files: the setting without the blanks at its ends, UTF-8 if
    nothing is left of it. -/
def encodingName (env : Environment) : String :=
  let name := Text.strip (env.slurpEncoding.getD "").toList
  if name = [] then "utf-8" else String.ofList name

end Environment

end LispCore

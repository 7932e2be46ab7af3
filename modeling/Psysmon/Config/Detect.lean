import Psysmon.Config.Modern

/-!
# Psysmon.Config.Detect — config-format detection (`config/detect.py`)

`detect` decides from the first line that is neither blank, a comment nor a `config` line.
-/

namespace Psysmon

open Lib Text

/-- The two grammars. -/
inductive ConfigFormat
  | legacy | modern
  deriving DecidableEq

/-- `_is_modern_line`. -/
def isModernLine (stripped first : Text) : Bool :=
  let tokens := split stripped
  if first = "object".toList ∧ 3 ≤ tokens.length ∧ tokens[2]? = some "\x7b".toList then true
  else if (first = "root".toList ∨ first = "set".toList) ∧ "=".toList ∈ tokens then true
  else false

/-- What one line says about the format; `none` is a line that `detect` passes over. -/
def detectLine (raw : Text) : Option ConfigFormat :=
  match strip raw with
  | [] => none
  | c :: cs =>
    if c = ';' ∨ c = '#' then none
    else
      let first := (split (c :: cs)).headD []
      if first = "config".toList then none
      else if isModernLine (c :: cs) first then some .modern
      else some .legacy

/-- `detect`. -/
def detect (text : Text) : ConfigFormat := ((splitlines text).findSome? detectLine).getD .legacy

end Psysmon

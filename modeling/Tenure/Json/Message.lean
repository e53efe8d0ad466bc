import Tenure.Json.Number
import Tenure.Json.Node
import Tenure.Text.Quoted

/-!
# Messages of decoding errors

The wording of every `Misfit`, in one place.
-/

namespace Tenure.Json

/-- How a value that was found is named. -/
def Found.describe : Found → String
  | .null => "null"
  | .bool true => "boolean `true`"
  | .bool false => "boolean `false`"
  | .integer n => "integer `" ++ toString n ++ "`"
  | .real x => "floating point `" ++ realText x ++ "`"
  | .text s => "string " ++ Text.quoted s
  | .sequence => "sequence"
  | .map => "map"

/-- The names that could have stood there. -/
def alternatives : List String → String
  | [] => "there are no variants"
  | [a] => "expected `" ++ a ++ "`"
  | [a, b] => "expected `" ++ a ++ "` or `" ++ b ++ "`"
  | names => "expected one of " ++ ", ".intercalate (names.map fun n => "`" ++ n ++ "`")

/-- What a misfit says. -/
def Misfit.message : Misfit → String
  | .invalidType found expected => "invalid type: " ++ found.describe ++ ", expected " ++ expected
  | .invalidValue found expected => "invalid value: " ++ found.describe ++ ", expected " ++ expected
  | .invalidLength n expected =>
    "invalid length " ++ String.ofList (Numeric.decimalDigits n) ++ ", expected " ++ expected
  | .missingField name => "missing field `" ++ name ++ "`"
  | .duplicateField name => "duplicate field `" ++ name ++ "`"
  | .unknownField name expected => "unknown field `" ++ name ++ "`, " ++ alternatives expected
  | .unknownVariant name expected => "unknown variant `" ++ name ++ "`, " ++ alternatives expected
  | .invalidDuration text => "invalid duration " ++ Text.quoted text
  | .neitherNumberNorText => "data did not match any variant of untagged enum RawDuration"
  | .negativeSeconds => "cannot convert float seconds to Duration: value is negative"
  | .secondsOutOfRange =>
    "cannot convert float seconds to Duration: value is either too big or NaN"
  | .durationOverflow => "overflow deserializing Duration"

end Tenure.Json

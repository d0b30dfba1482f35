import RowTypes.Calendar.Read
import RowTypes.Decimal.Basic
import RowTypes.Decode.Interval
import RowTypes.HostType
import RowTypes.Json.Read
import RowTypes.Text.Numeral

/-! What an application makes of the text of a database value, and the type of the
result. -/

namespace RowTypes

inductive Decoded where
  | null
  | number (x : Float)
  | string (s : String)
  | boolean (b : Bool)
  | bigint (n : Int)
  | date (m : Calendar.Moment)
  | json (value : Json)
deriving Inhabited

/-- The type of a value. Of a JSON value it is known only where JSON has no other
values of that kind. -/
def Decoded.hostType : Decoded → HostType
  | number _ | json (.number _) => .number
  | string _ | json (.string _) => .string
  | boolean _ | json (.boolean _) => .boolean
  | bigint _ => .bigint
  | date _ => .date
  | _ => .unknown

inductive DecodeError where
  | notBoolean (text : String)
  | notInterval (text : String)
  | malformed
deriving DecidableEq, Repr

def DecodeError.message? : DecodeError → Option String
  | notBoolean text => some ("not a boolean: " ++ text)
  | notInterval text => some ("not an interval: " ++ text)
  | malformed => none

inductive Decoder where
  | number
  | bigint
  | string
  | boolean
  | date
  | json
  | intervalSeconds
deriving DecidableEq, Repr

namespace Decoder

def ofName? : String → Option Decoder
  | "number" => some number
  | "bigint" => some bigint
  | "string" => some string
  | "boolean" => some boolean
  | "date" => some date
  | "json" => some json
  | "interval-seconds" => some intervalSeconds
  | _ => none

def label : Decoder → String
  | number => "Number"
  | bigint => "Bigint"
  | string => "String"
  | boolean => "Boolean"
  | date => "Date"
  | json => "Json"
  | intervalSeconds => "IntervalSeconds"

def orMalformed (d : Option Decoded) : Except DecodeError Decoded :=
  match d with
  | some d => .ok d
  | none => .error .malformed

def decode (decoder : Decoder) (text : String) : Except DecodeError Decoded :=
  let trimmed := Text.trim text.toList
  match decoder with
  | number => orMalformed ((Decimal.ofText? trimmed).map fun d => .number d.toDouble)
  | bigint => orMalformed ((Text.signed? 128 trimmed).map .bigint)
  | string => .ok (.string text)
  | boolean =>
    let word := String.ofList trimmed
    if word = "t" ∨ word = "true" then .ok (.boolean true)
    else if word = "f" ∨ word = "false" then .ok (.boolean false)
    else .error (.notBoolean word)
  | date => orMalformed ((Calendar.moment? trimmed).map .date)
  | json => orMalformed ((Json.ofText? text).map .json)
  | intervalSeconds =>
    match Interval.ofText text with
    | .seconds s => .ok (.number s)
    | .nothing => .error (.notInterval text)
    | .unreadable => .error .malformed

end Decoder
end RowTypes

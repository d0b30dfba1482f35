import RowTypes.Decode.Decoder
import RowTypes.Keyed

/-! The types of decoded values, found by decoding a sample text of each database
type. A sample that cannot be decoded leaves the type unknown. -/

namespace RowTypes

/-- What decodes the values of a database type: one of the known decoders, or a
function of the application. -/
inductive TypeParser where
  | standard (d : Decoder)
  | custom (decode : String → Except DecodeError Decoded)

namespace TypeParser

def decode : TypeParser → String → Except DecodeError Decoded
  | standard d => d.decode
  | custom f => f

def label : TypeParser → String
  | standard d => d.label
  | custom _ => "custom"

end TypeParser

abbrev TypeParsers := List (String × TypeParser)

abbrev Samples := List (String × String)

namespace TypeParsers

def overlay (ps qs : TypeParsers) : TypeParsers := qs.foldl (fun ps (n, p) => Keyed.put n p ps) ps

def recommended : TypeParsers :=
  [("date", .standard .date), ("int8", .standard .number),
    ("interval", .standard .intervalSeconds), ("numeric", .standard .number),
    ("timestamp", .standard .date), ("timestamptz", .standard .date)]

end TypeParsers

def Samples.default : Samples :=
  [("int8", "0"), ("date", "2000-01-01"), ("interval", "1 hour"), ("numeric", "0"),
    ("timestamp", "2000-01-01"), ("timestamptz", "2000-01-01"), ("varchar", ""), ("text", ""),
    ("int2", "0"), ("int4", "0"), ("float4", "0"), ("float8", "0"), ("bool", "t"),
    ("money", "$0.00"), ("json", "\x7b\x7d"), ("jsonb", "\x7b\x7d")]

/-- The type of the decoded values of each database type that has a parser. -/
abbrev SampleTypes := List (String × HostType)

namespace SampleTypes

def typeOf (p : TypeParser) (sample : String) : HostType :=
  match p.decode sample with
  | .ok decoded => decoded.hostType
  | .error _ => .unknown

def resolve (ps : TypeParsers) (samples : Samples) : SampleTypes :=
  ps.map fun (name, p) => (name, typeOf p ((samples.lookup name).getD ""))

def hostType? (types : SampleTypes) (name : String) : Option HostType := types.lookup name

end SampleTypes
end RowTypes

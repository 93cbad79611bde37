import AssetShell.Literal.Datatype
import AssetShell.Reference.Chain

/-!
# Faults of decoding

Why a text or a value is not decoded. A break of the form, a value of the wrong type and an array
of the wrong length are one fault without explanation; the others name what is wrong.
-/

namespace AssetShell

inductive DecodeFault
  | malformed
  | missingField (name : String)
  | duplicateField (name : String)
  | unknownName (found : String) (expected : List String)
  | unknownDatatype (tag : String)
  | chain (fault : ChainFault)
  deriving DecidableEq, Repr

def Datatype.unknownMessage (tag : String) : String :=
  "unsupported-type: no validation rule for datatype '" ++ tag ++ "'"

namespace DecodeFault

def quoted (name : String) : String := "`" ++ name ++ "`"

def alternatives : List String → String
  | [] => "there are no variants"
  | [a] => "expected " ++ quoted a
  | [a, b] => "expected " ++ quoted a ++ " or " ++ quoted b
  | names => "expected one of " ++ ", ".intercalate (names.map quoted)

def explanation? : DecodeFault → Option String
  | .malformed => none
  | .missingField name => some ("missing field " ++ quoted name)
  | .duplicateField name => some ("duplicate field " ++ quoted name)
  | .unknownName found expected =>
    some ("unknown variant " ++ quoted found ++ ", " ++ alternatives expected)
  | .unknownDatatype tag => some (Datatype.unknownMessage tag)
  | .chain fault => some fault.message

end DecodeFault

abbrev Decoded (α : Type) := Except DecodeFault α

end AssetShell

import AssetShell.Number.Integer

/-!
# Datatypes

The twenty-four datatypes a literal can be declared with. A datatype is written by its name, with
or without the namespace mark `xs:`. Twelve of them hold integers.
-/

namespace AssetShell

inductive Datatype
  | string
  | normalizedString
  | boolean
  | decimal
  | float
  | double
  | byte
  | short
  | int
  | long
  | unsignedByte
  | unsignedShort
  | unsignedInt
  | unsignedLong
  | nonPositiveInteger
  | negativeInteger
  | nonNegativeInteger
  | positiveInteger
  | date
  | dateTime
  | time
  | anyURI
  | base64Binary
  | hexBinary
  deriving DecidableEq, Repr

namespace Datatype

def all : List Datatype :=
  [.string, .normalizedString, .boolean, .decimal, .float, .double, .byte, .short, .int, .long,
    .unsignedByte, .unsignedShort, .unsignedInt, .unsignedLong, .nonPositiveInteger,
    .negativeInteger, .nonNegativeInteger, .positiveInteger, .date, .dateTime, .time, .anyURI,
    .base64Binary, .hexBinary]

theorem mem_all (d : Datatype) : d ∈ all := by cases d <;> decide

def name : Datatype → String
  | .string => "string"
  | .normalizedString => "normalizedString"
  | .boolean => "boolean"
  | .decimal => "decimal"
  | .float => "float"
  | .double => "double"
  | .byte => "byte"
  | .short => "short"
  | .int => "int"
  | .long => "long"
  | .unsignedByte => "unsignedByte"
  | .unsignedShort => "unsignedShort"
  | .unsignedInt => "unsignedInt"
  | .unsignedLong => "unsignedLong"
  | .nonPositiveInteger => "nonPositiveInteger"
  | .negativeInteger => "negativeInteger"
  | .nonNegativeInteger => "nonNegativeInteger"
  | .positiveInteger => "positiveInteger"
  | .date => "date"
  | .dateTime => "dateTime"
  | .time => "time"
  | .anyURI => "anyURI"
  | .base64Binary => "base64Binary"
  | .hexBinary => "hexBinary"

def ofName? (name : String) : Option Datatype := all.find? fun d => d.name = name

theorem ofName?_name (d : Datatype) : ofName? d.name = some d := by cases d <;> rfl

theorem name_injective {a b : Datatype} (h : a.name = b.name) : a = b :=
  Option.some.inj ((ofName?_name a).symm.trans ((congrArg ofName? h).trans (ofName?_name b)))

/-- The namespace mark that may stand once before a name. -/
def mark : List Char := ['x', 's', ':']

def unmarked (tag : String) : String :=
  if mark.isPrefixOf tag.toList then String.ofList (tag.toList.drop mark.length) else tag

theorem unmarked_marked (name : String) : unmarked ("xs:" ++ name) = name := by
  have hMark : ("xs:" ++ name).toList = mark ++ name.toList := String.toList_append
  rw [unmarked, hMark, if_pos (List.isPrefixOf_iff_prefix.mpr (List.prefix_append ..)),
    List.drop_left, String.ofList_toList]

theorem unmarked_name (d : Datatype) : unmarked d.name = d.name := by cases d <;> rfl

def ofTag? (tag : String) : Option Datatype := ofName? (unmarked tag)

theorem ofTag?_name (d : Datatype) : ofTag? d.name = some d := by
  rw [ofTag?, unmarked_name, ofName?_name]

theorem ofTag?_marked (d : Datatype) : ofTag? ("xs:" ++ d.name) = some d := by
  rw [ofTag?, unmarked_marked, ofName?_name]

def integers? : Datatype → Option IntegerClass
  | .byte => some (.signed 8)
  | .short => some (.signed 16)
  | .int => some (.signed 32)
  | .long => some (.signed 64)
  | .unsignedByte => some (.unsigned 8)
  | .unsignedShort => some (.unsigned 16)
  | .unsignedInt => some (.unsigned 32)
  | .unsignedLong => some (.unsigned 64)
  | .nonPositiveInteger => some .nonPositive
  | .negativeInteger => some .negative
  | .nonNegativeInteger => some .nonNegative
  | .positiveInteger => some .positive
  | _ => none

def isInteger (d : Datatype) : Bool := d.integers?.isSome

def bounds? (d : Datatype) : Option (Int × Int) :=
  match d.integers? with
  | some (.between lo hi) => some (lo, hi)
  | _ => none

end Datatype

end AssetShell

import AssetShell.Json.Value
import AssetShell.Literal.Datatype
import AssetShell.Literal.Temporal
import AssetShell.Number.Wide
import AssetShell.Number.Written

/-!
# Typed values

The value that a literal denotes. Texts and identifiers are values themselves. Reading a value never
refuses a literal: a text that denotes no value of its datatype stays a text.
-/

namespace AssetShell

inductive TypedValue
  | text (value : String)
  | boolean (value : Bool)
  | integer (value : Int)
  | float (value : Binary64)
  | date (date : Date)
  | time (time : ClockTime) (offset : Option Offset)
  | dateTime (date : Date) (time : ClockTime) (offset : Offset)
  | localDateTime (date : Date) (time : ClockTime)
  deriving DecidableEq, Repr

namespace TypedValue

def isText : TypedValue → Bool
  | .text _ => true
  | _ => false

/-- Integers that the interchange format writes as numbers: those of 64 bits, with or without sign. -/
def jsonInteger : IntegerClass := .between (-(Nat.pow 2 63)) (Nat.pow 2 64 - 1)

/-- An empty text stands for no value and is kept. -/
def ofBoolean? (raw : String) : Option TypedValue :=
  if raw = "" then some (.text raw)
  else if raw = "true" ∨ raw = "1" then some (.boolean true)
  else if raw = "false" ∨ raw = "0" then some (.boolean false)
  else none

/-- Typed integers have 128 bits. -/
def ofInteger? (cs : List Char) : Option TypedValue := do
  let t ← IntegerText.read? cs
  let v ← t.wide?
  return .integer v

def ofFloat? (cs : List Char) : Option TypedValue :=
  (FloatText.read? cs).map fun t => .float t.toBinary64

/-- A decimal too large for a double has no typed value. -/
def ofDecimal? (cs : List Char) : Option TypedValue := do
  let t ← FloatText.read? cs
  if t.toBinary64.isFinite then some (.float t.toBinary64) else none

def ofDate? (cs : List Char) : Option TypedValue := do
  let f ← Temporal.date? cs
  let d ← f.toDate?
  return .date d

/-- An offset that is written must exist. -/
def offset? : Option OffsetField → Option (Option Offset)
  | none => some none
  | some f => f.toOffset?.map some

def ofTime? (cs : List Char) : Option TypedValue := do
  let f ← Temporal.time? cs
  let offset ← offset? f.offset
  let t ← f.toClockTime?
  return .time t offset

def ofDateTime? (cs : List Char) : Option TypedValue := do
  let (df, tf) ← Temporal.dateTime? cs
  let d ← df.toDate?
  let t ← tf.toClockTime?
  match ← offset? tf.offset with
  | none => return .localDateTime d t
  | some o => return .dateTime d t o

def read? (d : Datatype) (raw : String) : Option TypedValue :=
  let cs := raw.toList
  if d.isInteger then ofInteger? cs else
  match d with
  | .boolean => ofBoolean? raw
  | .float | .double => ofFloat? cs
  | .decimal => ofDecimal? cs
  | .date => ofDate? cs
  | .time => ofTime? cs
  | .dateTime => ofDateTime? cs
  | _ => some (.text raw)

def ofLiteral (d : Datatype) (raw : String) : TypedValue := (read? d raw).getD (.text raw)

theorem ofLiteral_of_read? {d : Datatype} {raw : String} {v : TypedValue}
    (h : read? d raw = some v) : ofLiteral d raw = v := by
  rw [ofLiteral, h, Option.getD_some]

/-- The typed value if `typed` is set, else the text. -/
def ofLiteralIf (typed : Bool) (d : Datatype) (raw : String) : TypedValue :=
  if typed then ofLiteral d raw else .text raw

/-- Numbers and booleans are written as such, except that integers wider than 64 bits are strings
and doubles that are not finite are null. Dates and times are strings. -/
def toJson : TypedValue → Json
  | .text s => .string s
  | .boolean b => .bool b
  | .integer v => if jsonInteger.contains v then .ofInt v else .string (toString v)
  | .float f => if f.isFinite then .number (.double f) else .null
  | .date d => .string (String.ofList d.chars)
  | .time t offset => .string (String.ofList (t.chars ++ (offset.map Offset.chars).getD []))
  | .dateTime d t o => .string (String.ofList (d.chars ++ 'T' :: t.chars ++ o.chars))
  | .localDateTime d t => .string (String.ofList (d.chars ++ 'T' :: t.chars))

end TypedValue

end AssetShell

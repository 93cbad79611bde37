import AssetShell.Literal.Base64
import AssetShell.Literal.Datatype
import AssetShell.Literal.Temporal
import AssetShell.Literal.Uri
import AssetShell.Number.Wide
import AssetShell.Number.Written

/-!
# Literals

Whether a text is a literal of a datatype. A refusal says which of three rules is broken: the form
of the text, the range of the value, or that there is no such value at all.
-/

namespace AssetShell

inductive FormDefect
  | lineCharacter
  | notDate
  | noSuchDay
  | notTime
  | notDateTime
  | noSuchDayInDateTime
  | namesNothing
  | notBase64 (fault : Base64.Fault)
  | notHex
  deriving DecidableEq, Repr

def FormDefect.describe : FormDefect → String
  | .lineCharacter => "must not contain carriage return, line feed or tab"
  | .notDate => "must match YYYY-MM-DD"
  | .noSuchDay => "is not a valid calendar date"
  | .notTime => "must match HH:MM[:SS[.fff]][Z|±HH:MM]"
  | .notDateTime => "must match YYYY-MM-DDThh:mm[:ss[.fff]][Z|±HH:MM]"
  | .noSuchDayInDateTime => "has an invalid calendar date"
  | .namesNothing => "has neither a scheme nor a path"
  | .notBase64 fault => "is not valid base64 (" ++ fault.message ++ ")"
  | .notHex => "must be an even number of hexadecimal digits"

inductive RangeLimit
  | integers (members : IntegerClass)
  | clock (field : ClockField)
  deriving DecidableEq, Repr

def RangeLimit.describe : RangeLimit → String
  | .integers members => members.describe
  | .clock field => field.name ++ " " ++ field.bounds

inductive LiteralDefect
  | form (defect : FormDefect)
  | range (limit : RangeLimit)
  | mismatch
  deriving DecidableEq, Repr

structure LiteralFault where
  datatype : Datatype
  raw : String
  defect : LiteralDefect
  deriving DecidableEq, Repr

namespace LiteralFault

def rule (f : LiteralFault) : String :=
  match f.defect with
  | .form _ => "format-error"
  | .range _ => "range-error"
  | .mismatch => "type-mismatch"

def message (f : LiteralFault) : String :=
  let literal := f.datatype.name ++ " literal '" ++ f.raw ++ "' "
  match f.defect with
  | .form defect => "format-error: " ++ literal ++ defect.describe
  | .range limit => "range-error: " ++ literal ++ "must be " ++ limit.describe
  | .mismatch => "type-mismatch: '" ++ f.raw ++ "' is not a valid " ++ f.datatype.name

theorem rule_eq_format_error_iff {f : LiteralFault} :
    f.rule = "format-error" ↔ ∃ form, f.defect = .form form := by
  unfold rule
  cases f.defect <;> simp

end LiteralFault

namespace Literal

def isLineCharacter (c : Char) : Bool := c = '\r' || c = '\n' || c = '\t'

def isHexDigit (c : Char) : Bool := c.isDigit || 'a' ≤ c && c ≤ 'f' || 'A' ≤ c && c ≤ 'F'

def booleans : List String := ["true", "false", "1", "0", ""]

def integerDefect? (members : IntegerClass) (cs : List Char) : Option LiteralDefect :=
  match IntegerText.read? cs with
  | none => some .mismatch
  | some t => if members.admits t then none else some (.range (.integers members))

def clockDefect? (f : TimeFields) : Option LiteralDefect :=
  f.outOfBounds?.map fun field => .range (.clock field)

def dateDefect? (cs : List Char) : Option LiteralDefect :=
  match Temporal.date? cs with
  | none => some (.form .notDate)
  | some f => if f.toDate?.isSome then none else some (.form .noSuchDay)

def timeDefect? (cs : List Char) : Option LiteralDefect :=
  match Temporal.time? cs with
  | none => some (.form .notTime)
  | some f => clockDefect? f

/-- The calendar is asked before the clock. -/
def dateTimeDefect? (cs : List Char) : Option LiteralDefect :=
  match Temporal.dateTime? cs with
  | none => some (.form .notDateTime)
  | some (d, t) => if d.toDate?.isSome then clockDefect? t else some (.form .noSuchDayInDateTime)

def uriDefect? (cs : List Char) : Option LiteralDefect :=
  if (UriParts.ofChars? cs).any UriParts.namesSomething then none else some (.form .namesNothing)

def base64Defect? (bytes : List UInt8) : Option LiteralDefect :=
  match Base64.decode bytes with
  | .ok _ => none
  | .error fault => some (.form (.notBase64 fault))

def hexDefect? (cs : List Char) : Option LiteralDefect :=
  if cs.length % 2 = 0 && cs.all isHexDigit then none else some (.form .notHex)

def defect? (d : Datatype) (raw : String) : Option LiteralDefect :=
  let cs := raw.toList
  match d.integers? with
  | some members => integerDefect? members cs
  | none =>
    match d with
    | .normalizedString => if cs.any isLineCharacter then some (.form .lineCharacter) else none
    | .boolean => if raw ∈ booleans then none else some .mismatch
    | .decimal => if isDecimalLiteral cs then none else some .mismatch
    | .float | .double => if (FloatText.read? cs).isSome then none else some .mismatch
    | .date => dateDefect? cs
    | .time => timeDefect? cs
    | .dateTime => dateTimeDefect? cs
    | .anyURI => uriDefect? cs
    | .base64Binary => base64Defect? (utf8Bytes raw)
    | .hexBinary => hexDefect? cs
    | _ => none

def check (d : Datatype) (raw : String) : Except LiteralFault Unit :=
  match defect? d raw with
  | none => .ok ()
  | some defect => .error ⟨d, raw, defect⟩

theorem accepted_iff {p : Prop} [Decidable p] {defect : LiteralDefect} :
    (if p then none else some defect) = none ↔ p := by
  by_cases hp : p <;> simp [hp]

theorem check_eq_ok_iff {d : Datatype} {raw : String} :
    check d raw = .ok () ↔ defect? d raw = none := by
  unfold check
  split <;> simp_all

theorem check_eq_error_iff {d : Datatype} {raw : String} {f : LiteralFault} :
    check d raw = .error f ↔ ∃ defect, defect? d raw = some defect ∧ f = ⟨d, raw, defect⟩ := by
  cases h : defect? d raw <;> simp [check, h, eq_comm]

theorem exists_format_error_iff {d : Datatype} {raw : String} :
    (∃ f, check d raw = .error f ∧ f.rule = "format-error") ↔
      ∃ form, defect? d raw = some (.form form) := by
  simp only [check_eq_error_iff, LiteralFault.rule_eq_format_error_iff]
  constructor
  · rintro ⟨_, ⟨_, hDefect, rfl⟩, form, rfl⟩
    exact ⟨form, hDefect⟩
  · rintro ⟨form, hDefect⟩
    exact ⟨_, ⟨_, hDefect, rfl⟩, form, rfl⟩

/-- Where only the form of a text can be wrong, every refusal is for the form. -/
theorem exists_format_error_iff_of_form {d : Datatype} {raw : String}
    (h : ∀ defect, defect? d raw = some defect → ∃ form, defect = .form form) :
    (∃ f, check d raw = .error f ∧ f.rule = "format-error") ↔ ¬ check d raw = .ok () := by
  rw [exists_format_error_iff, check_eq_ok_iff, Option.eq_none_iff_forall_ne_some]
  constructor
  · rintro ⟨form, hDefect⟩ hNone
    exact hNone _ hDefect
  · intro hSome
    cases hDefect : defect? d raw with
    | none => exact absurd (fun _ => by simp [hDefect]) hSome
    | some defect =>
      obtain ⟨form, rfl⟩ := h defect hDefect
      exact ⟨form, rfl⟩

end Literal

end AssetShell

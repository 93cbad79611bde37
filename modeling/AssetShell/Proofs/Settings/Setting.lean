import AssetShell.Settings.Convert
import AssetShell.Settings.Merge

/-!
# Single settings

Each of the five settings has a name in one of two sections and a default. Where the sections are
tables, settings are read from merged data one by one: each from what stands under its name, or its
default where nothing stands.
-/

namespace AssetShell

namespace Datum

def IsTable : Datum → Prop
  | .table _ => True
  | _ => False

theorem IsTable.exists_entries {v : Datum} (h : v.IsTable) : ∃ entries, v = .table entries := by
  cases v with
  | table entries => exact ⟨entries, rfl⟩
  | _ => exact h.elim

end Datum

/-- The settings that are lists of texts. -/
inductive ListSetting
  | extensions
  | ignorePaths
  deriving DecidableEq

def ListSetting.name : ListSetting → String
  | .extensions => "extensions"
  | .ignorePaths => "ignore_paths"

inductive Setting
  | typedValues
  | outputFormat
  | list (l : ListSetting)
  | failFast
  deriving DecidableEq

namespace Setting

def sectionName : Setting → String
  | .typedValues => "export"
  | .outputFormat => "export"
  | .list _ => "check"
  | .failFast => "check"

def name : Setting → String
  | .typedValues => "typed_values"
  | .outputFormat => "output_format"
  | .list l => l.name
  | .failFast => "fail_fast"

def all : List Setting := [typedValues, outputFormat, list .extensions, list .ignorePaths, failFast]

theorem mem_all (k : Setting) : k ∈ all := by
  match k with
  | .typedValues => decide
  | .outputFormat => decide
  | .list .extensions => decide
  | .list .ignorePaths => decide
  | .failFast => decide

/-- No two settings of a section have one name. -/
theorem eq_of_names {k other : Setting} (hSection : k.sectionName = other.sectionName)
    (hName : k.name = other.name) : k = other := by
  have hAll : ∀ k ∈ all, ∀ other ∈ all,
      k.sectionName = other.sectionName → k.name = other.name → k = other := by decide
  exact hAll k (mem_all k) other (mem_all other) hSection hName

def Value : Setting → Type
  | .typedValues => Bool
  | .outputFormat => OutputFormat
  | .list _ => List String
  | .failFast => Bool

def get : (k : Setting) → Settings → k.Value
  | .typedValues, s => s.exports.typedValues
  | .outputFormat, s => s.exports.outputFormat
  | .list .extensions, s => s.checks.extensions
  | .list .ignorePaths, s => s.checks.ignorePaths
  | .failFast, s => s.checks.failFast

def default (k : Setting) : k.Value := k.get {}

def read? : (k : Setting) → Datum → Option k.Value
  | .typedValues => Datum.toBool?
  | .outputFormat => Datum.toFormat?
  | .list _ => Datum.toTexts?
  | .failFast => Datum.toBool?

/-- What stands under the name of a setting in its section. -/
def at? (k : Setting) (base : Named Datum) : Option Datum :=
  (base.get? k.sectionName).bind fun v => v.entries.get? k.name

/-- The value of a setting in merged data, if what stands there can be read as one. -/
def value? (k : Setting) (base : Named Datum) : Option k.Value :=
  match k.at? base with
  | none => some k.default
  | some v => k.read? v

variable {k : Setting} {base other : Named Datum} {s : Settings}

theorem value?_congr (h : k.at? base = k.at? other) : k.value? base = k.value? other := by
  rw [value?, value?, h]

theorem value?_of_at? {v : Datum} (h : k.at? base = some v) : k.value? base = k.read? v := by
  rw [value?, h]

theorem value?_of_at?_none (h : k.at? base = none) : k.value? base = some k.default := by
  rw [value?, h]

/-! ## Values of the type of a setting -/

theorem read?_text (f : OutputFormat) : outputFormat.read? (.text f.name) = some f := by
  change Datum.formatOfName? f.name = some f
  cases f <;> decide

theorem read?_list (l : ListSetting) (xs : List String) :
    (list l).read? (.list (xs.map .text)) = some xs := by
  change (xs.map Datum.text).mapM Datum.toText? = some xs
  induction xs with
  | nil => rfl
  | cons x r ih =>
    rw [List.map_cons, List.mapM_cons, ih]
    rfl

end Setting

namespace Settings

variable {base : Named Datum} {s t : Settings}

theorem ext_settings (h : ∀ k : Setting, k.get s = k.get t) : s = t := by
  obtain ⟨⟨typedValues, outputFormat⟩, ⟨extensions, ignorePaths, failFast⟩⟩ := s
  obtain rfl : _ = t.exports.typedValues := h .typedValues
  obtain rfl : _ = t.exports.outputFormat := h .outputFormat
  obtain rfl : _ = t.checks.extensions := h (.list .extensions)
  obtain rfl : _ = t.checks.ignorePaths := h (.list .ignorePaths)
  obtain rfl : _ = t.checks.failFast := h .failFast
  rfl

/-- The settings in which each has the value that is given for it. -/
def ofValues (values : (k : Setting) → k.Value) : Settings where
  exports := ⟨values .typedValues, values .outputFormat⟩
  checks := ⟨values (.list .extensions), values (.list .ignorePaths), values .failFast⟩

theorem get_ofValues (values : (k : Setting) → k.Value) (k : Setting) :
    k.get (ofValues values) = values k := by
  match k with
  | .typedValues => rfl
  | .outputFormat => rfl
  | .list .extensions => rfl
  | .list .ignorePaths => rfl
  | .failFast => rfl

/-- What stands under the name of a section, if anything does, is a table. -/
def IsSection (base : Named Datum) (name : String) : Prop :=
  ∀ v, base.get? name = some v → v.IsTable

theorem read?_exports (h : IsSection base "export") :
    Datum.read? base "export" ExportSettings.ofDatum? {} = do
      let typedValues ← Setting.typedValues.value? base
      let outputFormat ← Setting.outputFormat.value? base
      return ⟨typedValues, outputFormat⟩ := by
  cases hBase : base.get? "export" with
  | none =>
    rw [Datum.read?, hBase, Setting.value?_of_at?_none, Setting.value?_of_at?_none]
    · rfl
    · rw [Setting.at?, Setting.sectionName, hBase, Option.bind_none]
    · rw [Setting.at?, Setting.sectionName, hBase, Option.bind_none]
  | some v =>
    obtain ⟨entries, rfl⟩ := (h v hBase).exists_entries
    simp only [Datum.read?, hBase, Setting.value?, Setting.at?, Setting.sectionName,
      Option.bind_some, Datum.entries]
    rfl

theorem read?_checks (h : IsSection base "check") :
    Datum.read? base "check" CheckSettings.ofDatum? {} = do
      let extensions ← (Setting.list .extensions).value? base
      let ignorePaths ← (Setting.list .ignorePaths).value? base
      let failFast ← Setting.failFast.value? base
      return ⟨extensions, ignorePaths, failFast⟩ := by
  cases hBase : base.get? "check" with
  | none =>
    rw [Datum.read?, hBase, Setting.value?_of_at?_none, Setting.value?_of_at?_none,
      Setting.value?_of_at?_none]
    · rfl
    · rw [Setting.at?, Setting.sectionName, hBase, Option.bind_none]
    · rw [Setting.at?, Setting.sectionName, hBase, Option.bind_none]
    · rw [Setting.at?, Setting.sectionName, hBase, Option.bind_none]
  | some v =>
    obtain ⟨entries, rfl⟩ := (h v hBase).exists_entries
    simp only [Datum.read?, hBase, Setting.value?, Setting.at?, Setting.sectionName,
      Option.bind_some, Datum.entries]
    rfl

theorem ofEntries?_of_values (hExport : IsSection base "export") (hCheck : IsSection base "check")
    (h : ∀ k : Setting, k.value? base = some (k.get s)) : ofEntries? base = some s := by
  rw [ofEntries?, read?_exports hExport, read?_checks hCheck, h .typedValues, h .outputFormat,
    h (.list .extensions), h (.list .ignorePaths), h .failFast]
  rfl

end Settings

end AssetShell

import AssetShell.Proofs.Settings.Source
import AssetShell.Proofs.Toml.PrintedText
import AssetShell.Settings.Written

/-!
# Saved settings

The text of settings gives every setting, and is read as what was written, whatever the characters in
its lists. So a saved file that is named when settings are loaded wins over all other files.
-/

namespace AssetShell

open Toml (Statement)

/-! ## Statements of the lines -/

def ExportSettings.statements (s : ExportSettings) : List Statement :=
  [.table ["export"], .assign ["typed_values"] (.boolean s.typedValues),
    .assign ["output_format"] (.string s.outputFormat.name)]

theorem ExportSettings.all?_lines (s : ExportSettings) (rest : List Char) :
    Statement.all? (s.lines ++ rest) = (Statement.all? rest).map (s.statements ++ ·) := by
  rw [lines, List.append_assoc, List.append_assoc,
    Statement.all?_headerLine ⟨by decide, by decide⟩,
    Statement.all?_entryLine ⟨by decide, by decide⟩ (Statement.printed_bool _),
    Statement.all?_entryLine ⟨by decide, by decide⟩ (Statement.printed_string _), Option.map_map,
    Option.map_map]
  rfl

def CheckSettings.statements (s : CheckSettings) : List Statement :=
  [.table ["check"], .assign ["extensions"] (.array (s.extensions.map .string)),
    .assign ["ignore_paths"] (.array (s.ignorePaths.map .string)),
    .assign ["fail_fast"] (.boolean s.failFast)]

theorem CheckSettings.all?_lines (s : CheckSettings) (rest : List Char) :
    Statement.all? (s.lines ++ rest) = (Statement.all? rest).map (s.statements ++ ·) := by
  rw [lines, List.append_assoc, List.append_assoc, List.append_assoc,
    Statement.all?_headerLine ⟨by decide, by decide⟩,
    Statement.all?_entryLine ⟨by decide, by decide⟩ (Statement.printed_array _),
    Statement.all?_entryLine ⟨by decide, by decide⟩ (Statement.printed_array _),
    Statement.all?_entryLine ⟨by decide, by decide⟩ (Statement.printed_bool _), Option.map_map,
    Option.map_map, Option.map_map]
  rfl

namespace Settings

def statements (s : Settings) : List Statement := s.exports.statements ++ s.checks.statements

theorem all?_text (s : Settings) : Statement.all? s.text.toList = some s.statements := by
  rw [text, String.toList_ofList, ExportSettings.all?_lines, Statement.all?_newline,
    ← List.append_nil s.checks.lines, CheckSettings.all?_lines, Statement.all?_nil]
  simp [statements]

/-- The tables that the statements make. -/
def tables (s : Settings) : Named Toml :=
  [("export", .table [("typed_values", .boolean s.exports.typedValues),
      ("output_format", .string s.exports.outputFormat.name)]),
    ("check", .table [("extensions", .array (s.checks.extensions.map .string)),
      ("ignore_paths", .array (s.checks.ignorePaths.map .string)),
      ("fail_fast", .boolean s.checks.failFast)])]

theorem grow_statements (s : Settings) :
    (s.statements.foldlM Toml.Growth.step Toml.Growth.start).map
      (fun g => Toml.Node.entriesOf g.nodes) = some s.tables := by
  rfl

theorem return_not_mem_arrayChars (xs : List String) : '\r' ∉ Toml.arrayChars xs := by
  have hItem (x : String) : '\r' ∉ Toml.stringChars x.toList :=
    Toml.return_not_mem_stringChars x.toList
  match xs with
  | [] => decide
  | [x] => simp [Toml.arrayChars, hItem]
  | x :: y :: r => simp [Toml.arrayChars, Toml.itemLine, hItem]

theorem return_not_mem_text (s : Settings) : '\r' ∉ s.text.toList := by
  have hBool (b : Bool) : '\r' ∉ Toml.boolChars b := by cases b <;> decide
  simp [text, ExportSettings.lines, CheckSettings.lines, Toml.headerLine, Toml.entryLine, hBool,
    return_not_mem_arrayChars, Toml.return_not_mem_stringChars]

theorem ofText?_text (s : Settings) : Toml.ofText? s.text = some s.tables := by
  refine Toml.ofText?_of_all? ?_ s.return_not_mem_text s.all?_text s.grow_statements
  rw [text, String.toList_ofList]
  exact fun hMark => absurd (Option.some.inj hMark) (by decide)

end Settings

/-! ## Saved data -/

namespace Setting

/-- What is saved for a setting. -/
def datum (s : Settings) : Setting → Datum
  | .typedValues => .boolean s.exports.typedValues
  | .outputFormat => .text s.exports.outputFormat.name
  | .list .extensions => .list (s.checks.extensions.map .text)
  | .list .ignorePaths => .list (s.checks.ignorePaths.map .text)
  | .failFast => .boolean s.checks.failFast

theorem read?_datum (s : Settings) (k : Setting) : k.read? (k.datum s) = some (k.get s) := by
  match k with
  | .typedValues => rfl
  | .outputFormat => exact read?_text s.exports.outputFormat
  | .list .extensions => exact read?_list .extensions s.checks.extensions
  | .list .ignorePaths => exact read?_list .ignorePaths s.checks.ignorePaths
  | .failFast => rfl

theorem not_isTable_datum (s : Settings) (k : Setting) : ¬ (k.datum s).IsTable := by
  match k with
  | .typedValues => exact not_false
  | .outputFormat => exact not_false
  | .list .extensions => exact not_false
  | .list .ignorePaths => exact not_false
  | .failFast => exact not_false

end Setting

namespace Settings

/-- Some of the settings, under their names. -/
def dataOf (s : Settings) (settings : List Setting) : Named Datum :=
  settings.map fun k => (k.name, k.datum s)

def entries (s : Settings) : Named Datum :=
  [("export", .table (s.dataOf [.typedValues, .outputFormat])),
    ("check", .table (s.dataOf [.list .extensions, .list .ignorePaths, .failFast]))]

theorem itemData?_strings (xs : List String) :
    Toml.itemData? (xs.map .string) = some (xs.map .text) := by
  induction xs with
  | nil => rfl
  | cons x r ih =>
    rw [List.map_cons, List.map_cons, Toml.itemData?, ih]
    rfl

theorem toDatum?_tables (s : Settings) : (Toml.table s.tables).toDatum? = some (.table s.entries) := by
  simp [tables, entries, Settings.dataOf, Setting.name, ListSetting.name, Setting.datum,
    Toml.toDatum?, Toml.entryData?, Toml.momentName, itemData?_strings]

theorem read?_text (s : Settings) : SettingsFormat.toml.read? s.text = some s.entries := by
  rw [SettingsFormat.read?, SettingsFormat.datum?, ofText?_text, Option.bind_some, toDatum?_tables]

/-! ## Loading what was saved -/

theorem dataUnder_dataOf (s : Settings) (settings : List Setting) (k : Setting) :
    dataUnder k.name (s.dataOf settings) =
      (settings.filter fun other => other.name = k.name).map (·.datum s) := by
  induction settings with
  | nil => rfl
  | cons other r ih =>
    rw [Settings.dataOf, List.map_cons, List.filter_cons]
    by_cases hName : other.name = k.name
    · rw [dataUnder_cons_of_eq (other.isPlainName_name.2.2.trans hName), if_pos (decide_eq_true hName),
        List.map_cons, ← ih]
      rfl
    · have hSmall : smallName other.name ≠ k.name := by rwa [other.isPlainName_name.2.2]
      rw [dataUnder_cons_of_ne hSmall, if_neg (by simpa using hName), ← ih]
      rfl

theorem keyNames?_export : keyNames? "export" = some ["export"] :=
  Setting.typedValues.keyNames?_sectionName

theorem keyNames?_check : keyNames? "check" = some ["check"] :=
  Setting.failFast.keyNames?_sectionName

theorem given_entries (s : Settings) (k : Setting) : s.entries.flatMap k.given = [k.datum s] := by
  have hExport (k : Setting) (h : k.sectionName = "export") : s.entries.flatMap k.given =
      dataUnder k.name (s.dataOf [.typedValues, .outputFormat]) := by
    have hCheck : k.sectionName ≠ "check" := by
      rw [h]
      decide
    rw [entries, List.flatMap_cons, List.flatMap_singleton, given_of_table keyNames?_export h,
      given_of_section_ne keyNames?_check hCheck, List.append_nil]
  have hCheck (k : Setting) (h : k.sectionName = "check") : s.entries.flatMap k.given =
      dataUnder k.name (s.dataOf [.list .extensions, .list .ignorePaths, .failFast]) := by
    have hExport : k.sectionName ≠ "export" := by
      rw [h]
      decide
    rw [entries, List.flatMap_cons, List.flatMap_singleton, given_of_table keyNames?_check h,
      given_of_section_ne keyNames?_export hExport, List.nil_append]
  match k with
  | .typedValues => exact (hExport .typedValues rfl).trans (dataUnder_dataOf ..)
  | .outputFormat => exact (hExport .outputFormat rfl).trans (dataUnder_dataOf ..)
  | .list .extensions => exact (hCheck (.list .extensions) rfl).trans (dataUnder_dataOf ..)
  | .list .ignorePaths => exact (hCheck (.list .ignorePaths) rfl).trans (dataUnder_dataOf ..)
  | .failFast => exact (hCheck .failFast rfl).trans (dataUnder_dataOf ..)

theorem plainEntry_entries (s : Settings) : ∀ entry ∈ s.entries, PlainEntry entry := by
  intro entry hEntry
  rw [entries, List.mem_cons, List.mem_singleton] at hEntry
  rcases hEntry with rfl | rfl
  · exact .sectionTable .typedValues keyNames?_export
  · exact .sectionTable .failFast keyNames?_check

/-- Saved settings on top of any data give just these settings. -/
theorem addLayer?_entries (s : Settings) (base : Named Datum) :
    (addLayer? base s.entries).bind ofEntries? = some s := by
  have hGiven : ∀ k : Setting, ∀ w ∈ s.entries.flatMap k.given, ¬ w.IsTable := by
    intro k w hw
    rw [given_entries, List.mem_singleton] at hw
    rw [hw]
    exact k.not_isTable_datum s
  obtain ⟨next, hNext, hGives⟩ := exists_gives_of_layer s.plainEntry_entries hGiven base
  have hSection (k : Setting) : IsSection next k.sectionName := by
    apply hGives.isSection
    rw [given_entries]
    exact .inl (List.cons_ne_nil _ _)
  rw [hNext, Option.bind_some]
  apply ofEntries?_of_values (hSection .typedValues) (hSection .failFast)
  intro k
  have hAt : k.at? next = some (k.datum s) := by
    rw [hGives.at?_eq, given_entries]
    rfl
  exact (Setting.value?_of_at? hAt).trans (k.read?_datum s)

theorem layer_of_no_key {environment : List Variable} (h : ∀ v ∈ environment, v.key? = none) :
    Variable.layer environment = [] := by
  refine List.filterMap_eq_nil_iff.mpr fun v hv => ?_
  rw [Variable.entry?, h v hv, Option.map_none]

theorem load?_of_saved (s : Settings) (around : Surroundings) (path : String)
    (hFile : around.entry path = .ok (.file s.text.toUTF8))
    (hExtension : (Path.ofText path).extension? = some "toml")
    (hVariables : ∀ v ∈ around.environment, v.key? = none)
    (hLower : ((layers? around none).bind mergeLayers?).isSome = true) :
    load? around (some path) = some s := by
  have hFormat : (Path.ofText path).extension?.bind SettingsFormat.ofExtension? = some .toml := by
    rw [hExtension]
    rfl
  have hNamed : namedLayer? around (some path) = some s.entries := by
    rw [namedLayer?, source?_of_file hFile hFormat, Option.bind_some]
    exact s.read?_text
  obtain ⟨base, hBase⟩ := Option.isSome_iff_exists.mp hLower
  rw [layers?_bind_mergeLayers?, layer_of_no_key hVariables] at hBase
  obtain ⟨lower, hLower, hBase⟩ := Option.bind_eq_some_iff.mp hBase
  obtain ⟨usual, hUsual, hLower⟩ := Option.bind_eq_some_iff.mp hLower
  obtain rfl : usual ++ [] = lower := Option.some.inj hLower
  rw [List.append_nil, List.append_nil] at hBase
  have hEntries : fileEntries? around (some path) = some (usual ++ s.entries) := by
    rw [fileEntries?, hUsual, hNamed]
    rfl
  rw [load?_eq_bind, hEntries, Option.bind_some, layer_of_no_key hVariables, List.append_nil,
    addLayer?_append, hBase, Option.bind_some]
  exact s.addLayer?_entries base

/-- Marks, line ends and controls stand in the lists, and another file was saved at a usual place. -/
theorem load?_of_saved_with_marks :
    let s : Settings :=
      { checks := { extensions := [], ignorePaths := ["a\"'b", "c\nd'''\\", "\x01"] } }
    let other : Settings := { exports := ⟨true, .compact⟩, checks := ⟨["xml"], ["a"], true⟩ }
    let around : Surroundings := ⟨fun path =>
      if path = "saved.toml" then .ok (.file s.text.toUTF8)
      else if path = fileName then .ok (.file other.text.toUTF8) else .error .notFound, none, [], id⟩
    load? around none = some other ∧ load? around (some "saved.toml") = some s := by
  intro s other around
  have hFirst : optionalLayer? around fileName = some other.entries := by
    have hSource : source? around fileName = some (.toml, other.text) :=
      source?_of_file rfl (by decide)
    rw [optionalLayer?, hSource]
    exact other.read?_text
  have hNone : ∀ name ∈ [".aas-validator.toml", "config/aas-validator.toml"],
      optionalLayer? around name = some [] := by
    intro name hName
    have hMissing : Missing around name := by
      intro place hPlace content
      have hAll : ∀ name ∈ [".aas-validator.toml", "config/aas-validator.toml"],
          ∀ place ∈ name :: (variants name).map Prod.snd,
            place ≠ "saved.toml" ∧ place ≠ fileName := by decide
      obtain ⟨hSaved, hFile⟩ := hAll name hName place hPlace
      intro h
      cases ((if_neg hSaved).trans (if_neg hFile)).symm.trans h
    rw [optionalLayer?, hMissing.source?_eq_none]
  have hUsual : usualPlaces.mapM (optionalLayer? around) = some [other.entries, [], []] := by
    change [fileName, ".aas-validator.toml", "config/aas-validator.toml"].mapM _ = _
    rw [List.mapM_cons, List.mapM_cons, List.mapM_cons, hFirst, hNone _ (by decide),
      hNone _ (by decide)]
    rfl
  have hMerge : (layers? around none).bind mergeLayers? = addLayer? [] other.entries := by
    rw [layers?, hUsual]
    change mergeLayers? [other.entries, [], [], [], [], []] = addLayer? [] other.entries
    rw [mergeLayers?, foldlM_addLayer?]
    simp
  have hOther := other.addLayer?_entries []
  refine ⟨?_, load?_of_saved s around "saved.toml" rfl (by decide)
    (fun _ h => absurd h List.not_mem_nil) ?_⟩
  · rw [load?, hMerge]
    exact hOther
  · obtain ⟨base, hBase, -⟩ := Option.bind_eq_some_iff.mp hOther
    rw [hMerge, hBase]
    rfl

end Settings

end AssetShell

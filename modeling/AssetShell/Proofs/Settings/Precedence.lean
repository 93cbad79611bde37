import AssetShell.Proofs.Settings.Merge
import AssetShell.Proofs.Settings.Source
import AssetShell.Proofs.Toml.PrintedText
import Mathlib.Data.List.Forall2

/-!
# Later layers win setting by setting

Each layer may choose a value for any of the settings. What is loaded has for each setting by itself
the value that the last of the layers chose for it, or its default if none did. A named file that is
not there is never passed over.
-/

namespace AssetShell

open Toml (Statement)

/-- A value for some of the settings. -/
abbrev Choices := (k : Setting) → Option k.Value

namespace Choices

def nothing : Choices := fun _ => none

/-- One setting has a value, and the others have none. -/
def only (k : Setting) (x : k.Value) : Choices := fun other =>
  if h : other = k then some (h ▸ x) else none

/-- The value of a setting in the last of the choices that have one. -/
def last? (choices : List Choices) (k : Setting) : Option k.Value :=
  (choices.filterMap fun c => c k).getLast?

end Choices

/-- The data given to a setting are none, or one that can be read as the chosen value. -/
inductive Setting.Amounts (k : Setting) : List Datum → Option k.Value → Prop
  | nothing : Amounts k [] none
  | value {v : Datum} {x : k.Value} (hTable : ¬ v.IsTable) (hRead : k.read? v = some x) :
    Amounts k [v] (some x)

theorem Setting.Amounts.not_isTable {k : Setting} {data : List Datum} {choice : Option k.Value}
    (h : k.Amounts data choice) {v : Datum} (hv : v ∈ data) : ¬ v.IsTable := by
  cases h with
  | nothing => cases hv
  | value hTable hRead =>
    obtain rfl := List.mem_singleton.mp hv
    exact hTable

namespace Settings

/-- The entries of a layer choose these values. Names of no setting may stand among them. -/
structure LayerSets (layer : Named Datum) (c : Choices) : Prop where
  plain : ∀ entry ∈ layer, PlainEntry entry
  amounts : ∀ k : Setting, k.Amounts (layer.flatMap k.given) (c k)

theorem layerSets_nil : LayerSets [] .nothing := ⟨nofun, fun _ => .nothing⟩

section Single

variable {k : Setting} {v : Datum} {x : k.Value}

/-- An entry that gives something to one setting only chooses a value for it. -/
theorem layerSets_singleton {entry : String × Datum} (hPlain : PlainEntry entry)
    (hGiven : k.given entry = [v]) (hOthers : ∀ other, other ≠ k → other.given entry = [])
    (hTable : ¬ v.IsTable) (hRead : k.read? v = some x) : LayerSets [entry] (.only k x) := by
  refine ⟨List.forall_mem_singleton.mpr hPlain, fun other => ?_⟩
  rw [List.flatMap_singleton, Choices.only]
  by_cases hOther : other = k
  · subst hOther
    rw [dif_pos rfl, hGiven]
    exact .value hTable hRead
  · rw [dif_neg hOther, hOthers other hOther]
    exact .nothing

/-- A datum at the end of the path of a setting chooses a value for it. -/
theorem layerSets_of_path (hTable : ¬ v.IsTable) (hRead : k.read? v = some x) :
    LayerSets [(k.key, v)] (.only k x) := by
  have hKey := k.keyNames?_key
  refine layerSets_singleton (.setting k hKey) (given_of_setting hKey rfl rfl) ?_ hTable hRead
  intro other hOther
  by_cases hSection : other.sectionName = k.sectionName
  · exact given_of_name_ne hKey fun hName => hOther (Setting.eq_of_names hSection hName)
  · exact given_of_section_ne hKey hSection

/-- A datum under the name of a setting in its section chooses a value for it. -/
theorem layerSets_of_section (hTable : ¬ v.IsTable) (hRead : k.read? v = some x) :
    LayerSets [(k.sectionName, .table [(k.name, v)])] (.only k x) := by
  have hKey := k.keyNames?_sectionName
  have hSmall : smallName k.name = k.name := k.isPlainName_name.2.2
  have hGiven : k.given (k.sectionName, .table [(k.name, v)]) = [v] := by
    rw [given_of_table hKey rfl, dataUnder_cons_of_eq hSmall]
    rfl
  refine layerSets_singleton (.sectionTable k hKey) hGiven ?_ hTable hRead
  intro other hOther
  by_cases hSection : other.sectionName = k.sectionName
  · have hName : smallName k.name ≠ other.name := by
      rw [hSmall]
      exact fun hName => hOther (Setting.eq_of_names hSection hName.symm)
    rw [given_of_table hKey hSection, dataUnder_cons_of_ne hName]
    rfl
  · exact given_of_section_ne hKey hSection

end Single

/-- The file under a name chooses these values. If there is none it chooses nothing. -/
inductive FileSets (around : Surroundings) (name : String) : Choices → Prop
  | missing (hSource : source? around name = none) : FileSets around name .nothing
  | present {format : SettingsFormat} {text : String} {layer : Named Datum} {c : Choices}
    (hSource : source? around name = some (format, text)) (hRead : format.read? text = some layer)
    (hSets : LayerSets layer c) : FileSets around name c

/-- The personal settings choose these values. Their file counts only if something stands at its
very place. -/
inductive PersonalSets (around : Surroundings) : Choices → Prop
  | noFolder (hFolder : around.settingsFolder = none) : PersonalSets around .nothing
  | nothingThere {folder : String} {fault : FileFault}
    (hFolder : around.settingsFolder = some folder)
    (hEntry : around.entry (personalPlace folder) = .error fault) : PersonalSets around .nothing
  | file {folder : String} {e : Entry} {c : Choices} (hFolder : around.settingsFolder = some folder)
    (hEntry : around.entry (personalPlace folder) = .ok e)
    (hFile : FileSets around (personalPlace folder) c) : PersonalSets around c

/-- The named file, if one is named, chooses these values. -/
inductive NamedSets (around : Surroundings) : Option String → Choices → Prop
  | unnamed : NamedSets around none .nothing
  | named {name text : String} {format : SettingsFormat} {layer : Named Datum} {c : Choices}
    (hSource : source? around name = some (format, text)) (hRead : format.read? text = some layer)
    (hSets : LayerSets layer c) : NamedSets around (some name) c

variable {around : Surroundings} {name : String} {named : Option String} {c : Choices}

theorem FileSets.exists_layer (h : FileSets around name c) :
    ∃ layer, optionalLayer? around name = some layer ∧ LayerSets layer c := by
  cases h with
  | missing hSource =>
    refine ⟨[], ?_, layerSets_nil⟩
    rw [optionalLayer?, hSource]
  | @present _ _ layer _ hSource hRead hSets =>
    refine ⟨layer, ?_, hSets⟩
    rw [optionalLayer?, hSource]
    exact hRead

theorem PersonalSets.exists_layer (h : PersonalSets around c) :
    ∃ layer, personalLayer? around = some layer ∧ LayerSets layer c := by
  cases h with
  | noFolder hFolder =>
    refine ⟨[], ?_, layerSets_nil⟩
    rw [personalLayer?, hFolder]
  | nothingThere hFolder hEntry =>
    refine ⟨[], ?_, layerSets_nil⟩
    rw [personalLayer?, hFolder]
    simp only [hEntry]
  | file hFolder hEntry hFile =>
    obtain ⟨layer, hLayer, hSets⟩ := hFile.exists_layer
    refine ⟨layer, ?_, hSets⟩
    rw [personalLayer?, hFolder]
    simp only [hEntry]
    exact hLayer

theorem NamedSets.exists_layer (h : NamedSets around named c) :
    ∃ layer, namedLayer? around named = some layer ∧ LayerSets layer c := by
  cases h with
  | unnamed => exact ⟨[], rfl, layerSets_nil⟩
  | @named _ _ _ layer _ hSource hRead hSets =>
    refine ⟨layer, ?_, hSets⟩
    rw [namedLayer?, hSource]
    exact hRead

theorem exists_usual_layers {places : List String} {usual : List Choices}
    (h : List.Forall₂ (FileSets around) places usual) :
    ∃ layers, places.mapM (optionalLayer? around) = some layers ∧
      List.Forall₂ LayerSets layers usual := by
  induction h with
  | nil => exact ⟨[], rfl, .nil⟩
  | cons hFile _ ih =>
    obtain ⟨layer, hLayer, hSets⟩ := hFile.exists_layer
    obtain ⟨layers, hLayers, hAll⟩ := ih
    refine ⟨layer :: layers, ?_, .cons hSets hAll⟩
    rw [List.mapM_cons, hLayer, hLayers]
    rfl

/-! ## The last choice -/

theorem forall₂_getLast? {α β : Type} {R : α → β → Prop} {l : List α} {m : List β}
    (h : List.Forall₂ R l m) : Option.Rel R l.getLast? m.getLast? := by
  rw [List.getLast?_eq_head?_reverse, List.getLast?_eq_head?_reverse]
  have hReverse := List.forall₂_reverse_iff.mpr h
  generalize l.reverse = front at hReverse ⊢
  generalize m.reverse = back at hReverse ⊢
  cases hReverse with
  | nil => exact .none
  | cons hHead _ => exact .some hHead

theorem forall₂_given {layers : List (Named Datum)} {choices : List Choices}
    (h : List.Forall₂ LayerSets layers choices) (k : Setting) :
    List.Forall₂ (fun v x => k.read? v = some x) (layers.flatten.flatMap k.given)
      (choices.filterMap fun c => c k) := by
  induction h with
  | nil => exact .nil
  | @cons layer c layers choices hSets _ ih =>
    rw [List.flatten_cons, List.flatMap_append]
    have hAmounts := hSets.amounts k
    generalize layer.flatMap k.given = data at hAmounts ⊢
    generalize hChoice : c k = choice at hAmounts
    cases hAmounts with
    | nothing =>
      rw [List.filterMap_cons_none hChoice]
      exact ih
    | value _ hRead =>
      rw [List.filterMap_cons_some hChoice]
      exact .cons hRead ih

theorem value?_of_layers {layers : List (Named Datum)} {choices : List Choices}
    (h : List.Forall₂ LayerSets layers choices) {base : Named Datum} {k : Setting}
    (hBase : k.at? base = (layers.flatten.flatMap k.given).getLast?) :
    k.value? base = some ((Choices.last? choices k).getD k.default) := by
  have hLast := forall₂_getLast? (forall₂_given h k)
  rw [← hBase] at hLast
  change Option.Rel _ _ (Choices.last? choices k) at hLast
  generalize hFound : k.at? base = found at hLast
  generalize Choices.last? choices k = chosen at hLast ⊢
  cases hLast with
  | none => exact Setting.value?_of_at?_none hFound
  | some hRead => exact (Setting.value?_of_at? hFound).trans hRead

theorem ofEntries?_of_layers {layers : List (Named Datum)} {choices : List Choices}
    (h : List.Forall₂ LayerSets layers choices) :
    ∃ s, (mergeLayers? layers).bind ofEntries? = some s ∧
      ∀ k : Setting, k.get s = (Choices.last? choices k).getD k.default := by
  have hPlain : ∀ layer ∈ layers, ∀ entry ∈ layer, PlainEntry entry :=
    ((List.forall₂_and_left _ _).mp (h.imp fun _ _ hSets => ⟨hSets.plain, hSets⟩)).1
  have hGiven : ∀ layer ∈ layers, ∀ k : Setting, ∀ w ∈ layer.flatMap k.given, ¬ w.IsTable :=
    ((List.forall₂_and_left _ _).mp (h.imp fun _ _ hSets =>
      ⟨fun k w hw => (hSets.amounts k).not_isTable hw, hSets⟩)).1
  obtain ⟨base, hBase, hExport, hCheck, hAt⟩ :=
    exists_gives_of_layers hPlain fun k layer hLayer => hGiven layer hLayer k
  refine ⟨ofValues fun k => (Choices.last? choices k).getD k.default, ?_, get_ofValues _⟩
  rw [hBase, Option.bind_some]
  apply ofEntries?_of_values hExport hCheck
  intro k
  rw [get_ofValues]
  exact value?_of_layers h (hAt k)

/-! ## Loading -/

theorem load?_of_source?_eq_none (h : source? around name = none) :
    load? around (some name) = none := by
  have hEntries : fileEntries? around (some name) = none := by
    rw [fileEntries?, namedLayer?, h]
    cases usualEntries? around with
    | none => rfl
    | some usual => rfl
  rw [load?_eq_bind, hEntries, Option.bind_none]

theorem load?_takes_last_choices :
    (∀ (around : Surroundings) (named : Option String) (usual : List Choices)
        (personal explicit environment : Choices),
      List.Forall₂ (FileSets around) usualPlaces usual → PersonalSets around personal →
      NamedSets around named explicit →
      LayerSets (Variable.layer around.environment) environment →
      ∃ s, load? around named = some s ∧ ∀ k : Setting, k.get s =
        (Choices.last? (usual ++ [personal, explicit, environment]) k).getD k.default) ∧
    ∀ (around : Surroundings) (name : String), Missing around name →
      load? around (some name) = none := by
  refine ⟨?_, fun around name h => load?_of_source?_eq_none h.source?_eq_none⟩
  intro around named usual personal explicit environment hUsual hPersonal hNamed hEnvironment
  obtain ⟨layers, hLayers, hUsual⟩ := exists_usual_layers hUsual
  obtain ⟨layer, hLayer, hPersonal⟩ := hPersonal.exists_layer
  obtain ⟨named, hNamedLayer, hNamed⟩ := hNamed.exists_layer
  have hAll : List.Forall₂ LayerSets
      (layers ++ [layer, named, Variable.layer around.environment])
      (usual ++ [personal, explicit, environment]) :=
    List.rel_append hUsual (.cons hPersonal (.cons hNamed (.cons hEnvironment .nil)))
  obtain ⟨s, hLoad, hValues⟩ := ofEntries?_of_layers hAll
  refine ⟨s, ?_, hValues⟩
  rw [load?, layers?, hLayers, hLayer, hNamedLayer]
  exact hLoad

/-- A file gives a section in part, and a variable another part of it. -/
theorem load?_takes_last_choices_of_file_and_variable :
    let text := "[check]\nextensions = [\"xml\"]\n"
    let around : Surroundings :=
      ⟨fun path => if path = fileName then .ok (.file text.toUTF8) else .error .notFound, none,
        [⟨"AASV__CHECK__FAIL_FAST", "TRUE"⟩], id⟩
    List.Forall₂ (FileSets around) usualPlaces
        [.only (.list .extensions) ["xml"], .nothing, .nothing] ∧
      LayerSets (Variable.layer around.environment) (.only .failFast true) ∧
      load? around none = some { checks := { extensions := ["xml"], failFast := true } } ∧
      load? around (some "own") = none := by
  intro text around
  have hMissing : ∀ name ∈ [".aas-validator.toml", "config/aas-validator.toml", "own"],
      Missing around name := by
    intro name hName place hPlace content hEntry
    have hAll : ∀ name ∈ [".aas-validator.toml", "config/aas-validator.toml", "own"],
      ∀ place ∈ name :: (variants name).map Prod.snd, place ≠ fileName := by decide
    cases (if_neg (hAll name hName place hPlace)).symm.trans hEntry
  have hRead : SettingsFormat.toml.read? text =
      some [("check", .table [("extensions", .list [.text "xml"])])] := by
    have hChars : text.toList = Toml.headerLine "check" ++
        (Toml.entryLine "extensions" (Toml.arrayChars ["xml"]) ++ []) := by decide
    have hAll : Statement.all? text.toList = some
        [.table ["check"], .assign ["extensions"] (.array [.string "xml"])] := by
      rw [hChars, Statement.all?_headerLine ⟨by decide, by decide⟩,
        Statement.all?_entryLine ⟨by decide, by decide⟩ (Statement.printed_array _),
        Statement.all?_nil]
      rfl
    have hTables : Toml.ofText? text =
        some [("check", .table [("extensions", .array [.string "xml"])])] :=
      Toml.ofText?_of_all? (by decide) (by decide) hAll rfl
    rw [SettingsFormat.read?, SettingsFormat.datum?, hTables]
    simp [Toml.toDatum?, Toml.itemData?, Toml.entryData?, Toml.momentName]
  have hSource : source? around fileName = some (.toml, text) := source?_of_file rfl (by decide)
  have hFile : FileSets around fileName (.only (.list .extensions) ["xml"]) :=
    .present hSource hRead (layerSets_of_section (k := .list .extensions) not_false rfl)
  have hVariable : LayerSets (Variable.layer around.environment) (.only .failFast true) := by
    have hBoolean : Variable.boolean? "TRUE" = some true := by decide
    have hKey : Variable.key? ⟨"AASV__CHECK__FAIL_FAST", "TRUE"⟩ = some Setting.failFast.key := by
      decide
    have hLayer : Variable.layer around.environment = [(Setting.failFast.key, .boolean true)] := by
      simp [around, Variable.layer, Variable.entry?, hKey, Variable.setting, hBoolean]
    rw [hLayer]
    exact layerSets_of_path not_false rfl
  have hUsual : List.Forall₂ (FileSets around) usualPlaces
      [.only (.list .extensions) ["xml"], .nothing, .nothing] :=
    .cons hFile (.cons (.missing (hMissing _ (by decide)).source?_eq_none)
      (.cons (.missing (hMissing _ (by decide)).source?_eq_none) .nil))
  obtain ⟨s, hLoad, hValues⟩ := load?_takes_last_choices.1 around none _ _ _ _ hUsual
    (.noFolder rfl) .unnamed hVariable
  refine ⟨hUsual, hVariable, ?_, load?_takes_last_choices.2 around "own" (hMissing _ (by decide))⟩
  rw [hLoad]
  refine congrArg some (ext_settings fun k => ?_)
  rw [hValues]
  cases k with
  | list l => cases l <;> rfl
  | _ => rfl

end Settings

end AssetShell

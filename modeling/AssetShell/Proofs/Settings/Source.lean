import AssetShell.Proofs.Settings.Merge
import AssetShell.Settings.Load

/-!
# Finding settings files

A file that stands under its very name with a known extension is the source under that name. If
neither the name nor any of its variants leads to a file there is no source. Loading merges the
entries of all sources one after the other, and those of the environment last.
-/

namespace AssetShell

theorem Entry.text_toUTF8 (s : String) : (Entry.file s.toUTF8).text = .ok s := by
  have hDecode : String.fromUTF8? s.toUTF8 = some s := dif_pos s.isValidUTF8
  rw [Entry.text, Entry.textOf, hDecode]

namespace Settings

variable {around : Surroundings} {name text : String} {format : SettingsFormat}

theorem source?_of_file (hEntry : around.entry name = .ok (.file text.toUTF8))
    (hFormat : (Path.ofText name).extension?.bind SettingsFormat.ofExtension? = some format) :
    source? around name = some (format, text) := by
  have hFile : fileAt? around name = some (.file text.toUTF8) := by
    rw [fileAt?, hEntry]
  rw [source?, locate?, hFile]
  simp only [hFormat, Option.map_some, Option.bind_some, Entry.text_toUTF8]
  rfl

/-- No file that can be read stands under a name, nor under the name with an extension of settings
files. -/
def Missing (around : Surroundings) (name : String) : Prop :=
  ∀ place ∈ name :: (variants name).map Prod.snd, ∀ content,
    around.entry place ≠ .ok (.file content)

theorem exists_place_of_locate? {file : Entry} (h : locate? around name = some (format, file)) :
    ∃ place ∈ name :: (variants name).map Prod.snd, fileAt? around place = some file := by
  rw [locate?] at h
  split at h
  · rename_i found hFound
    obtain ⟨_, -, hSame⟩ := Option.map_eq_some_iff.mp h
    cases hSame
    exact ⟨name, List.mem_cons_self, hFound⟩
  · obtain ⟨variant, hVariant, hFound⟩ := List.exists_of_findSome?_eq_some h
    obtain ⟨_, hFile, hSame⟩ := Option.map_eq_some_iff.mp hFound
    cases hSame
    exact ⟨variant.2, List.mem_cons_of_mem _ (List.mem_map_of_mem hVariant), hFile⟩

/-- A file under a missing name is closed. -/
theorem Missing.toOption_text_eq_none (h : Missing around name) {place : String} {file : Entry}
    (hPlace : place ∈ name :: (variants name).map Prod.snd)
    (hFile : fileAt? around place = some file) : file.text.toOption = none := by
  rw [fileAt?] at hFile
  split at hFile
  · rename_i content hEntry
    exact absurd hEntry (h place hPlace content)
  · cases hFile
    rfl
  · cases hFile

theorem Missing.source?_eq_none (h : Missing around name) : source? around name = none := by
  rw [source?, Option.bind_eq_none_iff]
  rintro ⟨format, file⟩ hLocated
  obtain ⟨place, hPlace, hFile⟩ := exists_place_of_locate? hLocated
  simp only [h.toOption_text_eq_none hPlace hFile, Option.map_none]

/-! ## The entries of all sources -/

/-- The entries of the files that nobody has to name. -/
def usualEntries? (around : Surroundings) : Option (Named Datum) := do
  let usual ← usualPlaces.mapM (optionalLayer? around)
  let personal ← personalLayer? around
  return usual.flatten ++ personal

def fileEntries? (around : Surroundings) (named : Option String) : Option (Named Datum) := do
  let usual ← usualEntries? around
  let explicit ← namedLayer? around named
  return usual ++ explicit

theorem layers?_bind_mergeLayers? (around : Surroundings) (named : Option String) :
    (layers? around named).bind mergeLayers? = (fileEntries? around named).bind fun entries =>
      addLayer? [] (entries ++ Variable.layer around.environment) := by
  rw [layers?, fileEntries?, usualEntries?]
  cases usualPlaces.mapM (optionalLayer? around) with
  | none => rfl
  | some usual =>
    cases personalLayer? around with
    | none => rfl
    | some personal =>
      cases namedLayer? around named with
      | none => rfl
      | some explicit =>
        change mergeLayers? (usual ++ [personal, explicit, Variable.layer around.environment]) =
          addLayer? [] (usual.flatten ++ personal ++ explicit ++ _)
        rw [mergeLayers?, foldlM_addLayer?]
        simp

theorem load?_eq_bind (around : Surroundings) (named : Option String) :
    load? around named = (fileEntries? around named).bind fun entries =>
      (addLayer? [] (entries ++ Variable.layer around.environment)).bind ofEntries? := by
  rw [load?, layers?_bind_mergeLayers?]
  exact Option.bind_assoc ..

/-- Where nothing is found, the defaults hold. -/
theorem load?_of_nothing (hMissing : ∀ name ∈ usualPlaces, Missing around name)
    (hFolder : around.settingsFolder = none) (hEnvironment : around.environment = []) :
    load? around none = some {} := by
  have hLayer : ∀ name ∈ usualPlaces, optionalLayer? around name = some [] := by
    intro name hName
    rw [optionalLayer?, (hMissing name hName).source?_eq_none]
  obtain ⟨hFirst, hOthers⟩ := List.forall_mem_cons.mp hLayer
  obtain ⟨hSecond, hOthers⟩ := List.forall_mem_cons.mp hOthers
  obtain ⟨hThird, -⟩ := List.forall_mem_cons.mp hOthers
  have hUsual : usualEntries? around = some [] := by
    rw [usualEntries?, personalLayer?, hFolder, usualPlaces, List.mapM_cons, List.mapM_cons,
      List.mapM_cons, hFirst, hSecond, hThird]
    rfl
  rw [load?_eq_bind, fileEntries?, hUsual, hEnvironment]
  rfl

end Settings

end AssetShell

import AssetShell.Proofs.Settings.Setting
import AssetShell.Proofs.Text.Span
import Mathlib.Data.List.Basic

/-!
# Merged layers

An entry of a layer gives data to a setting if it is a table under the name of the section with an
entry for the setting, or if its key is the path of the setting. Where entries lead through names
only and meet sections as sections, all layers can be merged, and a setting then has the last datum
that any entry gives to it.
-/

namespace AssetShell

namespace Settings

/-! ## Merging one datum -/

/-- The data under a name in a table, in any case of the name. -/
def dataUnder (name : String) (entries : Named Datum) : List Datum :=
  (entries.filter fun entry => smallName entry.1 = name).map Prod.snd

theorem dataUnder_cons_of_eq {name other : String} {v : Datum} {r : Named Datum}
    (h : smallName other = name) : dataUnder name ((other, v) :: r) = v :: dataUnder name r := by
  simp [dataUnder, h]

theorem dataUnder_cons_of_ne {name other : String} {v : Datum} {r : Named Datum}
    (h : smallName other ≠ name) : dataUnder name ((other, v) :: r) = dataUnder name r := by
  simp [dataUnder, h]

/-- What is no table replaces what was there. -/
theorem merge_of_not_isTable {v : Datum} (h : ¬ v.IsTable) (old : Option Datum) :
    merge old v = v := by
  cases v with
  | table entries => exact absurd trivial h
  | _ => rfl

theorem merge_table_isTable {old : Option Datum} {entries : Named Datum}
    (h : entries ≠ [] ∨ ∀ v, old = some v → v.IsTable) : (merge old (.table entries)).IsTable := by
  rw [merge]
  generalize hStart : old.getD (.table []) = start
  have hFirst : entries ≠ [] ∨ start.IsTable := by
    refine h.imp_right fun hOld => ?_
    cases old with
    | none =>
      rw [← hStart]
      trivial
    | some v =>
      rw [← hStart]
      exact hOld v rfl
  clear h hStart
  induction entries generalizing start with
  | nil => exact hFirst.resolve_left (absurd rfl)
  | cons entry r ih =>
    obtain ⟨name, v⟩ := entry
    rw [mergeEntries]
    exact ih _ (.inr trivial)

/-- After a table is merged each name has the last datum under it, or what it had. -/
theorem get?_mergeEntries {name : String} {entries : Named Datum}
    (h : ∀ v ∈ dataUnder name entries, ¬ v.IsTable) (old : Datum) :
    (mergeEntries old entries).entries.get? name =
      (dataUnder name entries).getLast?.or (old.entries.get? name) := by
  induction entries generalizing old with
  | nil => rfl
  | cons entry r ih =>
    obtain ⟨other, v⟩ := entry
    rw [mergeEntries]
    by_cases hName : smallName other = name
    · rw [dataUnder_cons_of_eq hName] at h ⊢
      obtain ⟨hv, hr⟩ := List.forall_mem_cons.mp h
      rw [ih hr, Datum.entries, Named.get?_put, if_pos hName.symm, merge_of_not_isTable hv,
        List.getLast?_cons]
      cases (dataUnder name r).getLast? <;> rfl
    · rw [dataUnder_cons_of_ne hName] at h ⊢
      rw [ih h, Datum.entries, Named.get?_put, if_neg (Ne.symm hName)]

/-! ## Paths of names -/

/-- The name of a step in small letters, unless the step is a place. -/
def Step.smallName? : Step → Option String
  | .name text => some (smallName text)
  | .place _ => none

/-- The names along the path of a key, unless it leads through places. -/
def keyNames? (key : String) : Option (List String) := (Step.ofKey key).mapM Step.smallName?

/-- Sets a datum at the end of a path of names. -/
def setNames (v : Datum) : List String → Datum → Datum
  | [], _ => v
  | [name], old => .table (old.entries.put name (merge (old.entries.get? name) v))
  | name :: path, old =>
    .table (old.entries.put name (setNames v path ((old.entries.get? name).getD .absent)))

theorem setAt?_eq_setNames {v : Datum} {path : List Step} {names : List String}
    (h : path.mapM Step.smallName? = some names) (old : Datum) :
    setAt? v path old = some (setNames v names old) := by
  induction path generalizing names old with
  | nil =>
    cases h
    rfl
  | cons step path ih =>
    rw [List.mapM_cons] at h
    obtain ⟨first, hFirst, h⟩ := Option.bind_eq_some_iff.mp h
    obtain ⟨rest, hRest, h⟩ := Option.bind_eq_some_iff.mp h
    cases h
    cases step with
    | place index => cases hFirst
    | name text =>
      cases hFirst
      cases path with
      | nil =>
        cases hRest
        rfl
      | cons second path =>
        rw [setAt?, ih hRest, Option.map_some]
        · cases rest with
          | nil =>
            rw [List.mapM_cons] at hRest
            obtain ⟨_, -, hRest⟩ := Option.bind_eq_some_iff.mp hRest
            obtain ⟨_, -, hRest⟩ := Option.bind_eq_some_iff.mp hRest
            cases hRest
          | cons other rest => rfl
        · exact fun hNil => List.cons_ne_nil second path hNil

/-- What becomes of the datum under the first name of a path. -/
def setInner (v : Datum) (rest : List String) (old : Option Datum) : Datum :=
  match rest with
  | [] => merge old v
  | second :: more => setNames v (second :: more) (old.getD .absent)

theorem setNames_cons (v : Datum) (first : String) (rest : List String) (old : Datum) :
    setNames v (first :: rest) old =
      .table (old.entries.put first (setInner v rest (old.entries.get? first))) := by
  cases rest <;> rfl

theorem get?_entries_getD {start : Datum} (h : start.entries = []) (old : Option Datum)
    (name : String) :
    (old.getD start).entries.get? name = old.bind fun v => v.entries.get? name := by
  cases old with
  | none =>
    rw [Option.getD_none, h]
    rfl
  | some v => rfl

/-! ## Names that are written as they are -/

/-- A name in small letters that stands in a path as it is. -/
def IsPlainName (name : String) : Prop :=
  name.toList ≠ [] ∧ name.toList.all Step.isNameChar = true ∧ smallName name = name

instance (name : String) : Decidable (IsPlainName name) := inferInstanceAs (Decidable (_ ∧ _))

theorem IsPlainName.name? {name : String} (h : IsPlainName name) {rest : List Char}
    (hRest : ∀ c ∈ rest.head?, Step.isNameChar c = false) :
    Step.name? (name.toList ++ rest) = some (.name name, rest) := by
  rw [Step.name?, span_append (List.all_eq_true.mp h.2.1) hRest]
  simp only [List.isEmpty_eq_false_iff.mpr h.1, Bool.false_eq_true, if_false, String.ofList_toList]

theorem all?_nil : Step.all? [] = some [] := by
  rw [Step.all?]
  rfl

theorem keyNames?_of_plain {name : String} (h : IsPlainName name) : keyNames? name = some [name] := by
  have hName : Step.name? name.toList = some (.name name, []) := by
    rw [← List.append_nil name.toList]
    exact h.name? nofun
  have hKey : Step.ofKey? name = some [.name name] := by
    simp [Step.ofKey?, hName, all?_nil]
  rw [keyNames?, Step.ofKey, hKey]
  change some [smallName name] = some [name]
  rw [h.2.2]

theorem keyNames?_of_plain_pair {first second : String} (hFirst : IsPlainName first)
    (hSecond : IsPlainName second) :
    keyNames? (first ++ "." ++ second) = some [first, second] := by
  have hChars : (first ++ "." ++ second).toList = first.toList ++ '.' :: second.toList := by
    simp
  have hStart : Step.name? (first.toList ++ '.' :: second.toList) =
      some (.name first, '.' :: second.toList) := hFirst.name? (by simp [Step.isNameChar])
  have hName : Step.name? second.toList = some (.name second, []) := by
    rw [← List.append_nil second.toList]
    exact hSecond.name? nofun
  have hNext : Step.next? ('.' :: second.toList) = some (.name second, []) := hName
  have hRest : Step.all? ('.' :: second.toList) = some [.name second] := by
    rw [Step.all?]
    simp [hNext, all?_nil]
  have hKey : Step.ofKey? (first ++ "." ++ second) = some [.name first, .name second] := by
    simp [Step.ofKey?, hChars, hStart, hRest]
  rw [keyNames?, Step.ofKey, hKey]
  change some [smallName first, smallName second] = some [first, second]
  rw [hFirst.2.2, hSecond.2.2]

end Settings

/-! ## Entries of a layer -/

namespace Setting

theorem isPlainName_sectionName (k : Setting) : Settings.IsPlainName k.sectionName := by
  cases k with
  | list l => exact (by decide : Settings.IsPlainName "check")
  | _ => decide

theorem isPlainName_name (k : Setting) : Settings.IsPlainName k.name := by
  cases k with
  | list l => cases l <;> decide
  | _ => decide

/-- The path of a setting, written as a key. -/
def key (k : Setting) : String := k.sectionName ++ "." ++ k.name

theorem keyNames?_key (k : Setting) : Settings.keyNames? k.key = some [k.sectionName, k.name] :=
  Settings.keyNames?_of_plain_pair k.isPlainName_sectionName k.isPlainName_name

theorem keyNames?_sectionName (k : Setting) :
    Settings.keyNames? k.sectionName = some [k.sectionName] :=
  Settings.keyNames?_of_plain k.isPlainName_sectionName

/-- The data that an entry of a layer gives to a setting. -/
def given (k : Setting) (entry : String × Datum) : List Datum :=
  match Settings.keyNames? entry.1 with
  | some [first] =>
    if first = k.sectionName then Settings.dataUnder k.name entry.2.entries else []
  | some [first, second] => if first = k.sectionName ∧ second = k.name then [entry.2] else []
  | _ => []

end Setting

namespace Settings

/-- An entry whose path leads through names, and which puts nothing but a table in the place of a
section and nothing below a setting. -/
inductive PlainEntry : String × Datum → Prop
  | outside {key : String} {v : Datum} {first : String} {rest : List String}
    (hKey : keyNames? key = some (first :: rest)) (hFirst : ∀ k : Setting, k.sectionName ≠ first) :
    PlainEntry (key, v)
  | sectionTable {key : String} {entries : Named Datum} (k : Setting)
    (hKey : keyNames? key = some [k.sectionName]) : PlainEntry (key, .table entries)
  | setting {key : String} {v : Datum} (k : Setting)
    (hKey : keyNames? key = some [k.sectionName, k.name]) : PlainEntry (key, v)
  | unknown {key : String} {v : Datum} {first second : String} {rest : List String}
    (hKey : keyNames? key = some (first :: second :: rest))
    (hSecond : ∀ k : Setting, k.sectionName = first → k.name ≠ second) : PlainEntry (key, v)

variable {base : Named Datum} {key : String} {v : Datum} {k : Setting}

theorem at?_put (k : Setting) (base : Named Datum) (first : String) (inner : Datum) :
    k.at? (base.put first inner) =
      if k.sectionName = first then inner.entries.get? k.name else k.at? base := by
  rw [Setting.at?, Named.get?_put]
  split
  · rfl
  · rfl

theorem get?_setInner_nil {entries : Named Datum}
    (h : ∀ v ∈ dataUnder k.name entries, ¬ v.IsTable) (old : Option Datum) :
    (setInner (.table entries) [] old).entries.get? k.name =
      (dataUnder k.name entries).getLast?.or (old.bind fun v => v.entries.get? k.name) := by
  rw [setInner, merge, get?_mergeEntries h, get?_entries_getD rfl]

theorem get?_setInner_cons (v : Datum) (second : String) (more : List String) (old : Option Datum)
    (name : String) :
    (setInner v (second :: more) old).entries.get? name =
      if name = second then
        some (setInner v more (old.bind fun v => v.entries.get? second))
      else old.bind fun v => v.entries.get? name := by
  rw [setInner, setNames_cons, Datum.entries, Named.get?_put, get?_entries_getD rfl,
    get?_entries_getD rfl]

theorem given_of_section_ne {first : String} {rest : List String}
    (hKey : keyNames? key = some (first :: rest)) (h : k.sectionName ≠ first) :
    k.given (key, v) = [] := by
  rw [Setting.given, hKey]
  match rest with
  | [] => exact if_neg (Ne.symm h)
  | [_] => exact if_neg fun hBoth => h hBoth.1.symm
  | _ :: _ :: _ => rfl

theorem given_of_name_ne {first second : String} {rest : List String}
    (hKey : keyNames? key = some (first :: second :: rest)) (h : k.name ≠ second) :
    k.given (key, v) = [] := by
  rw [Setting.given, hKey]
  match rest with
  | [] => exact if_neg fun hBoth => h hBoth.2.symm
  | _ :: _ => rfl

theorem given_of_table {first : String} {entries : Named Datum}
    (hKey : keyNames? key = some [first]) (h : k.sectionName = first) :
    k.given (key, .table entries) = dataUnder k.name entries := by
  rw [Setting.given, hKey]
  exact if_pos h.symm

theorem given_of_setting {first second : String} (hKey : keyNames? key = some [first, second])
    (hSection : k.sectionName = first) (hName : k.name = second) : k.given (key, v) = [v] := by
  rw [Setting.given, hKey]
  exact if_pos ⟨hSection.symm, hName.symm⟩

/-- What stands under a setting after an entry is set. -/
theorem get?_setInner_plain {first : String} {rest : List String}
    (hPlain : PlainEntry (key, v)) (hKey : keyNames? key = some (first :: rest))
    (hSection : k.sectionName = first) (hGiven : ∀ w ∈ k.given (key, v), ¬ w.IsTable)
    (old : Option Datum) :
    (setInner v rest old).entries.get? k.name =
      (k.given (key, v)).getLast?.or (old.bind fun w => w.entries.get? k.name) := by
  cases hPlain with
  | outside hOutside hFirst =>
    cases hKey.symm.trans hOutside
    exact absurd hSection (hFirst k)
  | @sectionTable _ entries other hTable =>
    cases hKey.symm.trans hTable
    rw [given_of_table hKey hSection] at hGiven ⊢
    exact get?_setInner_nil hGiven old
  | setting other hSetting =>
    cases hKey.symm.trans hSetting
    rw [get?_setInner_cons]
    by_cases hName : k.name = other.name
    · rw [given_of_setting hKey hSection hName] at hGiven ⊢
      rw [if_pos hName, setInner, merge_of_not_isTable (hGiven v List.mem_cons_self)]
      rfl
    · rw [if_neg hName, given_of_name_ne hKey hName]
      rfl
  | unknown hUnknown hSecond =>
    cases hKey.symm.trans hUnknown
    have hName := hSecond k hSection
    rw [get?_setInner_cons, if_neg hName, given_of_name_ne hKey hName]
    rfl

theorem setNames_cons_isTable (v : Datum) (first : String) (rest : List String) (old : Datum) :
    (setNames v (first :: rest) old).IsTable := by
  rw [setNames_cons]
  trivial

theorem setInner_isTable {first : String} {rest : List String} (hPlain : PlainEntry (key, v))
    (hKey : keyNames? key = some (first :: rest)) (hSection : k.sectionName = first)
    {old : Option Datum} (hOld : k.given (key, v) ≠ [] ∨ ∀ w, old = some w → w.IsTable) :
    (setInner v rest old).IsTable := by
  cases hPlain with
  | outside hOutside hFirst =>
    cases hKey.symm.trans hOutside
    exact absurd hSection (hFirst k)
  | sectionTable other hTable =>
    cases hKey.symm.trans hTable
    rw [given_of_table hKey hSection] at hOld
    apply merge_table_isTable
    refine hOld.imp_left fun hData hNil => hData ?_
    rw [hNil]
    rfl
  | setting other hSetting =>
    cases hKey.symm.trans hSetting
    exact setNames_cons_isTable v other.name [] (old.getD .absent)
  | @unknown _ _ _ second rest hUnknown =>
    cases hKey.symm.trans hUnknown
    exact setNames_cons_isTable v second rest (old.getD .absent)

theorem PlainEntry.exists_names (h : PlainEntry (key, v)) :
    ∃ first rest, keyNames? key = some (first :: rest) := by
  cases h with
  | outside hKey => exact ⟨_, _, hKey⟩
  | sectionTable k hKey => exact ⟨_, _, hKey⟩
  | setting k hKey => exact ⟨_, _, hKey⟩
  | unknown hKey => exact ⟨_, _, hKey⟩

theorem isSection_put_of_isTable {name first : String} {inner : Datum} (hName : name = first)
    (hInner : inner.IsTable) : IsSection (base.put first inner) name := by
  intro w hw
  rw [Named.get?_put, if_pos hName] at hw
  cases hw
  exact hInner

theorem isSection_put_of_ne {name first : String} {inner : Datum} (hName : name ≠ first)
    (h : IsSection base name) : IsSection (base.put first inner) name := by
  intro w hw
  rw [Named.get?_put, if_neg hName] at hw
  exact h w hw

/-- Every setting has the last of the data that were given to it, or what it had before. Sections are
still tables, and where something was given they have become tables. -/
structure Gives (base next : Named Datum) (data : Setting → List Datum) : Prop where
  at?_eq (k : Setting) : k.at? next = (data k).getLast?.or (k.at? base)
  isSection (k : Setting) :
    data k ≠ [] ∨ IsSection base k.sectionName → IsSection next k.sectionName

theorem Gives.trans {base next last : Named Datum} {data more : Setting → List Datum}
    (h : Gives base next data) (hMore : Gives next last more) :
    Gives base last fun k => data k ++ more k where
  at?_eq k := by rw [hMore.at?_eq, h.at?_eq, List.getLast?_append, Option.or_assoc]
  isSection k hBase := by
    apply hMore.isSection
    by_cases hNil : more k = []
    · right
      apply h.isSection
      rwa [hNil, List.append_nil] at hBase
    · exact .inl hNil

theorem exists_gives_of_entry (h : PlainEntry (key, v))
    (hGiven : ∀ k : Setting, ∀ w ∈ k.given (key, v), ¬ w.IsTable) (base : Named Datum) :
    ∃ next, setAt? v (Step.ofKey key) (.table base) = some (.table next) ∧
      Gives base next fun k => k.given (key, v) := by
  obtain ⟨first, rest, hKey⟩ := h.exists_names
  refine ⟨base.put first (setInner v rest (base.get? first)), ?_, fun k => ?_, fun k hBase => ?_⟩
  · rw [setAt?_eq_setNames hKey, setNames_cons]
    rfl
  · rw [at?_put]
    by_cases hSection : k.sectionName = first
    · rw [if_pos hSection, get?_setInner_plain h hKey hSection (hGiven k), ← hSection]
      rfl
    · rw [if_neg hSection, given_of_section_ne hKey hSection]
      rfl
  · by_cases hSection : k.sectionName = first
    · refine isSection_put_of_isTable hSection (setInner_isTable h hKey hSection ?_)
      refine hBase.imp_right fun hBase w hw => hBase w ?_
      rw [hSection, hw]
    · rw [given_of_section_ne hKey hSection] at hBase
      exact isSection_put_of_ne hSection (hBase.resolve_left (absurd rfl))

/-! ## Layers -/

theorem exists_gives_of_layer {layer : Named Datum} (hPlain : ∀ entry ∈ layer, PlainEntry entry)
    (hGiven : ∀ k : Setting, ∀ w ∈ layer.flatMap k.given, ¬ w.IsTable) (base : Named Datum) :
    ∃ next, addLayer? base layer = some next ∧ Gives base next fun k => layer.flatMap k.given := by
  induction layer generalizing base with
  | nil => exact ⟨base, rfl, fun k => rfl, fun k h => h.resolve_left (absurd rfl)⟩
  | cons entry r ih =>
    obtain ⟨key, v⟩ := entry
    obtain ⟨hEntry, hRest⟩ := List.forall_mem_cons.mp hPlain
    obtain ⟨next, hNext, hGives⟩ := exists_gives_of_entry hEntry
      (fun k w hw => hGiven k w (List.mem_flatMap.mpr ⟨_, List.mem_cons_self, hw⟩)) base
    obtain ⟨last, hLast, hMore⟩ := ih hRest
      (fun k w hw => hGiven k w (List.mem_append_right _ hw)) next
    refine ⟨last, ?_, hGives.trans hMore⟩
    rw [addLayer?, List.foldlM_cons]
    simp only [hNext, Option.map_some, Datum.entries]
    exact hLast

theorem addLayer?_append (base layer other : Named Datum) :
    addLayer? base (layer ++ other) = (addLayer? base layer).bind fun next =>
      addLayer? next other := by
  rw [addLayer?, List.foldlM_append]
  rfl

/-- Layers are merged like the one layer with all their entries. -/
theorem foldlM_addLayer? (base : Named Datum) (layers : List (Named Datum)) :
    layers.foldlM addLayer? base = addLayer? base layers.flatten := by
  induction layers generalizing base with
  | nil => rfl
  | cons layer r ih =>
    rw [List.foldlM_cons, List.flatten_cons, addLayer?_append]
    exact bind_congr ih

theorem exists_gives_of_layers {layers : List (Named Datum)}
    (hPlain : ∀ layer ∈ layers, ∀ entry ∈ layer, PlainEntry entry)
    (hGiven : ∀ k : Setting, ∀ layer ∈ layers, ∀ w ∈ layer.flatMap k.given, ¬ w.IsTable) :
    ∃ base, mergeLayers? layers = some base ∧ IsSection base "export" ∧ IsSection base "check" ∧
      ∀ k : Setting, k.at? base = (layers.flatten.flatMap k.given).getLast? := by
  have hAll : ∀ k : Setting, ∀ w ∈ layers.flatten.flatMap k.given, ¬ w.IsTable := by
    intro k w hw
    obtain ⟨entry, hEntry, hw⟩ := List.mem_flatMap.mp hw
    obtain ⟨layer, hLayer, hEntry⟩ := List.mem_flatten.mp hEntry
    exact hGiven k layer hLayer w (List.mem_flatMap.mpr ⟨entry, hEntry, hw⟩)
  obtain ⟨base, hBase, hGives⟩ := exists_gives_of_layer
    (fun entry hEntry => by
      obtain ⟨layer, hLayer, hEntry⟩ := List.mem_flatten.mp hEntry
      exact hPlain layer hLayer entry hEntry) hAll []
  refine ⟨base, ?_, hGives.isSection .typedValues (.inr nofun),
    hGives.isSection .failFast (.inr nofun),
    fun k => ?_⟩
  · rw [mergeLayers?, foldlM_addLayer?]
    exact hBase
  · rw [hGives.at?_eq]
    exact Option.or_none

end Settings

end AssetShell

import AssetShell.Proofs.Settings.Scalar
import AssetShell.Proofs.Settings.Source
import AssetShell.Proofs.Text.Split

/-!
# Lists in variables

A list setting can be given as a variable whose value has the items between commas. The list is read
back, unless it has one item only and this reads as a boolean or a number: then the variable gives no
list, and nothing can be loaded.

Setting a variable changes merged data at one setting. Variables behind it that lead elsewhere keep
it so.
-/

namespace AssetShell

namespace Settings

/-! ## Data that differ at one setting -/

/-- The other data have a datum at a setting and are like the base everywhere else. -/
structure Beside (k : Setting) (v : Datum) (base other : Named Datum) : Prop where
  outside (name : String) : name ≠ k.sectionName → other.get? name = base.get? name
  inside : ∃ inner, other.get? k.sectionName = some inner ∧ inner.IsTable ∧
    inner.entries.get? k.name = some v ∧ ∀ name ≠ k.name,
      inner.entries.get? name = (base.get? k.sectionName).bind fun w => w.entries.get? name

variable {k : Setting} {v w : Datum} {base other next : Named Datum} {layer : Named Datum}

theorem beside_setInner (hv : ¬ v.IsTable) (base : Named Datum) :
    Beside k v base
      (base.put k.sectionName (setInner v [k.name] (base.get? k.sectionName))) where
  outside name hName := by rw [Named.get?_put, if_neg hName]
  inside := by
    refine ⟨setInner v [k.name] (base.get? k.sectionName), ?_, setNames_cons_isTable v k.name [] _,
      ?_, fun name hName => ?_⟩
    · rw [Named.get?_put, if_pos rfl]
    · rw [get?_setInner_cons, if_pos rfl, setInner, merge_of_not_isTable hv]
    · rw [get?_setInner_cons, if_neg hName]

/-- A path that neither leads to a setting nor to its section as a whole. -/
inductive Apart (k : Setting) : List Step → Prop
  | outside {first : String} {rest : List Step} (hFirst : smallName first ≠ k.sectionName) :
    Apart k (.name first :: rest)
  | inside {first second : String} {rest : List Step} (hSecond : smallName second ≠ k.name) :
    Apart k (.name first :: .name second :: rest)

/-- What becomes of the datum under the first name of a path. -/
def setUnder? (v : Datum) (path : List Step) (old : Option Datum) : Option Datum :=
  match path with
  | [] => some (merge old v)
  | step :: rest => setAt? v (step :: rest) (old.getD .absent)

theorem setAt?_name_cons (v : Datum) (text : String) (path : List Step) (old : Datum) :
    setAt? v (.name text :: path) old =
      (setUnder? v path (old.entries.get? (smallName text))).map fun inner =>
        .table (old.entries.put (smallName text) inner) := by
  cases path with
  | nil => rfl
  | cons step path =>
    rw [setAt?]
    · rfl
    · exact fun hNil => List.cons_ne_nil step path hNil

theorem Beside.put_outside (h : Beside k v base other) {name : String} (hName : name ≠ k.sectionName)
    (inner : Datum) : Beside k v (base.put name inner) (other.put name inner) where
  outside found hFound := by rw [Named.get?_put, Named.get?_put, h.outside found hFound]
  inside := by
    rw [Named.get?_put, Named.get?_put, if_neg hName.symm, if_neg hName.symm]
    exact h.inside

theorem Beside.put_inside (h : Beside k v base other) {name : String} (hName : name ≠ k.name)
    (inner : Datum) :
    Beside k v
      (base.put k.sectionName
        (.table (((base.get? k.sectionName).getD .absent).entries.put name inner)))
      (other.put k.sectionName
        (.table (((other.get? k.sectionName).getD .absent).entries.put name inner))) where
  outside found hFound := by
    rw [Named.get?_put, Named.get?_put, if_neg hFound, if_neg hFound, h.outside found hFound]
  inside := by
    obtain ⟨old, hOld, -, hValue, hRest⟩ := h.inside
    refine ⟨_, (Named.get?_put _ _ _ _).trans (if_pos rfl), trivial, ?_, fun found hFound => ?_⟩
    · rw [Datum.entries, Named.get?_put, if_neg hName.symm, hOld]
      exact hValue
    · rw [Named.get?_put, if_pos rfl, Option.bind_some, Datum.entries, Datum.entries,
        Named.get?_put, Named.get?_put, hOld, Option.getD_some, hRest found hFound,
        get?_entries_getD rfl]

section Step

variable {first second : String} {rest : List Step}

theorem Beside.setAt?_outside (h : Beside k v base other) (hFirst : smallName first ≠ k.sectionName)
    (hNext : (setAt? w (.name first :: rest) (.table base)).map Datum.entries = some next) :
    ∃ next', (setAt? w (.name first :: rest) (.table other)).map Datum.entries = some next' ∧
      Beside k v next next' := by
  rw [setAt?_name_cons, Option.map_map] at hNext
  obtain ⟨inner, hInner, rfl⟩ := Option.map_eq_some_iff.mp hNext
  refine ⟨_, ?_, h.put_outside hFirst inner⟩
  rw [setAt?_name_cons, Datum.entries, h.outside _ hFirst]
  change setUnder? w rest (base.get? (smallName first)) = some inner at hInner
  rw [hInner]
  rfl

theorem Beside.setAt?_inside (h : Beside k v base other) (hFirst : smallName first = k.sectionName)
    (hSecond : smallName second ≠ k.name)
    (hNext : (setAt? w (.name first :: .name second :: rest) (.table base)).map Datum.entries =
      some next) :
    ∃ next', (setAt? w (.name first :: .name second :: rest) (.table other)).map Datum.entries =
      some next' ∧ Beside k v next next' := by
  rw [setAt?_name_cons, hFirst, setUnder?, setAt?_name_cons, Option.map_map,
    Option.map_map] at hNext
  obtain ⟨inner, hInner, rfl⟩ := Option.map_eq_some_iff.mp hNext
  refine ⟨_, ?_, h.put_inside hSecond inner⟩
  obtain ⟨old, hOld, -, -, hRest⟩ := h.inside
  rw [setAt?_name_cons, hFirst, setUnder?, setAt?_name_cons, Datum.entries, hOld, Option.getD_some,
    hRest _ hSecond, ← get?_entries_getD (rfl : Datum.absent.entries = []), Option.map_map,
    Option.map_map]
  change setUnder? w rest (((base.get? k.sectionName).getD .absent).entries.get? _) = _ at hInner
  rw [hInner]
  rfl

end Step

theorem Beside.setAt? (h : Beside k v base other) {path : List Step} (hPath : Apart k path)
    (hNext : (setAt? w path (.table base)).map Datum.entries = some next) :
    ∃ next', (Settings.setAt? w path (.table other)).map Datum.entries = some next' ∧
      Beside k v next next' := by
  cases hPath with
  | outside hFirst => exact h.setAt?_outside hFirst hNext
  | @inside first second rest hSecond =>
    by_cases hFirst : smallName first = k.sectionName
    · exact h.setAt?_inside hFirst hSecond hNext
    · exact h.setAt?_outside hFirst hNext

theorem Beside.addLayer? (h : Beside k v base other)
    (hLayer : ∀ entry ∈ layer, Apart k (Step.ofKey entry.1))
    (hNext : addLayer? base layer = some next) :
    ∃ next', Settings.addLayer? other layer = some next' ∧ Beside k v next next' := by
  induction layer generalizing base other with
  | nil =>
    cases hNext
    exact ⟨other, rfl, h⟩
  | cons entry r ih =>
    obtain ⟨key, w⟩ := entry
    obtain ⟨hEntry, hRest⟩ := List.forall_mem_cons.mp hLayer
    rw [Settings.addLayer?, List.foldlM_cons] at hNext
    obtain ⟨middle, hMiddle, hNext⟩ := Option.bind_eq_some_iff.mp hNext
    obtain ⟨middle', hOther, h⟩ := h.setAt? hEntry hMiddle
    obtain ⟨next', hLast, h⟩ := ih h hRest hNext
    refine ⟨next', ?_, h⟩
    rw [Settings.addLayer?, List.foldlM_cons]
    simp only [hOther]
    exact hLast

/-- An entry for a setting, put among others, changes what is merged at this setting only, if no
later entry leads there. -/
theorem exists_beside {key : String} {before after : Named Datum}
    (hKey : keyNames? key = some [k.sectionName, k.name]) (hv : ¬ v.IsTable)
    (hAfter : ∀ entry ∈ after, Apart k (Step.ofKey entry.1))
    (h : Settings.addLayer? [] (before ++ after) = some base) :
    ∃ other, Settings.addLayer? [] (before ++ (key, v) :: after) = some other ∧
      Beside k v base other := by
  rw [addLayer?_append] at h
  obtain ⟨start, hStart, h⟩ := Option.bind_eq_some_iff.mp h
  obtain ⟨other, hOther, hBeside⟩ := (beside_setInner hv start).addLayer? hAfter h
  refine ⟨other, ?_, hBeside⟩
  rw [addLayer?_append, hStart, Option.bind_some, Settings.addLayer?, List.foldlM_cons]
  simp only [setAt?_eq_setNames hKey, setNames_cons, Option.map_some, Datum.entries]
  exact hOther

/-! ## Reading the data -/

theorem Beside.at?_eq (h : Beside k v base other) : k.at? other = some v := by
  obtain ⟨inner, hInner, -, hValue, -⟩ := h.inside
  rw [Setting.at?, hInner]
  exact hValue

theorem Beside.at?_of_ne (h : Beside k v base other) {found : Setting} (hFound : found ≠ k) :
    found.at? other = found.at? base := by
  by_cases hSection : found.sectionName = k.sectionName
  · obtain ⟨inner, hInner, -, -, hRest⟩ := h.inside
    have hName : found.name ≠ k.name := fun hName => hFound (Setting.eq_of_names hSection hName)
    rw [Setting.at?, Setting.at?, hSection, hInner]
    exact hRest _ hName
  · rw [Setting.at?, Setting.at?, h.outside _ hSection]

theorem Beside.isSection (h : Beside k v base other) : IsSection other k.sectionName := by
  obtain ⟨inner, hInner, hTable, -⟩ := h.inside
  intro w hw
  cases hInner.symm.trans hw
  exact hTable

/-- Where checks can be read, so can each of their settings. -/
theorem exists_value?_of_checks {checks : CheckSettings}
    (h : Datum.read? base "check" CheckSettings.ofDatum? {} = some checks)
    (hk : k.sectionName = "check") : ∃ x, k.value? base = some x := by
  cases hBase : base.get? "check" with
  | none =>
    refine ⟨k.default, Setting.value?_of_at?_none ?_⟩
    rw [Setting.at?, hk, hBase, Option.bind_none]
  | some v =>
    cases v with
    | table entries =>
      have hSection : IsSection base "check" := by
        intro w hw
        cases hBase.symm.trans hw
        trivial
      rw [read?_checks hSection] at h
      obtain ⟨extensions, hExtensions, h⟩ := Option.bind_eq_some_iff.mp h
      obtain ⟨ignorePaths, hIgnorePaths, h⟩ := Option.bind_eq_some_iff.mp h
      obtain ⟨failFast, hFailFast, -⟩ := Option.bind_eq_some_iff.mp h
      cases k with
      | typedValues => exact absurd hk (by decide)
      | outputFormat => exact absurd hk (by decide)
      | list l =>
        cases l with
        | extensions => exact ⟨extensions, hExtensions⟩
        | ignorePaths => exact ⟨ignorePaths, hIgnorePaths⟩
      | failFast => exact ⟨failFast, hFailFast⟩
    | list items =>
      -- A list of settings in their order has nothing under names.
      refine ⟨k.default, Setting.value?_of_at?_none ?_⟩
      rw [Setting.at?, hk, hBase]
      rfl
    | _ =>
      rw [Datum.read?, hBase] at h
      cases h

section Lists

variable {l : ListSetting} {s : Settings}

theorem Beside.read?_exports (h : Beside (.list l) v base other) :
    Datum.read? other "export" ExportSettings.ofDatum? {} =
      Datum.read? base "export" ExportSettings.ofDatum? {} := by
  have hSection : "export" ≠ (Setting.list l).sectionName := by
    change "export" ≠ "check"
    decide
  rw [Datum.read?, Datum.read?, h.outside _ hSection]

theorem Beside.exists_value? (h : Beside (.list l) v base other) (hBase : ofEntries? base = some s)
    {xs : List String} (hv : v.toTexts? = some xs) (hk : k.sectionName = "check") :
    ∃ x, k.value? other = some x := by
  obtain ⟨_, -, hBase⟩ := Option.bind_eq_some_iff.mp hBase
  obtain ⟨checks, hChecks, -⟩ := Option.bind_eq_some_iff.mp hBase
  by_cases hList : k = .list l
  · subst hList
    exact ⟨xs, (Setting.value?_of_at? h.at?_eq).trans hv⟩
  · rw [Setting.value?_congr (h.at?_of_ne hList)]
    exact exists_value?_of_checks hChecks hk

/-- Texts that stand at a list setting are what is read there. -/
theorem Beside.ofEntries?_of_texts (h : Beside (.list l) v base other)
    (hBase : ofEntries? base = some s) {xs : List String} (hv : v.toTexts? = some xs) :
    ∃ t, ofEntries? other = some t ∧ (Setting.list l).get t = xs := by
  obtain ⟨extensions, hExtensions⟩ := h.exists_value? hBase hv (k := .list .extensions) rfl
  obtain ⟨ignorePaths, hIgnorePaths⟩ := h.exists_value? hBase hv (k := .list .ignorePaths) rfl
  obtain ⟨failFast, hFailFast⟩ := h.exists_value? hBase hv (k := .failFast) rfl
  obtain ⟨exports, hExports, -⟩ := Option.bind_eq_some_iff.mp hBase
  refine ⟨⟨exports, ⟨extensions, ignorePaths, failFast⟩⟩, ?_, ?_⟩
  · rw [ofEntries?, h.read?_exports, hExports, Settings.read?_checks h.isSection, hExtensions,
      hIgnorePaths, hFailFast]
    rfl
  · have hValue : (Setting.list l).value? other = some xs :=
      (Setting.value?_of_at? h.at?_eq).trans hv
    cases l with
    | extensions => exact Option.some.inj (hExtensions.symm.trans hValue)
    | ignorePaths => exact Option.some.inj (hIgnorePaths.symm.trans hValue)

/-- What is no list of texts cannot stand at a list setting. -/
theorem Beside.ofEntries?_eq_none (h : Beside (.list l) v base other) (hv : v.toTexts? = none) :
    ofEntries? other = none := by
  have hValue : (Setting.list l).value? other = none := (Setting.value?_of_at? h.at?_eq).trans hv
  cases hOther : ofEntries? other with
  | none => rfl
  | some t =>
    obtain ⟨_, -, hRest⟩ := Option.bind_eq_some_iff.mp hOther
    obtain ⟨checks, hChecks, -⟩ := Option.bind_eq_some_iff.mp hRest
    obtain ⟨x, hx⟩ := exists_value?_of_checks (k := .list l) hChecks rfl
    cases hValue.symm.trans hx

end Lists

/-! ## Variables -/

end Settings

/-- The variable of a list setting. -/
def ListSetting.variableName : ListSetting → String
  | .extensions => "AASV__CHECK__EXTENSIONS"
  | .ignorePaths => "AASV__CHECK__IGNORE_PATHS"

/-- A variable that is no setting at all, or leads elsewhere than to this setting. -/
def Variable.LeavesAlone (v : Variable) (k : Setting) : Prop :=
  ∀ key, v.key? = some key → Settings.Apart k (Settings.Step.ofKey key)

namespace Settings

variable {l : ListSetting} {around : Surroundings} {named : Option String} {s : Settings}
  {before after : List Variable} {value : String}

theorem key?_variableName (l : ListSetting) (value : String) :
    Variable.key? ⟨l.variableName, value⟩ = some (Setting.list l).key := by
  -- The value does not matter for the key.
  have hClosed : Variable.key? ⟨l.variableName, ""⟩ = some (Setting.list l).key := by
    cases l <;> decide
  exact hClosed

theorem listKeys_contains (l : ListSetting) :
    Variable.listKeys.contains (Setting.list l).key = true := by
  cases l <;> decide

/-- One more variable for a list setting changes the merged data at this setting only. -/
theorem exists_beside_of_load? {datum : Datum} (hDatum : ¬ datum.IsTable)
    (hSetting : Variable.setting (Setting.list l).key value = datum)
    (hEnvironment : around.environment = before ++ ⟨l.variableName, value⟩ :: after)
    (hAfter : ∀ v ∈ after, v.LeavesAlone (.list l))
    (h : load? { around with environment := before ++ after } named = some s) :
    ∃ base other, ofEntries? base = some s ∧ Beside (.list l) datum base other ∧
      load? around named = ofEntries? other := by
  rw [load?_eq_bind] at h ⊢
  obtain ⟨entries, hEntries, h⟩ := Option.bind_eq_some_iff.mp h
  obtain ⟨base, hBase, hs⟩ := Option.bind_eq_some_iff.mp h
  change fileEntries? around named = some entries at hEntries
  rw [Variable.layer, List.filterMap_append, ← List.append_assoc] at hBase
  have hLayer : ∀ entry ∈ after.filterMap Variable.entry?,
      Apart (.list l) (Step.ofKey entry.1) := by
    intro entry hEntry
    obtain ⟨v, hv, hEntry⟩ := List.mem_filterMap.mp hEntry
    obtain ⟨found, hFound, rfl⟩ := Option.map_eq_some_iff.mp hEntry
    exact hAfter v hv found hFound
  obtain ⟨other, hOther, hBeside⟩ := exists_beside (Setting.list l).keyNames?_key hDatum hLayer hBase
  refine ⟨base, other, hs, hBeside, ?_⟩
  have hEntry : Variable.entry? ⟨l.variableName, value⟩ = some ((Setting.list l).key, datum) := by
    rw [Variable.entry?, key?_variableName, Option.map_some, hSetting]
  rw [hEntries, Option.bind_some, hEnvironment, Variable.layer, List.filterMap_append,
    List.filterMap_cons_some hEntry, ← List.append_assoc, hOther, Option.bind_some]

theorem load?_reads_list_variable (l : ListSetting) (around : Surroundings) (named : Option String)
    (before after : List Variable) (xs : List String) (hNonempty : xs ≠ [])
    (hComma : ∀ x ∈ xs, ',' ∉ x.toList)
    (hEnvironment : around.environment = before ++ ⟨l.variableName, ",".intercalate xs⟩ :: after)
    (hAfter : ∀ v ∈ after, v.LeavesAlone (.list l))
    (hOthers : (load? { around with environment := before ++ after } named).isSome = true) :
    ((∀ x, xs = [x] → Variable.scalar? x = none) →
      ∃ s, load? around named = some s ∧ (Setting.list l).get s = xs) ∧
    ∀ x v, xs = [x] → Variable.scalar? x = some v → load? around named = none := by
  obtain ⟨s, hs⟩ := Option.isSome_iff_exists.mp hOthers
  constructor
  · intro hLone
    have hScalar : Variable.scalar? (",".intercalate xs) = none := by
      obtain _ | ⟨x, _ | ⟨y, r⟩⟩ := xs
      · exact absurd rfl hNonempty
      · exact hLone x rfl
      · cases hFound : Variable.scalar? (",".intercalate (x :: y :: r)) with
        | none => rfl
        | some v =>
          exact absurd (mem_toList_intercalate ',' x y r) (Variable.comma_not_mem_of_scalar? hFound)
    have hTable : ¬ (Datum.list (xs.map .text)).IsTable := not_false
    have hTexts : (Datum.list (xs.map .text)).toTexts? = some xs := Setting.read?_list l xs
    have hSplit : splitText ',' (",".intercalate xs) = xs := splitText_intercalate hNonempty hComma
    have hSetting : Variable.setting (Setting.list l).key (",".intercalate xs) =
        .list (xs.map .text) := by
      rw [Variable.setting_of_not_scalar hScalar (listKeys_contains l), hSplit]
    obtain ⟨base, other, hBase, hBeside, hLoad⟩ :=
      exists_beside_of_load? hTable hSetting hEnvironment hAfter hs
    rw [hLoad]
    exact hBeside.ofEntries?_of_texts hBase hTexts
  · rintro x v rfl hScalar
    have hTexts := Variable.toTexts?_of_scalar? hScalar
    obtain ⟨base, other, hBase, hBeside, hLoad⟩ :=
      exists_beside_of_load? hTexts.1 (Variable.setting_of_scalar? hScalar _) hEnvironment hAfter hs
    rw [hLoad]
    exact hBeside.ofEntries?_eq_none hTexts.2

/-- A list with a number among its items is read back, the number alone is not. -/
theorem load?_reads_list_variable_with_number :
    let around (value : String) : Surroundings := ⟨fun _ => .error .notFound, none,
      [⟨ListSetting.extensions.variableName, value⟩, ⟨"PATH", "/bin"⟩], id⟩
    (∃ s, load? (around "1,aasx") none = some s ∧ s.checks.extensions = ["1", "aasx"]) ∧
      load? (around "1") none = none := by
  intro around
  have hAfter : ∀ v ∈ [(⟨"PATH", "/bin"⟩ : Variable)], v.LeavesAlone (.list .extensions) := by
    rw [List.forall_mem_singleton]
    intro key hKey
    cases hKey.symm.trans (by decide : Variable.key? ⟨"PATH", "/bin"⟩ = none)
  have hOthers (value : String) : (load?
      { around value with environment := [] ++ [⟨"PATH", "/bin"⟩] } none).isSome = true := by
    have hLayer (name : String) : optionalLayer?
        { around value with environment := [] ++ [⟨"PATH", "/bin"⟩] } name = some [] := by
      have hMissing : Missing
          { around value with environment := [] ++ [⟨"PATH", "/bin"⟩] } name := by
        intro place _ content hEntry
        cases hEntry
      rw [optionalLayer?, hMissing.source?_eq_none]
    have hUsual : usualEntries?
        { around value with environment := [] ++ [⟨"PATH", "/bin"⟩] } = some [] := by
      rw [usualEntries?, usualPlaces, List.mapM_cons, List.mapM_cons, List.mapM_cons, hLayer, hLayer,
        hLayer]
      rfl
    rw [load?_eq_bind, fileEntries?, hUsual]
    rfl
  have hScalar : Variable.scalar? "1" = some (.integer 1) := by
    have hBoolean : Variable.boolean? "1" = none := by decide
    have hInteger : Variable.integer? "1" = some 1 := by decide
    rw [Variable.scalar?, hBoolean, hInteger]
    rfl
  constructor
  · have hNotLone (x : String) : ["1", "aasx"] ≠ [x] := by
      intro h
      cases (List.cons.inj h).2
    exact (load?_reads_list_variable .extensions (around "1,aasx") none [] [⟨"PATH", "/bin"⟩]
      ["1", "aasx"] (by decide) (by decide) rfl hAfter (hOthers _)).1
      fun x hx => absurd hx (hNotLone x)
  · exact (load?_reads_list_variable .extensions (around "1") none [] [⟨"PATH", "/bin"⟩] ["1"]
      (by decide) (by decide) rfl hAfter (hOthers _)).2 "1" (.integer 1) rfl hScalar

end Settings

end AssetShell

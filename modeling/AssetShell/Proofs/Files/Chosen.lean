import AssetShell.Proofs.Files.Walk
import AssetShell.Proofs.Text.Span
import AssetShell.Report

/-!
# Chosen files

Which files the settings of a check choose: those whose extension is one of the wanted ones in any
case of its letters, at no place that starts with the parts of an ignored path. Ignoring a place
ignores all that stands under it.
-/

namespace AssetShell

namespace Path

variable {names : List String} {base : Path} {name ext : List Char}

/-- The extension is what follows the last point, if something stands before that point. -/
theorem extensionOf?_eq_some_iff :
    extensionOf? name = some ext ↔ ∃ stem, stem ≠ [] ∧ name = stem ++ '.' :: ext ∧ '.' ∉ ext := by
  constructor
  · intro h
    unfold extensionOf? at h
    split at h
    · cases h
    · cases h
    · rename_i tail mark d before hSpan
      obtain ⟨hName, hTail, hMark⟩ := span_eq_iff.mp hSpan
      cases h
      have hPoint : mark = '.' := by simpa using hMark mark rfl
      subst hPoint
      refine ⟨(d :: before).reverse, List.reverse_ne_nil_iff.mpr (List.cons_ne_nil d before), ?_, ?_⟩
      · have hReverse := congrArg List.reverse hName
        simpa using hReverse
      · intro hMem
        simpa using hTail '.' (List.mem_reverse.mp hMem)
  · rintro ⟨stem, hStem, rfl, hExt⟩
    obtain ⟨d, before, hBefore⟩ := List.exists_cons_of_ne_nil (List.reverse_ne_nil_iff.mpr hStem)
    have hSpan : (stem ++ '.' :: ext).reverse.span (· ≠ '.') =
        (ext.reverse, '.' :: d :: before) := by
      rw [List.reverse_append, List.reverse_cons, List.append_assoc, hBefore]
      apply span_append
      · intro c hc
        have hNe : c ≠ '.' := fun hEq => hExt (hEq ▸ List.mem_reverse.mp hc)
        exact decide_eq_true hNe
      · intro c hc
        cases hc
        rfl
    rw [extensionOf?, hSpan]
    exact congrArg some (List.reverse_reverse ext)

theorem fileName?_ofNames_eq_some_iff {last : String} :
    (ofNames names).fileName? = some last ↔ ∃ before, names = before ++ [last] := by
  rcases List.eq_nil_or_concat names with rfl | ⟨before, found, rfl⟩
  · simp [ofNames, fileName?]
  · simp [ofNames, fileName?]

theorem isUnder_ofNames_iff :
    (ofNames names).isUnder base = true ↔ base.parts <+: names.map .name :=
  List.isPrefixOf_iff_prefix

end Path

namespace CheckSettings

variable {s : CheckSettings} {place : List String}

/-- The last name of a place has one of the wanted extensions behind its last point. -/
def WantsExtension (s : CheckSettings) (place : List String) : Prop :=
  ∃ folder name stem ext, place = folder ++ [name] ∧ name.toList = stem ++ '.' :: ext ∧
    stem ≠ [] ∧ '.' ∉ ext ∧ ∃ e ∈ s.extensions, sameLetters e (String.ofList ext) = true

/-- A place does not start with the parts of an ignored path. -/
def Reaches (s : CheckSettings) (place : List String) : Prop :=
  ∀ base ∈ s.ignorePaths, ¬ (Path.ofText base).parts <+: place.map .name

/-- The settings choose a file at a place below the root. -/
structure Chooses (s : CheckSettings) (place : List String) : Prop where
  wanted : s.WantsExtension place
  notIgnored : s.Reaches place

theorem isIgnored_iff :
    s.isIgnored (.ofNames place) = true ↔
      ∃ base ∈ s.ignorePaths, (Path.ofText base).parts <+: place.map .name := by
  simp only [isIgnored, List.any_eq_true, Path.isUnder_ofNames_iff]

theorem matchesExtension_iff :
    s.matchesExtension (.ofNames place) = true ↔ s.WantsExtension place := by
  have hExtension : s.matchesExtension (.ofNames place) = true ↔ ∃ found,
      (Path.ofNames place).extension? = some found ∧
        ∃ e ∈ s.extensions, sameLetters e found = true := by
    rw [matchesExtension]
    cases (Path.ofNames place).extension? <;> simp
  rw [hExtension]
  constructor
  · rintro ⟨found, hFound, hWanted⟩
    obtain ⟨name, hName, hFound⟩ := Option.bind_eq_some_iff.mp hFound
    obtain ⟨ext, hExt, rfl⟩ := Option.map_eq_some_iff.mp hFound
    obtain ⟨folder, rfl⟩ := Path.fileName?_ofNames_eq_some_iff.mp hName
    obtain ⟨stem, hStem, hChars, hPoint⟩ := Path.extensionOf?_eq_some_iff.mp hExt
    exact ⟨folder, name, stem, ext, rfl, hChars, hStem, hPoint, hWanted⟩
  · rintro ⟨folder, name, stem, ext, rfl, hChars, hStem, hPoint, hWanted⟩
    refine ⟨String.ofList ext, ?_, hWanted⟩
    have hName : (Path.ofNames (folder ++ [name])).fileName? = some name :=
      Path.fileName?_ofNames_eq_some_iff.mpr ⟨folder, rfl⟩
    have hExt := Path.extensionOf?_eq_some_iff.mpr ⟨stem, hStem, hChars, hPoint⟩
    rw [Path.extension?, hName, Option.bind_some, hExt, Option.map_some]

theorem reaches_iff : s.Reaches place ↔ Report.ignores s place = false := by
  rw [Report.ignores, ← Bool.not_eq_true, isIgnored_iff]
  simp only [Reaches, not_exists, not_and]

theorem chooses_iff :
    s.Chooses place ↔
      Report.ignores s place = false ∧ s.matchesExtension (.ofNames place) = true := by
  rw [matchesExtension_iff, ← reaches_iff]
  exact ⟨fun h => ⟨h.notIgnored, h.wanted⟩, fun h => ⟨h.2, h.1⟩⟩

theorem ignores_downward (s : CheckSettings) : Entry.Downward (Report.ignores s) := by
  intro place rest h
  obtain ⟨base, hBase, hUnder⟩ := isIgnored_iff.mp h
  apply isIgnored_iff.mpr
  refine ⟨base, hBase, ?_⟩
  rw [List.map_append]
  exact hUnder.trans (List.prefix_append _ _)

theorem kept_iff {f : Found} :
    Entry.kept (Report.ignores s) [] f = true ↔ f.path = [] ∨ s.Reaches f.path := by
  rw [Entry.kept, Bool.or_eq_true, decide_eq_true_iff, Bool.not_eq_true', reaches_iff]

end CheckSettings

end AssetShell

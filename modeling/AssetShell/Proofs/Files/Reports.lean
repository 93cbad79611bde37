import AssetShell.Proofs.Files.Chosen
import AssetShell.Proofs.Files.FirstFailure
import AssetShell.Proofs.Files.PathOrder

/-!
# Reports on a tree of files

A check that goes on after failures reports every chosen file of a folder once, every folder that it
cannot list, and nothing else. What a report on a file says is settled by the content of the file.
Reports come in the order of their places, whatever the order in which folders list their entries.
-/

namespace AssetShell

namespace Report

variable {wording : String → String} {s : CheckSettings} {root : String} {f : Found} {r : Report}

/-! ## One report -/

/-- A report says what a file holds, or why it is refused. -/
structure Describes (wording : String → String) (r : Report)
    (content : Except FileFault ByteArray) : Prop where
  accepted : ∀ bytes text entities, content = .ok bytes → String.fromUTF8? bytes = some text →
    Document.read text = .ok entities → r.entities = entities.length ∧ r.fault? = none
  refused : ∀ bytes text fault, content = .ok bytes → String.fromUTF8? bytes = some text →
    Document.read text = .error fault →
    r.entities = 0 ∧ ∃ f, r.fault? = some f ∧ f.rule = fault.rule ∧
      f.message = fault.message (wording text)
  notText : ∀ bytes, content = .ok bytes → String.fromUTF8? bytes = none →
    r.entities = 0 ∧ ∃ f, r.fault? = some f ∧ f.rule = "io-error" ∧
      f.message = "IO error: stream did not contain valid UTF-8"
  unreadable : ∀ fault, content = .error fault →
    r.entities = 0 ∧ ∃ f, r.fault? = some f ∧ f.rule = "io-error" ∧
      f.message = "IO error: " ++ fault.message

theorem textOf_eq_ok {bytes : ByteArray} {text : String} (h : String.fromUTF8? bytes = some text) :
    Entry.textOf (.ok bytes) = .ok text := by
  rw [Entry.textOf, h]

theorem textOf_eq_error {bytes : ByteArray} (h : String.fromUTF8? bytes = none) :
    Entry.textOf (.ok bytes) = .error .notText := by
  rw [Entry.textOf, h]

theorem describes_of_countEntities {content : Except FileFault ByteArray}
    (h : r.outcome = countEntities wording content) : r.Describes wording content where
  accepted bytes text entities hContent hText hRead := by
    have hOutcome : r.outcome = .ok entities.length := by
      rw [h, hContent, countEntities, textOf_eq_ok hText]
      simp only [hRead]
    rw [Report.entities, fault?, hOutcome]
    exact ⟨rfl, rfl⟩
  refused bytes text fault hContent hText hRead := by
    have hOutcome : r.outcome = .error (.document fault (wording text)) := by
      rw [h, hContent, countEntities, textOf_eq_ok hText]
      simp only [hRead]
    rw [Report.entities, fault?, hOutcome]
    exact ⟨rfl, _, rfl, rfl, rfl⟩
  notText bytes hContent hText := by
    have hOutcome : r.outcome = .error (.file .notText) := by
      rw [h, hContent, countEntities, textOf_eq_error hText]
    rw [Report.entities, fault?, hOutcome]
    exact ⟨rfl, _, rfl, rfl, rfl⟩
  unreadable fault hContent := by
    have hOutcome : r.outcome = .error (.file fault) := by
      rw [h, hContent]
      rfl
    rw [Report.entities, fault?, hOutcome]
    exact ⟨rfl, _, rfl, rfl, rfl⟩

theorem ofFound?_file (path : List String) (content : Except FileFault ByteArray) :
    ofFound? wording s root ⟨path, .file content⟩ =
      if s.matchesExtension (.ofNames (placeIn root path)) then
        some ⟨placeIn root path, countEntities wording content⟩
      else none :=
  rfl

/-- A report is on a file with a wanted extension or on a folder that cannot be listed. -/
theorem ofFound?_eq_some_iff :
    ofFound? wording s root f = some r ↔ r.path = placeIn root f.path ∧
      ((∃ content, f.sight = .file content ∧ s.matchesExtension (.ofNames r.path) = true ∧
          r.outcome = countEntities wording content) ∨
        ∃ fault, f.sight = .fault fault ∧
          r.outcome = .error (.walk (f.path.foldl joined root) fault)) := by
  obtain ⟨path, sight⟩ := f
  obtain ⟨place, outcome⟩ := r
  constructor
  · intro h
    cases sight with
    | file content =>
      rw [ofFound?_file] at h
      split at h
      · rename_i hWanted
        cases h
        exact ⟨rfl, .inl ⟨content, rfl, hWanted, rfl⟩⟩
      · cases h
    | folder => cases h
    | fault fault =>
      cases h
      exact ⟨rfl, .inr ⟨fault, rfl, rfl⟩⟩
  · rintro ⟨rfl, ⟨content, rfl, hWanted, rfl⟩ | ⟨fault, rfl, rfl⟩⟩
    · rw [ofFound?_file]
      exact if_pos hWanted
    · rfl

theorem placeIn_of_ne_nil (root : String) {path : List String} (h : path ≠ []) :
    placeIn root path = path := by
  cases path with
  | nil => exact absurd rfl h
  | cons name names => rfl

/-- The reports on a root are those on its files with wanted extensions and on its folders that cannot
be listed, as far as their places are not ignored. -/
theorem mem_all_iff {e : Entry} :
    r ∈ all wording s root (.ok e) ↔ ∃ names, r.path = placeIn root names ∧
      (names = [] ∨ s.Reaches names) ∧
      ((∃ content, e.HasFile names content ∧ s.WantsExtension r.path ∧
          r.outcome = countEntities wording content) ∨
        ∃ fault, e.HasClosedFolder names fault ∧
          r.outcome = .error (.walk (names.foldl joined root) fault)) := by
  rw [all, foundIn, List.mem_filterMap]
  simp only [Entry.mem_walk_iff s.ignores_downward, CheckSettings.kept_iff, ofFound?_eq_some_iff,
    CheckSettings.matchesExtension_iff]
  constructor
  · rintro ⟨⟨names, sight⟩, ⟨hSight, hReached⟩, hPlace, hReport⟩
    refine ⟨names, hPlace, hReached, ?_⟩
    rcases hReport with ⟨content, rfl, hWanted, hOutcome⟩ | ⟨fault, rfl, hOutcome⟩
    · exact .inl ⟨content, hSight, hWanted, hOutcome⟩
    · exact .inr ⟨fault, hSight, hOutcome⟩
  · rintro ⟨names, hPlace, hReached, ⟨content, hFile, hWanted, hOutcome⟩ | ⟨fault, hClosed, hOutcome⟩⟩
    · exact ⟨⟨names, .file content⟩, ⟨hFile, hReached⟩, hPlace,
        .inl ⟨content, rfl, hWanted, hOutcome⟩⟩
    · exact ⟨⟨names, .fault fault⟩, ⟨hClosed, hReached⟩, hPlace, .inr ⟨fault, rfl, hOutcome⟩⟩

/-! ## The reports on a folder -/

section Folder

variable {children others : List (String × Entry)} {path : List String} {sight : Sight}

theorem path_ne_nil_of_shows (h : (Entry.folder children).Shows path sight)
    (hSight : sight ≠ .folder) : path ≠ [] := by
  rintro rfl
  cases h
  exact hSight rfl

theorem sight_ne_folder (h : ofFound? wording s root f = some r) : f.sight ≠ .folder := by
  obtain ⟨-, ⟨_, hSight, -⟩ | ⟨_, hSight, -⟩⟩ := ofFound?_eq_some_iff.mp h
  · rw [hSight]
    exact Sight.noConfusion
  · rw [hSight]
    exact Sight.noConfusion

/-- The place in a report is that of what was met. -/
theorem path_eq_of_ofFound? (hSight : (Entry.folder children).Shows f.path f.sight)
    (h : ofFound? wording s root f = some r) : r.path = f.path := by
  have hPath := path_ne_nil_of_shows hSight (sight_ne_folder h)
  rw [(ofFound?_eq_some_iff.mp h).1, placeIn_of_ne_nil root hPath]

theorem mem_all_folder_iff :
    r ∈ all wording s root (.ok (.folder children)) ↔
      (∃ content, (Entry.folder children).HasFile r.path content ∧ s.Chooses r.path ∧
        r.outcome = countEntities wording content) ∨
      ∃ fault, (Entry.folder children).HasClosedFolder r.path fault ∧ s.Reaches r.path ∧
        r.outcome = .error (.walk (r.path.foldl joined root) fault) := by
  rw [mem_all_iff]
  constructor
  · rintro ⟨names, hPlace, hReached, ⟨content, hFile, hWanted, hOutcome⟩ | ⟨fault, hClosed, hOutcome⟩⟩
    · have hNames := path_ne_nil_of_shows hFile Sight.noConfusion
      rw [placeIn_of_ne_nil root hNames] at hPlace
      rw [hPlace] at hWanted ⊢
      exact .inl ⟨content, hFile, ⟨hWanted, hReached.resolve_left hNames⟩, hOutcome⟩
    · have hNames := path_ne_nil_of_shows hClosed Sight.noConfusion
      rw [placeIn_of_ne_nil root hNames] at hPlace
      rw [hPlace]
      exact .inr ⟨fault, hClosed, hReached.resolve_left hNames, hOutcome⟩
  · rintro (⟨content, hFile, hChosen, hOutcome⟩ | ⟨fault, hClosed, hReaches, hOutcome⟩)
    · have hPlace := placeIn_of_ne_nil root (path_ne_nil_of_shows hFile Sight.noConfusion)
      exact ⟨r.path, hPlace.symm, .inr hChosen.notIgnored,
        .inl ⟨content, hFile, hChosen.wanted, hOutcome⟩⟩
    · have hPlace := placeIn_of_ne_nil root (path_ne_nil_of_shows hClosed Sight.noConfusion)
      exact ⟨r.path, hPlace.symm, .inr hReaches, .inr ⟨fault, hClosed, hOutcome⟩⟩

theorem all_in_order (wording : String → String) (s : CheckSettings) (root : String)
    (hDistinct : (Entry.folder children).DistinctNames) :
    (all wording s root (.ok (.folder children))).Pairwise fun r t => Precedes r.path t.path := by
  rw [all, foundIn, List.pairwise_filterMap]
  refine (Entry.walk_in_order (ignores s) hDistinct []).imp_of_mem ?_
  intro f g hf hg hBefore r hr t ht
  have hSight := ((Entry.mem_walk_iff s.ignores_downward).mp hf).1
  have hOther := ((Entry.mem_walk_iff s.ignores_downward).mp hg).1
  rw [path_eq_of_ofFound? hSight hr, path_eq_of_ofFound? hOther ht]
  exact hBefore.resolve_left (sight_ne_folder hr)

theorem paths_run_in_order (wording : String → String) (s : CheckSettings) (root : String)
    (hDistinct : (Entry.folder children).DistinctNames) :
    ((run wording s root (.ok (.folder children))).map Report.path).Pairwise Precedes := by
  have hAll := all_in_order wording s root hDistinct
  exact List.pairwise_map.mpr (hAll.sublist (run_prefix_all wording s root _).sublist)

theorem run_reports_each_chosen_file_once (wording : String → String) (hFast : s.failFast = false)
    (root : String) (hDistinct : (Entry.folder children).DistinctNames) :
    let reports := run wording s root (.ok (.folder children))
    (reports.map Report.path).Nodup ∧
      (∀ path, path ∈ reports.map Report.path ↔
        (∃ content, (Entry.folder children).HasFile path content) ∧ s.Chooses path ∨
          (∃ fault, (Entry.folder children).HasClosedFolder path fault) ∧ s.Reaches path) ∧
      ((∀ path fault, ¬ (Entry.folder children).HasClosedFolder path fault) →
        ∀ path, path ∈ reports.map Report.path ↔
          (∃ content, (Entry.folder children).HasFile path content) ∧ s.Chooses path) ∧
      (∀ r ∈ reports, ∀ content, (Entry.folder children).HasFile r.path content →
        r = ⟨r.path, countEntities wording content⟩ ∧ r.Describes wording content) ∧
      reports = ((Entry.walk Entry.nowhere [] (.folder children)).filter
        (Entry.kept (ignores s) [])).filterMap (ofFound? wording s root) := by
  intro reports
  have hAll : reports = all wording s root (.ok (.folder children)) :=
    run_eq_all wording root _ hFast
  have hPaths (path : List String) : path ∈ reports.map Report.path ↔
      (∃ content, (Entry.folder children).HasFile path content) ∧ s.Chooses path ∨
        (∃ fault, (Entry.folder children).HasClosedFolder path fault) ∧ s.Reaches path := by
    rw [hAll, List.mem_map]
    constructor
    · rintro ⟨r, hr, rfl⟩
      rcases mem_all_folder_iff.mp hr with ⟨content, hFile, hChosen, -⟩ | ⟨fault, hClosed, hReaches, -⟩
      · exact .inl ⟨⟨content, hFile⟩, hChosen⟩
      · exact .inr ⟨⟨fault, hClosed⟩, hReaches⟩
    · rintro (⟨⟨content, hFile⟩, hChosen⟩ | ⟨⟨fault, hClosed⟩, hReaches⟩)
      · exact ⟨⟨path, countEntities wording content⟩,
          mem_all_folder_iff.mpr (.inl ⟨content, hFile, hChosen, rfl⟩), rfl⟩
      · exact ⟨⟨path, .error (.walk (path.foldl joined root) fault)⟩,
          mem_all_folder_iff.mpr (.inr ⟨fault, hClosed, hReaches, rfl⟩), rfl⟩
  refine ⟨(paths_run_in_order wording s root hDistinct).imp Precedes.ne, hPaths, ?_, ?_, ?_⟩
  · intro hListed path
    rw [hPaths]
    refine or_iff_left ?_
    rintro ⟨⟨fault, hClosed⟩, -⟩
    exact hListed path fault hClosed
  · intro r hr content hFile
    rw [hAll] at hr
    have hOutcome : r.outcome = countEntities wording content := by
      rcases mem_all_folder_iff.mp hr with ⟨found, hFound, -, hOutcome⟩ | ⟨fault, hClosed, -⟩
      · rw [hOutcome, hFound.unique hFile hDistinct]
      · exact absurd hClosed (hFile.not_hasClosedFolder hDistinct)
    exact ⟨congrArg (Report.mk r.path) hOutcome, describes_of_countEntities hOutcome⟩
  · rw [hAll, all, foundIn, Entry.walk_eq_filter s.ignores_downward]

/-- A file in an ignored folder has no report, whatever its extension, and neither has an ignored folder
that cannot be listed; their neighbours have one. -/
theorem run_reports_neighbour_of_ignored_folder :
    let document : Entry := .file "[]".toUTF8
    let children := [("skip", Entry.folder [("b.json", document), ("shut", .closedFolder .denied)]),
      ("a.JSON", document), ("shut", .closedFolder .denied)]
    let s : CheckSettings := { ignorePaths := ["skip/"] }
    let paths := (run id s "root" (.ok (.folder children))).map Report.path
    s.failFast = false ∧ (Entry.folder children).DistinctNames ∧ paths.Nodup ∧
      ["a.JSON"] ∈ paths ∧ ["shut"] ∈ paths ∧ ["skip", "b.json"] ∉ paths ∧
      ["skip", "shut"] ∉ paths := by
  intro document children s paths
  have hDistinct : (Entry.folder children).DistinctNames := by
    have hPair : ∀ child ∈ [("b.json", document), ("shut", .closedFolder .denied)],
        child.2.DistinctNames :=
      List.forall_mem_cons.mpr ⟨.file, List.forall_mem_singleton.mpr .closedFolder⟩
    refine .folder (by decide) (List.forall_mem_cons.mpr ⟨.folder (by decide) hPair, ?_⟩)
    exact List.forall_mem_cons.mpr ⟨.file, List.forall_mem_singleton.mpr .closedFolder⟩
  obtain ⟨hNodup, hPaths, -⟩ :=
    run_reports_each_chosen_file_once id (s := s) rfl "root" hDistinct
  have hIgnored (path : List String) (h : (Path.ofText "skip/").parts <+: path.map .name) :
      path ∉ paths := by
    intro hMem
    rcases (hPaths path).mp hMem with ⟨-, hChosen⟩ | ⟨-, hReaches⟩
    · exact hChosen.notIgnored "skip/" List.mem_cons_self h
    · exact hReaches "skip/" List.mem_cons_self h
  refine ⟨rfl, hDistinct, hNodup, ?_, ?_, hIgnored _ (by decide), hIgnored _ (by decide)⟩
  · refine (hPaths _).mpr (.inl ⟨⟨.ok "[]".toUTF8, ?_⟩, CheckSettings.chooses_iff.mpr (by decide)⟩)
    exact .inside (List.mem_cons_of_mem _ List.mem_cons_self) .file
  · refine (hPaths _).mpr (.inr ⟨⟨.denied, ?_⟩, CheckSettings.reaches_iff.mpr (by decide)⟩)
    exact .inside (List.mem_cons_of_mem _ (List.mem_cons_of_mem _ List.mem_cons_self)) .fault

/-! ## Other orders of listing -/

/-- Trees that show the same have the same reports in the same order. -/
theorem all_eq_of_shows_iff (wording : String → String) (s : CheckSettings) (root : String)
    (hDistinct : (Entry.folder children).DistinctNames)
    (hOthers : (Entry.folder others).DistinctNames)
    (hSame : ∀ path sight, (Entry.folder children).Shows path sight ↔
      (Entry.folder others).Shows path sight) :
    all wording s root (.ok (.folder children)) = all wording s root (.ok (.folder others)) := by
  have : Std.Irrefl fun r t : Report => Precedes r.path t.path := ⟨fun r => Precedes.irrefl r.path⟩
  have : Std.Antisymm fun r t : Report => Precedes r.path t.path :=
    ⟨fun _ _ h hBack => absurd hBack h.asymm⟩
  apply List.Pairwise.eq_of_mem_iff (all_in_order wording s root hDistinct)
    (all_in_order wording s root hOthers)
  intro r
  simp only [mem_all_iff, Entry.HasFile, Entry.HasClosedFolder, hSame]

theorem run_reports_in_order_of_places (wording : String → String) (s : CheckSettings)
    (root : String) (hDistinct : (Entry.folder children).DistinctNames) :
    let reports := run wording s root (.ok (.folder children))
    (reports.map Report.path).Pairwise Precedes ∧ (reports.map Report.path).Nodup ∧
      ∀ others, (Entry.folder children).Relisted (.folder others) →
        run wording s root (.ok (.folder others)) = reports := by
  have hOrder := paths_run_in_order wording s root hDistinct
  refine ⟨hOrder, hOrder.imp Precedes.ne, ?_⟩
  intro others hRelisted
  have hAll := all_eq_of_shows_iff wording s root (hRelisted.distinctNames hDistinct) hDistinct
    fun _ _ => hRelisted.shows_iff.symm
  cases hFast : s.failFast with
  | false => rw [run_eq_all wording root _ hFast, run_eq_all wording root _ hFast, hAll]
  | true =>
    rw [run_eq_throughFailure wording root _ hFast, run_eq_throughFailure wording root _ hFast,
      hAll]

/-- A folder comes before a file whose name goes on behind that of the folder, although the text of
the path of the file comes first. -/
theorem run_reports_folder_before_longer_name :
    let document : Entry := .file "[]".toUTF8
    let children := [("a.json", document), ("a", .folder [("b.json", document)])]
    let reports := run id {} "root" (.ok (.folder children))
    (Entry.folder children).DistinctNames ∧
      reports.map Report.path = [["a", "b.json"], ["a.json"]] ∧ "a.json" < "a/b.json" ∧
      (reports.map Report.path).Pairwise Precedes ∧
      run id {} "root" (.ok (.folder children.reverse)) = reports := by
  intro document children reports
  have hDistinct : (Entry.folder children).DistinctNames := by
    refine .folder (by decide) (List.forall_mem_cons.mpr ⟨.file, List.forall_mem_singleton.mpr ?_⟩)
    exact .folder (by decide) (List.forall_mem_singleton.mpr .file)
  have hPaths : reports.map Report.path = [["a", "b.json"], ["a.json"]] := by decide +kernel
  obtain ⟨hOrder, -, hListing⟩ := run_reports_in_order_of_places id {} "root" hDistinct
  exact ⟨hDistinct, hPaths, by decide, hOrder, hListing _ (.here (List.reverse_perm _).symm)⟩

end Folder

end Report

end AssetShell

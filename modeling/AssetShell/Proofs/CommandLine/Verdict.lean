import AssetShell.CommandLine.Run
import AssetShell.Proofs.Files.Reports
import AssetShell.Proofs.Settings.Source
import Mathlib.Data.Set.Card

/-!
# Verdicts on a tree of files

A check of files exits with zero exactly if there are files that it looks at, it accepts all of them,
and it can list every folder to which it comes. Stopping at the first failure leaves out reports, but
never the first failed one, so it does not change the verdict.
-/

namespace AssetShell

/-- The file can be read and is a document whose entities obey all rules. -/
def Accepted (content : Except FileFault ByteArray) : Prop :=
  ∃ bytes text entities, content = .ok bytes ∧ String.fromUTF8? bytes = some text ∧
    Document.read text = .ok entities

/-- The files that a check looks at: a root that is a file itself, whatever is ignored, and the chosen
files below a root. -/
inductive Qualifies (s : CheckSettings) (root : String) (e : Entry) :
    List String → Except FileFault ByteArray → Prop
  | alone {content : Except FileFault ByteArray} (hFile : e.HasFile [] content)
    (hWanted : s.WantsExtension (Report.rootPlace root)) :
    Qualifies s root e (Report.rootPlace root) content
  | below {name : String} {names : List String} {content : Except FileFault ByteArray}
    (hFile : e.HasFile (name :: names) content) (hChosen : s.Chooses (name :: names)) :
    Qualifies s root e (name :: names) content

/-- The folders to which a check comes and whose entries cannot be listed. -/
inductive Unlisted (s : CheckSettings) (root : String) (e : Entry) :
    List String → FileFault → Prop
  | alone {fault : FileFault} (hClosed : e.HasClosedFolder [] fault) :
    Unlisted s root e (Report.rootPlace root) fault
  | below {name : String} {names : List String} {fault : FileFault}
    (hClosed : e.HasClosedFolder (name :: names) fault) (hReaches : s.Reaches (name :: names)) :
    Unlisted s root e (name :: names) fault

variable {s : CheckSettings} {root : String} {e : Entry}

theorem Qualifies.not_unlisted {path : List String} {content : Except FileFault ByteArray}
    {fault : FileFault} (h : Qualifies s root e path content) (hDistinct : e.DistinctNames) :
    ¬ Unlisted s root e path fault := by
  intro hUnlisted
  generalize hPlace : path = place at hUnlisted
  cases h with
  | alone hFile _ =>
    cases hUnlisted with
    | alone hClosed => exact hFile.not_hasClosedFolder hDistinct hClosed
    | below hClosed _ =>
      -- A file holds no entries.
      cases hFile <;> cases hClosed
  | below hFile _ =>
    cases hUnlisted with
    | alone hClosed =>
      cases hClosed
      cases hFile
    | below hClosed _ =>
      rw [hPlace] at hFile
      exact hFile.not_hasClosedFolder hDistinct hClosed

namespace Report

variable {wording : String → String} {r : Report} {path : List String}
  {content : Except FileFault ByteArray} {fault : FileFault}

theorem failed_iff_of_outcome (h : r.outcome = countEntities wording content) :
    r.failed = false ↔ Accepted content := by
  have hDescribes := describes_of_countEntities h
  rw [failed, Option.isSome_eq_false_iff, Option.isNone_iff_eq_none]
  constructor
  · intro hNone
    cases content with
    | error fault =>
      obtain ⟨-, _, hFault, -⟩ := hDescribes.unreadable fault rfl
      rw [hNone] at hFault
      cases hFault
    | ok bytes =>
      cases hText : String.fromUTF8? bytes with
      | none =>
        obtain ⟨-, _, hFault, -⟩ := hDescribes.notText bytes rfl hText
        rw [hNone] at hFault
        cases hFault
      | some text =>
        cases hRead : Document.read text with
        | error fault =>
          obtain ⟨-, _, hFault, -⟩ := hDescribes.refused bytes text fault rfl hText hRead
          rw [hNone] at hFault
          cases hFault
        | ok entities => exact ⟨bytes, text, entities, rfl, hText, hRead⟩
  · rintro ⟨bytes, text, entities, hBytes, hText, hRead⟩
    exact (hDescribes.accepted bytes text entities hBytes hText hRead).2

/-! ## Reports on a root -/

/-- Every report is on a file that the check looks at or on a folder that it cannot list. -/
theorem qualifies_or_unlisted (h : r ∈ all wording s root (.ok e)) :
    (∃ content, Qualifies s root e r.path content ∧ r.outcome = countEntities wording content) ∨
      (∃ fault, Unlisted s root e r.path fault) ∧ r.failed = true := by
  obtain ⟨names, hPlace, hReached, ⟨content, hFile, hWanted, hOutcome⟩ | ⟨fault, hClosed, hOutcome⟩⟩ :=
    mem_all_iff.mp h
  · refine .inl ⟨content, ?_, hOutcome⟩
    rw [hPlace] at hWanted ⊢
    cases names with
    | nil => exact .alone hFile hWanted
    | cons name names => exact .below hFile ⟨hWanted, hReached.resolve_left (List.cons_ne_nil _ _)⟩
  · refine .inr ⟨⟨fault, ?_⟩, ?_⟩
    · rw [hPlace]
      cases names with
      | nil => exact .alone hClosed
      | cons name names => exact .below hClosed (hReached.resolve_left (List.cons_ne_nil _ _))
    · rw [failed, fault?, hOutcome]
      rfl

theorem mem_all_of_qualifies (wording : String → String) (h : Qualifies s root e path content) :
    ⟨path, countEntities wording content⟩ ∈ all wording s root (.ok e) := by
  apply mem_all_iff.mpr
  cases h with
  | alone hFile hWanted => exact ⟨[], rfl, .inl rfl, .inl ⟨content, hFile, hWanted, rfl⟩⟩
  | below hFile hChosen =>
    exact ⟨_, rfl, .inr hChosen.notIgnored, .inl ⟨content, hFile, hChosen.wanted, rfl⟩⟩

theorem exists_mem_all_of_unlisted (wording : String → String) (h : Unlisted s root e path fault) :
    ∃ r ∈ all wording s root (.ok e), r.path = path ∧ r.failed = true := by
  cases h with
  | alone hClosed =>
    refine ⟨⟨rootPlace root, .error (.walk root fault)⟩, ?_, rfl, rfl⟩
    exact mem_all_iff.mpr ⟨[], rfl, .inl rfl, .inr ⟨fault, hClosed, rfl⟩⟩
  | @below name names _ hClosed hReaches =>
    refine ⟨⟨name :: names, .error (.walk ((name :: names).foldl joined root) fault)⟩, ?_, rfl, rfl⟩
    exact mem_all_iff.mpr ⟨name :: names, rfl, .inr hReaches, .inr ⟨fault, hClosed, rfl⟩⟩

theorem all_passed_iff (wording : String → String) (s : CheckSettings) (root : String) (e : Entry) :
    (∀ r ∈ all wording s root (.ok e), r.failed = false) ↔
      (∀ path content, Qualifies s root e path content → Accepted content) ∧
        ∀ path fault, ¬ Unlisted s root e path fault := by
  constructor
  · intro h
    constructor
    · intro path content hQualifies
      exact (failed_iff_of_outcome rfl).mp (h _ (mem_all_of_qualifies wording hQualifies))
    · intro path fault hUnlisted
      obtain ⟨r, hr, -, hFailed⟩ := exists_mem_all_of_unlisted wording hUnlisted
      rw [h r hr] at hFailed
      cases hFailed
  · rintro ⟨hAccepted, hListed⟩ r hr
    rcases qualifies_or_unlisted hr with ⟨content, hQualifies, hOutcome⟩ | ⟨⟨fault, hUnlisted⟩, -⟩
    · exact (failed_iff_of_outcome hOutcome).mpr (hAccepted r.path content hQualifies)
    · exact absurd hUnlisted (hListed r.path fault)

theorem all_ne_nil_of_qualifies (wording : String → String) (h : Qualifies s root e path content) :
    all wording s root (.ok e) ≠ [] :=
  List.ne_nil_of_mem (mem_all_of_qualifies wording h)

/-- A check that reports something and no failure has looked at some file. -/
theorem exists_qualifies_of_passed (hSome : all wording s root (.ok e) ≠ [])
    (hPassed : ∀ r ∈ all wording s root (.ok e), r.failed = false) :
    ∃ path content, Qualifies s root e path content := by
  obtain ⟨r, hr⟩ := List.exists_mem_of_ne_nil _ hSome
  rcases qualifies_or_unlisted hr with ⟨content, hQualifies, -⟩ | ⟨-, hFailed⟩
  · exact ⟨r.path, content, hQualifies⟩
  · rw [hPassed r hr] at hFailed
    cases hFailed

/-! ## Counts -/

/-- The places of files that a check looks at, with contents of some kind. -/
def places (s : CheckSettings) (root : String) (e : Entry)
    (P : Except FileFault ByteArray → Prop) : Set (List String) :=
  {path | ∃ content, Qualifies s root e path content ∧ P content}

/-- The places of folders that a check cannot list. -/
def unlistedPlaces (s : CheckSettings) (root : String) (e : Entry) : Set (List String) :=
  {path | ∃ fault, Unlisted s root e path fault}

theorem ncard_paths {rs : List Report} (h : (rs.map Report.path).Nodup) (q : Report → Bool) :
    {path | ∃ r ∈ rs, q r = true ∧ r.path = path}.ncard = rs.countP q := by
  have hNodup : ((rs.filter q).map Report.path).Nodup :=
    h.sublist (List.filter_sublist.map Report.path)
  have hPaths : {path | ∃ r ∈ rs, q r = true ∧ r.path = path} =
      {path | path ∈ (rs.filter q).map Report.path} := by
    ext path
    simp only [Set.mem_ofPred_eq, List.mem_map, List.mem_filter, and_assoc]
  rw [hPaths, List.countP_eq_length_filter, ← List.length_map (f := Report.path),
    ← List.toFinset_card_of_nodup hNodup, ← Set.ncard_coe_finset]
  simp

theorem paths_singleton_nodup (wording : String → String) (s : CheckSettings) (root : String)
    (f : Found) : (([f].filterMap (ofFound? wording s root)).map Report.path).Nodup := by
  rw [List.filterMap_cons, List.filterMap_nil]
  split
  · exact List.nodup_nil
  · exact List.nodup_singleton _

theorem paths_all_nodup (wording : String → String) (s : CheckSettings) (root : String)
    (h : e.DistinctNames) : ((all wording s root (.ok e)).map Report.path).Nodup := by
  cases e with
  | file content => exact paths_singleton_nodup wording s root ⟨[], .file (.ok content)⟩
  | closedFile fault => exact paths_singleton_nodup wording s root ⟨[], .file (.error fault)⟩
  | closedFolder fault => exact paths_singleton_nodup wording s root ⟨[], .fault fault⟩
  | folder children =>
    exact List.pairwise_map.mpr ((all_in_order wording s root h).imp Precedes.ne)

/-- What holds of the reports on some files and of every failed report is counted by places. -/
theorem countP_all (wording : String → String) (s : CheckSettings) (root : String)
    (h : e.DistinctNames) {P : Except FileFault ByteArray → Prop} {q : Report → Bool}
    (hFile : ∀ r content, r.outcome = countEntities wording content → (q r = true ↔ P content))
    (hFailed : ∀ r, r.failed = true → q r = true) :
    (all wording s root (.ok e)).countP q =
      (places s root e P).ncard + (unlistedPlaces s root e).ncard := by
  have hUnion : {path | ∃ r ∈ all wording s root (.ok e), q r = true ∧ r.path = path} =
      places s root e P ∪ unlistedPlaces s root e := by
    ext path
    constructor
    · rintro ⟨r, hr, hq, rfl⟩
      rcases qualifies_or_unlisted hr with ⟨content, hQualifies, hOutcome⟩ | ⟨hUnlisted, -⟩
      · exact .inl ⟨content, hQualifies, (hFile r content hOutcome).mp hq⟩
      · exact .inr hUnlisted
    · rintro (⟨content, hQualifies, hContent⟩ | ⟨fault, hUnlisted⟩)
      · exact ⟨_, mem_all_of_qualifies wording hQualifies, (hFile _ content rfl).mpr hContent, rfl⟩
      · obtain ⟨r, hr, hPath, hRefused⟩ := exists_mem_all_of_unlisted wording hUnlisted
        exact ⟨r, hr, hFailed r hRefused, hPath⟩
  have hDisjoint : Disjoint (places s root e P) (unlistedPlaces s root e) := by
    apply Set.disjoint_left.mpr
    rintro path ⟨content, hQualifies, -⟩ ⟨fault, hUnlisted⟩
    exact hQualifies.not_unlisted h hUnlisted
  have hFinite : (places s root e P ∪ unlistedPlaces s root e).Finite := by
    rw [← hUnion]
    refine ((all wording s root (.ok e)).map Report.path).finite_toSet.subset ?_
    rintro path ⟨r, hr, -, hPath⟩
    exact List.mem_map.mpr ⟨r, hr, hPath⟩
  rw [← ncard_paths (paths_all_nodup wording s root h) q, hUnion]
  exact Set.ncard_union_eq hDisjoint (hFinite.subset Set.subset_union_left)
    (hFinite.subset Set.subset_union_right)

theorem length_all (wording : String → String) (s : CheckSettings) (root : String)
    (h : e.DistinctNames) :
    (all wording s root (.ok e)).length =
      (places s root e fun _ => True).ncard + (unlistedPlaces s root e).ncard := by
  rw [← countP_all wording s root h (q := fun _ => true) (by simp) (by simp), List.countP_true]

theorem countP_failed_all (wording : String → String) (s : CheckSettings) (root : String)
    (h : e.DistinctNames) :
    (all wording s root (.ok e)).countP failed =
      (places s root e fun content => ¬ Accepted content).ncard
        + (unlistedPlaces s root e).ncard := by
  refine countP_all wording s root h (fun r content hOutcome => ?_) fun r hFailed => hFailed
  rw [← failed_iff_of_outcome hOutcome, Bool.not_eq_false]

end Report

namespace Run

variable {reports : List Report}

theorem countP_failed_pos_iff :
    0 < reports.countP Report.failed ↔ ¬ ∀ r ∈ reports, r.failed = false := by
  rw [List.countP_pos_iff]
  simp

theorem verdict_of_passed (hSome : reports ≠ []) (h : ∀ r ∈ reports, r.failed = false) :
    verdict reports = (0, "✅ All " ++ toString reports.length ++ " document(s) valid") := by
  have hNone : ¬ 0 < reports.countP Report.failed := fun hPos => countP_failed_pos_iff.mp hPos h
  rw [verdict, if_neg (by simpa using hSome)]
  exact if_neg hNone

theorem verdict_of_failed (h : ¬ ∀ r ∈ reports, r.failed = false) :
    verdict reports = (1, "❌ " ++ toString (reports.countP Report.failed) ++ " of "
      ++ toString reports.length ++ " document(s) failed") := by
  have hSome : ¬ reports.isEmpty = true := by
    intro hEmpty
    rw [List.isEmpty_iff.mp hEmpty] at h
    exact h (List.forall_mem_nil _)
  rw [verdict, if_neg hSome]
  exact if_pos (countP_failed_pos_iff.mpr h)

theorem verdict_eq_zero_iff :
    (verdict reports).1 = 0 ↔ reports ≠ [] ∧ ∀ r ∈ reports, r.failed = false := by
  constructor
  · intro h
    constructor
    · rintro rfl
      cases h
    · by_contra hFailed
      rw [verdict_of_failed hFailed] at h
      cases h
  · rintro ⟨hSome, hPassed⟩
    rw [verdict_of_passed hSome hPassed]

theorem verdict_le_one (reports : List Report) : (verdict reports).1 ≤ 1 := by
  rw [verdict]
  split
  · exact Nat.le_refl 1
  · split
    · exact Nat.le_refl 1
    · exact Nat.zero_le 1

theorem verdict_throughFailure :
    (verdict (Report.throughFailure reports)).1 = (verdict reports).1 := by
  by_cases h : ∀ r ∈ reports, r.failed = false
  · rw [Report.throughFailure_eq_self h]
  · rw [verdict_of_failed h, verdict_of_failed (mt Report.forall_throughFailure_iff.mp h)]

/-! ## Runs -/

section Checked

variable (wording : String → String) (s : CheckSettings) (stops : Bool) (root : String)

/-- What a check without a report file prints and its exit code. -/
def checked (e : Except FileFault Entry) : Output :=
  let reports := Report.run wording { s with failFast := stops } root e
  checkedOutput (listing root reports) reports

theorem exitCode_checked (e : Except FileFault Entry) :
    (checked wording s stops root e).exitCode = (verdict (Report.all wording s root e)).1 := by
  have hRun : (checked wording s stops root e).exitCode =
      (verdict (Report.run wording { s with failFast := stops } root e)).1 := rfl
  rw [hRun]
  cases stops with
  | false => rw [Report.run_going_on]
  | true => rw [Report.run_stopping, Report.run_going_on, verdict_throughFailure]

theorem exitCode_checked_error (fault : FileFault) :
    (checked wording s stops root (.error fault)).exitCode = 1 :=
  exitCode_checked wording s stops root (.error fault)

theorem exitCode_checked_eq_zero_iff (e : Entry) :
    (checked wording s stops root (.ok e)).exitCode = 0 ↔
      (∃ path content, Qualifies s root e path content) ∧
        (∀ path content, Qualifies s root e path content → Accepted content) ∧
        ∀ path fault, ¬ Unlisted s root e path fault := by
  rw [exitCode_checked, verdict_eq_zero_iff, ← Report.all_passed_iff wording]
  constructor
  · rintro ⟨hSome, hPassed⟩
    exact ⟨Report.exists_qualifies_of_passed hSome hPassed, hPassed⟩
  · rintro ⟨⟨path, content, hQualifies⟩, hPassed⟩
    exact ⟨Report.all_ne_nil_of_qualifies wording hQualifies, hPassed⟩

/-- In what words the JSON library refuses a text does not matter for the exit code, nor does it whether
the check stops. -/
theorem exitCode_checked_congr (other : String → String) (stops' : Bool)
    (e : Except FileFault Entry) :
    (checked wording s stops root e).exitCode = (checked other s stops' root e).exitCode := by
  cases e with
  | error fault => rw [exitCode_checked_error, exitCode_checked_error]
  | ok e =>
    have hZero := (exitCode_checked_eq_zero_iff wording s stops root e).trans
      (exitCode_checked_eq_zero_iff other s stops' root e).symm
    have hLe := verdict_le_one (Report.all wording s root (.ok e))
    have hOther := verdict_le_one (Report.all other s root (.ok e))
    rw [exitCode_checked, exitCode_checked] at hZero ⊢
    omega

theorem checked_accepted_line {e : Entry} (h : e.DistinctNames)
    (hZero : (checked wording s stops root (.ok e)).exitCode = 0) :
    ∃ before, (checked wording s stops root (.ok e)).out = before ++ "\n" ++ ("✅ All "
      ++ toString (Report.places s root e fun _ => True).ncard ++ " document(s) valid") ++ "\n" := by
  have hListed := ((exitCode_checked_eq_zero_iff wording s stops root e).mp hZero).2.2
  rw [exitCode_checked, verdict_eq_zero_iff] at hZero
  obtain ⟨hSome, hPassed⟩ := hZero
  have hNone : Report.unlistedPlaces s root e = ∅ :=
    Set.eq_empty_of_forall_notMem fun path ⟨fault, hUnlisted⟩ => hListed path fault hUnlisted
  have hRun : Report.run wording { s with failFast := stops } root (.ok e) =
      Report.all wording s root (.ok e) := by
    cases stops with
    | false => exact Report.run_going_on wording s root _
    | true =>
      rw [Report.run_stopping, Report.run_going_on, Report.throughFailure_eq_self hPassed]
  have hLength := Report.length_all wording s root h
  rw [hNone, Set.ncard_empty, Nat.add_zero] at hLength
  refine ⟨listing root (Report.all wording s root (.ok e)), ?_⟩
  rw [checked, hRun, ← hLength]
  simp only [checkedOutput, verdict_of_passed hSome hPassed]

theorem checked_rejected_line {e : Entry} (h : e.DistinctNames)
    (hRejected : (∃ path content, Qualifies s root e path content ∧ ¬ Accepted content) ∨
      ∃ path fault, Unlisted s root e path fault) :
    ∃ before, (checked wording s false root (.ok e)).out = before ++ "\n" ++ ("❌ "
      ++ toString ((Report.places s root e fun content => ¬ Accepted content).ncard
        + (Report.unlistedPlaces s root e).ncard) ++ " of "
      ++ toString ((Report.places s root e fun _ => True).ncard
        + (Report.unlistedPlaces s root e).ncard) ++ " document(s) failed") ++ "\n" := by
  have hFailed : ¬ ∀ r ∈ Report.all wording s root (.ok e), r.failed = false := by
    intro hPassed
    obtain ⟨hAccepted, hListed⟩ := (Report.all_passed_iff wording s root e).mp hPassed
    rcases hRejected with ⟨path, content, hQualifies, hContent⟩ | ⟨path, fault, hUnlisted⟩
    · exact hContent (hAccepted path content hQualifies)
    · exact hListed path fault hUnlisted
  refine ⟨listing root (Report.all wording s root (.ok e)), ?_⟩
  rw [checked, Report.run_going_on, ← Report.length_all wording s root h,
    ← Report.countP_failed_all wording s root h]
  simp only [checkedOutput, verdict_of_failed hFailed]

end Checked

variable {s : Settings} {around : Surroundings} {args : List String} {root : String}
  {named : Option String} {failFast : Bool}

theorem ofArguments_check
    (hArgs : Invocation.ofArguments? args = some ⟨named, .checkFiles root none failFast⟩)
    (hLoad : Settings.load? around named = some s) :
    ofArguments around args =
      .finished (checked around.wording s.checks (s.checks.failFast || failFast) root
        (around.entry root)) := by
  rw [ofArguments, hArgs]
  simp only [Invocation.run, hLoad]
  rfl

/-- A check without a report file exits with zero exactly if it looks at some file, accepts all of them
and can list every folder to which it comes. It counts the files it looks at and those it rejects, the
folders it cannot list among both, and stopping at a failure does not change its exit code. -/
theorem check_files_verdict
    (hArgs : Invocation.ofArguments? args = some ⟨named, .checkFiles root none failFast⟩)
    (hLoad : Settings.load? around named = some s) :
    ∃ output, ofArguments around args = .finished output ∧
      (∀ fault, around.entry root = .error fault → output.exitCode ≠ 0) ∧
      (∀ e, around.entry root = .ok e →
        (output.exitCode = 0 ↔
          (∃ path content, Qualifies s.checks root e path content) ∧
            (∀ path content, Qualifies s.checks root e path content → Accepted content) ∧
            ∀ path fault, ¬ Unlisted s.checks root e path fault) ∧
        (e.DistinctNames →
          let found := (Report.places s.checks root e fun _ => True).ncard
          let rejected := (Report.places s.checks root e fun content => ¬ Accepted content).ncard
          let unlisted := (Report.unlistedPlaces s.checks root e).ncard
          (output.exitCode = 0 → ∃ before, output.out =
            before ++ "\n" ++ ("✅ All " ++ toString found ++ " document(s) valid") ++ "\n") ∧
          (s.checks.failFast = false → failFast = false →
            ((∃ path content, Qualifies s.checks root e path content ∧ ¬ Accepted content) ∨
              ∃ path fault, Unlisted s.checks root e path fault) →
            ∃ before, output.out = before ++ "\n" ++ ("❌ " ++ toString (rejected + unlisted) ++ " of "
              ++ toString (found + unlisted) ++ " document(s) failed") ++ "\n"))) ∧
      ∀ around' args' named' s' failFast',
        Invocation.ofArguments? args' = some ⟨named', .checkFiles root none failFast'⟩ →
        Settings.load? around' named' = some s' → around'.entry root = around.entry root →
        s'.checks.extensions = s.checks.extensions →
        s'.checks.ignorePaths = s.checks.ignorePaths →
        ∃ output', ofArguments around' args' = .finished output' ∧
          output'.exitCode = output.exitCode := by
  refine ⟨_, ofArguments_check hArgs hLoad, ?_, ?_, ?_⟩
  · intro fault hRoot
    rw [hRoot, exitCode_checked_error]
    exact Nat.one_ne_zero
  · intro e hRoot
    rw [hRoot]
    refine ⟨exitCode_checked_eq_zero_iff _ _ _ root e, fun hDistinct => ⟨?_, ?_⟩⟩
    · exact checked_accepted_line _ _ _ root hDistinct
    · intro hSettings hFlag hRejected
      rw [hSettings, hFlag]
      exact checked_rejected_line _ _ root hDistinct hRejected
  · intro around' args' named' s' failFast' hArgs' hLoad' hRoot hExtensions hIgnored
    refine ⟨_, ofArguments_check hArgs' hLoad', ?_⟩
    rw [hRoot, exitCode_checked_congr _ _ _ root around.wording (s.checks.failFast || failFast),
      exitCode_checked, exitCode_checked,
      Report.all_congr around.wording root (around.entry root) hExtensions hIgnored]

/-- One empty document below a folder is accepted. -/
theorem check_files_verdict_of_empty_document :
    let tree : Entry := .folder [("a.json", .file "[]".toUTF8)]
    let around : Surroundings :=
      ⟨fun path => if path = "root" then .ok tree else .error .notFound, none, [], id⟩
    ∃ output, ofArguments around ["check", "root", "--fail-fast"] = .finished output ∧
      output.exitCode = 0 := by
  intro tree around
  have hArgs : Invocation.ofArguments? ["check", "root", "--fail-fast"] =
      some ⟨none, .checkFiles "root" none true⟩ := by decide
  have hLoad : Settings.load? around none = some {} := by
    refine Settings.load?_of_nothing (fun name _ place _ content hFile => ?_) rfl rfl
    simp only [around, tree] at hFile
    split at hFile
    · cases hFile
    · cases hFile
  have hShown {path : List String} {sight : Sight} (h : tree.Shows path sight)
      (hSight : sight ≠ .folder) : path = ["a.json"] ∧ sight = .file (.ok "[]".toUTF8) := by
    rcases Entry.shows_folder_iff.mp h with ⟨-, hFolder⟩ | ⟨child, hChild, rest, rfl, hInner⟩
    · exact absurd hFolder hSight
    · cases List.mem_singleton.mp hChild
      cases hInner
      exact ⟨rfl, rfl⟩
  obtain ⟨output, hOutput, -, hVerdict, -⟩ := check_files_verdict hArgs hLoad
  refine ⟨output, hOutput, (hVerdict tree rfl).1.mpr ⟨⟨["a.json"], .ok "[]".toUTF8, ?_⟩, ?_, ?_⟩⟩
  · exact .below (.inside List.mem_cons_self .file) (CheckSettings.chooses_iff.mpr (by decide))
  · intro path content hQualifies
    have hRead : Document.read "[]" = .ok [] := by cbv
    have hContent : content = .ok "[]".toUTF8 := by
      cases hQualifies with
      | alone hFile _ => exact Sight.file.inj (hShown hFile Sight.noConfusion).2
      | below hFile _ => exact Sight.file.inj (hShown hFile Sight.noConfusion).2
    exact ⟨_, "[]", [], hContent, dif_pos "[]".isValidUTF8, hRead⟩
  · intro path fault hUnlisted
    cases hUnlisted with
    | alone hClosed => cases (hShown hClosed Sight.noConfusion).2
    | below hClosed _ => cases (hShown hClosed Sight.noConfusion).2

end Run

end AssetShell

import AssetShell.Report
import Mathlib.Data.List.Basic

/-!
# Stopping at the first failure

The loop of a check passes over what it meets, or puts one more report behind the earlier ones and stops
if that report failed and the settings say so. So a check that stops at a failure gives the reports of
one that goes on, up to the first failed report and with it. This is the shortest start of all reports
that ends in a failed one, and if no report failed it is all of them.
-/

namespace AssetShell

namespace Report

/-- The reports up to the first failed one. -/
def throughFailure : List Report → List Report
  | [] => []
  | r :: rs => if r.failed then [r] else r :: throughFailure rs

/-- The last of the reports failed. -/
def EndsInFailure (rs : List Report) : Prop := ∃ before r, rs = before ++ [r] ∧ r.failed = true

/-- Of the starts of `rs` that end in a failed report, `start` is the shortest one. -/
structure IsShortestFailing (rs start : List Report) : Prop where
  isStart : start <+: rs
  fails : EndsInFailure start
  shortest : ∀ other, other <+: rs → EndsInFailure other → start.length ≤ other.length

variable {rs : List Report}

theorem throughFailure_eq_self (h : ∀ r ∈ rs, r.failed = false) : throughFailure rs = rs := by
  induction rs with
  | nil => rfl
  | cons r rs ih =>
    obtain ⟨hHead, hRest⟩ := List.forall_mem_cons.mp h
    rw [throughFailure, hHead, ih hRest]
    rfl

theorem throughFailure_append {before : List Report} {r : Report}
    (hBefore : ∀ b ∈ before, b.failed = false) (hFailed : r.failed = true) (rest : List Report) :
    throughFailure (before ++ r :: rest) = before ++ [r] := by
  induction before with
  | nil => exact if_pos hFailed
  | cons b before ih =>
    obtain ⟨hHead, hRest⟩ := List.forall_mem_cons.mp hBefore
    rw [List.cons_append, throughFailure, hHead, ih hRest]
    rfl

/-- Either no report failed, or there is a first one that did. -/
theorem passed_or_first_failed (rs : List Report) :
    (∀ r ∈ rs, r.failed = false) ∨
      ∃ before r rest, rs = before ++ r :: rest ∧ (∀ b ∈ before, b.failed = false) ∧
        r.failed = true := by
  induction rs with
  | nil => exact .inl (List.forall_mem_nil _)
  | cons r rs ih =>
    cases hr : r.failed with
    | true => exact .inr ⟨[], r, rs, rfl, List.forall_mem_nil _, hr⟩
    | false =>
      rcases ih with hPassed | ⟨before, f, rest, rfl, hBefore, hFailed⟩
      · exact .inl (List.forall_mem_cons.mpr ⟨hr, hPassed⟩)
      · exact .inr ⟨r :: before, f, rest, rfl, List.forall_mem_cons.mpr ⟨hr, hBefore⟩, hFailed⟩

theorem throughFailure_isStart (rs : List Report) : throughFailure rs <+: rs := by
  rcases passed_or_first_failed rs with hPassed | ⟨before, r, rest, rfl, hBefore, hFailed⟩
  · exact ⟨[], by rw [throughFailure_eq_self hPassed, List.append_nil]⟩
  · rw [throughFailure_append hBefore hFailed]
    exact ⟨rest, List.append_assoc before [r] rest⟩

/-- The reports that are left out come behind a failed one. -/
theorem forall_throughFailure_iff :
    (∀ r ∈ throughFailure rs, r.failed = false) ↔ ∀ r ∈ rs, r.failed = false := by
  rcases passed_or_first_failed rs with hPassed | ⟨before, r, rest, rfl, hBefore, hFailed⟩
  · rw [throughFailure_eq_self hPassed]
  · rw [throughFailure_append hBefore hFailed]
    have hNot (behind : List Report) : ¬ ∀ b ∈ before ++ r :: behind, b.failed = false := by
      intro hPassed
      have hr := hPassed r (List.mem_append_right _ List.mem_cons_self)
      rw [hFailed] at hr
      cases hr
    exact iff_of_false (hNot []) (hNot rest)

/-- A start that ends in a failed report reaches the first one. -/
theorem length_le_of_endsInFailure {before rest other : List Report} {r : Report}
    (hBefore : ∀ b ∈ before, b.failed = false) (hStart : other <+: before ++ r :: rest)
    (hFails : EndsInFailure other) : (before ++ [r]).length ≤ other.length := by
  obtain ⟨front, f, rfl, hf⟩ := hFails
  rw [List.length_append, List.length_append, List.length_singleton, List.length_singleton]
  by_contra hShort
  have hLength : (front ++ [f]).length ≤ before.length := by
    rw [List.length_append, List.length_singleton]
    omega
  have hInside : front ++ [f] <+: before :=
    List.prefix_of_prefix_length_le hStart (List.prefix_append _ _) hLength
  have hMem : f ∈ before := hInside.subset (List.mem_append_right _ List.mem_cons_self)
  rw [hBefore f hMem] at hf
  cases hf

theorem throughFailure_isShortestFailing (h : ∃ r ∈ rs, r.failed = true) :
    IsShortestFailing rs (throughFailure rs) := by
  rcases passed_or_first_failed rs with hPassed | ⟨before, r, rest, rfl, hBefore, hFailed⟩
  · obtain ⟨r, hr, hFailed⟩ := h
    rw [hPassed r hr] at hFailed
    cases hFailed
  · refine ⟨throughFailure_isStart _, ?_, ?_⟩
    · rw [throughFailure_append hBefore hFailed]
      exact ⟨before, r, rfl, hFailed⟩
    · intro other hStart hFails
      rw [throughFailure_append hBefore hFailed]
      exact length_le_of_endsInFailure hBefore hStart hFails

/-- A failed report is the last one. -/
theorem passed_of_getElem?_throughFailure {i : Nat} {r : Report}
    (h : (throughFailure rs)[i]? = some r) (hNotLast : i + 1 ≠ (throughFailure rs).length) :
    r.failed = false := by
  rcases passed_or_first_failed rs with hPassed | ⟨before, f, rest, rfl, hBefore, hFailed⟩
  · rw [throughFailure_eq_self hPassed] at h
    exact hPassed r (List.mem_of_getElem? h)
  · rw [throughFailure_append hBefore hFailed] at h hNotLast
    have hi : i < before.length := by
      have hBound := (List.getElem?_eq_some_iff.mp h).1
      rw [List.length_append, List.length_singleton] at hBound hNotLast
      omega
    rw [List.getElem?_append_left hi] at h
    exact hBefore r (List.mem_of_getElem? h)

theorem countP_failed_throughFailure_le (rs : List Report) :
    (throughFailure rs).countP failed ≤ 1 := by
  rcases passed_or_first_failed rs with hPassed | ⟨before, r, rest, rfl, hBefore, hFailed⟩
  · rw [throughFailure_eq_self hPassed, List.countP_eq_zero.mpr]
    · exact Nat.zero_le 1
    · intro r hr
      rw [hPassed r hr]
      exact Bool.false_ne_true
  · rw [throughFailure_append hBefore hFailed, List.countP_append, List.countP_eq_zero.mpr]
    · rw [Nat.zero_add]
      exact List.countP_le_length
    · intro b hb
      rw [hBefore b hb]
      exact Bool.false_ne_true

/-! ## The loop -/

section Loop

variable {wording : String → String} {s : CheckSettings} {root : String} {reports : Array Report}
  {f : Found} {r : Report} {rest : List Found}

theorem loop_passes_over (h : ofFound? wording s root f = none) :
    loop wording s root reports (f :: rest) = loop wording s root reports rest := by
  rw [loop, turn, h]

theorem loop_goes_on (h : ofFound? wording s root f = some r)
    (hOn : (r.failed && s.failFast) = false) :
    loop wording s root reports (f :: rest) = loop wording s root (reports.push r) rest := by
  rw [loop, turn, h]
  simp only [hOn]

/-- The report on account of which a check stops is given too. -/
theorem loop_stops (h : ofFound? wording s root f = some r)
    (hStop : (r.failed && s.failFast) = true) :
    loop wording s root reports (f :: rest) = reports.push r := by
  rw [loop, turn, h]
  simp only [hStop]

theorem loop_going_on (wording : String → String) (root : String) (hFast : s.failFast = false)
    (reports : Array Report) (found : List Found) :
    (loop wording s root reports found).toList =
      reports.toList ++ found.filterMap (ofFound? wording s root) := by
  induction found generalizing reports with
  | nil => exact (List.append_nil _).symm
  | cons f rest ih =>
    cases hReport : ofFound? wording s root f with
    | none => rw [loop_passes_over hReport, ih, List.filterMap_cons_none hReport]
    | some r =>
      have hOn : (r.failed && s.failFast) = false := by rw [hFast, Bool.and_false]
      rw [loop_goes_on hReport hOn, ih, List.filterMap_cons_some hReport, Array.toList_push,
        List.append_assoc, List.singleton_append]

/-- As long as no report failed two loops have the same reports. One that stops has made them up to the
first that fails. -/
theorem loop_stopping (wording : String → String) (s : CheckSettings) (root : String)
    (found : List Found) (h : ∀ r ∈ reports.toList, r.failed = false) :
    (loop wording { s with failFast := true } root reports found).toList =
      throughFailure (loop wording { s with failFast := false } root reports found).toList := by
  induction found generalizing reports with
  | nil => exact (throughFailure_eq_self h).symm
  | cons f rest ih =>
    cases hReport : ofFound? wording s root f with
    | none =>
      rw [loop_passes_over (s := { s with failFast := true }) hReport,
        loop_passes_over (s := { s with failFast := false }) hReport, ih h]
    | some r =>
      rw [loop_goes_on (s := { s with failFast := false }) hReport (Bool.and_false _)]
      cases hFailed : r.failed with
      | false =>
        have hPassed : ∀ b ∈ (reports.push r).toList, b.failed = false := by
          rw [Array.toList_push, List.forall_mem_append]
          exact ⟨h, List.forall_mem_singleton.mpr hFailed⟩
        have hOn : (r.failed && true) = false := by rw [hFailed, Bool.false_and]
        rw [loop_goes_on (s := { s with failFast := true }) hReport hOn, ih hPassed]
      | true =>
        -- The loop that goes on only adds to the reports with which the other one stops.
        have hStop : (r.failed && true) = true := by rw [hFailed, Bool.true_and]
        rw [loop_stops (s := { s with failFast := true }) hReport hStop,
          loop_going_on wording root (s := { s with failFast := false }) rfl, Array.toList_push,
          List.append_assoc, List.singleton_append, throughFailure_append h hFailed]

end Loop

/-! ## Two checks of one root -/

section Runs

variable (wording : String → String) (s : CheckSettings) (root : String)
  (e : Except FileFault Entry)

/-- The reports on all that a walk through the root meets. -/
def all : List Report := (foundIn s e).filterMap (ofFound? wording s root)

theorem run_going_on :
    run wording { s with failFast := false } root e = all wording s root e := by
  rw [run, loop_going_on wording root rfl]
  cases e <;> rfl

theorem run_stopping :
    run wording { s with failFast := true } root e =
      throughFailure (run wording { s with failFast := false } root e) := by
  have hStart : ∀ r ∈ (#[] : Array Report).toList, r.failed = false := List.forall_mem_nil _
  cases e with
  | error fault => exact loop_stopping wording s root _ hStart
  | ok e => exact loop_stopping wording s root _ hStart

variable {s}

theorem run_eq_all (hFast : s.failFast = false) : run wording s root e = all wording s root e := by
  have hSame : { s with failFast := false } = s := by rw [← hFast]
  rw [← run_going_on, hSame]

theorem run_eq_throughFailure (hFast : s.failFast = true) :
    run wording s root e = throughFailure (all wording s root e) := by
  have hSame : { s with failFast := true } = s := by rw [← hFast]
  rw [← run_going_on, ← run_stopping, hSame]

/-- Whether a check stops at a failure does not matter for what it can report. -/
theorem all_congr {t : CheckSettings} (hExtensions : s.extensions = t.extensions)
    (hIgnored : s.ignorePaths = t.ignorePaths) : all wording s root e = all wording t root e := by
  obtain ⟨extensions, ignorePaths, failFast⟩ := s
  obtain rfl : extensions = t.extensions := hExtensions
  obtain rfl : ignorePaths = t.ignorePaths := hIgnored
  cases e <;> rfl

variable (s)

theorem run_prefix_all : run wording s root e <+: all wording s root e := by
  cases hFast : s.failFast with
  | false => exact ⟨[], by rw [List.append_nil, run_eq_all wording root e hFast]⟩
  | true =>
    rw [run_eq_throughFailure wording root e hFast]
    exact throughFailure_isStart _

end Runs

/-- The check that stops gives what the check that goes on gives, if no report failed there, and
otherwise its shortest start that ends in a failed report. -/
theorem run_stops_at_first_failure (wording : String → String) (s : CheckSettings) (root : String)
    (e : Except FileFault Entry) :
    let full := run wording { s with failFast := false } root e
    let fast := run wording { s with failFast := true } root e
    ((∀ r ∈ full, r.failed = false) → fast = full) ∧
      ((∃ r ∈ full, r.failed = true) → IsShortestFailing full fast) ∧
      fast.countP failed ≤ 1 ∧
      ∀ i r, fast[i]? = some r →
        full[i]? = some r ∧ (i + 1 ≠ fast.length → r.failed = false) := by
  rw [run_stopping]
  refine ⟨throughFailure_eq_self, throughFailure_isShortestFailing,
    countP_failed_throughFailure_le _, ?_⟩
  intro i r h
  refine ⟨?_, passed_of_getElem?_throughFailure h⟩
  obtain ⟨rest, hRest⟩ := throughFailure_isStart (run wording { s with failFast := false } root e)
  rw [← hRest, List.getElem?_append_left (List.getElem?_eq_some_iff.mp h).1]
  exact h

/-- A document is followed by a folder that cannot be listed, and that by a file that is no document.
The check that stops reports the folder and no more. -/
theorem run_stops_at_first_of_two_failures :
    let tree : Entry := .folder [("b.json", .file "x".toUTF8), ("aa", .closedFolder .denied),
      ("a.json", .file "[]".toUTF8)]
    let full := run id { failFast := false } "root" (.ok tree)
    let fast := run id { failFast := true } "root" (.ok tree)
    IsShortestFailing full fast ∧ full.map Report.path = [["a.json"], ["aa"], ["b.json"]] ∧
      fast.map Report.path = [["a.json"], ["aa"]] := by
  intro tree full fast
  have hPaths : full.map Report.path = [["a.json"], ["aa"], ["b.json"]] := by decide +kernel
  have hStart : fast.map Report.path = [["a.json"], ["aa"]] := by decide +kernel
  have hSome : full.any failed = true := by decide +kernel
  obtain ⟨-, hFailed, -⟩ := run_stops_at_first_failure id {} "root" (.ok tree)
  exact ⟨hFailed (List.any_eq_true.mp hSome), hPaths, hStart⟩

end Report

end AssetShell

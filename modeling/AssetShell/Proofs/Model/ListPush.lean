import AssetShell.Model.Editing
import Mathlib.Data.List.Basic

/-!
# Pushing onto a list

Pushing looks at the new item only, a check looks at all items: first whether they are what the list
asks for, then at each by itself. On a valid list both give the same outcome, so a list that starts
valid stays valid through any pushes.
-/

namespace AssetShell

theorem ListHead.checkItems_append_singleton (head : ListHead) (index : Nat) (items : List Element)
    (e : Element) :
    head.checkItems index (items ++ [e]) =
      (do head.checkItems index items; head.checkItem (index + items.length) e) := by
  induction items generalizing index with
  | nil =>
    simp only [List.nil_append, checkItems, List.length_nil, Nat.add_zero]
    cases head.checkItem index e <;> rfl
  | cons a r ih =>
    have hPlace : index + 1 + r.length = index + (r.length + 1) := by omega
    rw [List.cons_append, checkItems, checkItems, ih, List.length_cons, hPlace, bind_assoc]

theorem Element.checkEach_append_singleton (items : List Element) (e : Element) :
    Element.checkEach (items ++ [e]) = (do Element.checkEach items; e.check) := by
  induction items with
  | nil =>
    simp only [List.nil_append, checkEach]
    cases e.check <;> rfl
  | cons a r ih => rw [List.cons_append, checkEach, checkEach, ih, bind_assoc]

/-- Checks that pass one after the other pass each by itself. -/
theorem Checked.bind_eq_ok_iff {x y : Checked} :
    (do x; y) = .ok () ↔ x = .ok () ∧ y = .ok () := by
  cases x with
  | error v => exact ⟨nofun, nofun⟩
  | ok => exact ⟨fun h => ⟨rfl, h⟩, And.right⟩

namespace ElementList

variable {l : ElementList} {e : Element}

theorem check_eq_ok_iff :
    l.check = .ok () ↔
      l.head.common.check = .ok () ∧ l.head.checkItems 0 l.items = .ok () ∧
        Element.checkEach l.items = .ok () := by
  rw [check, toElement, Element.check, Checked.bind_eq_ok_iff, Checked.bind_eq_ok_iff]

theorem check_append (h : l.check = .ok ()) :
    (l.append e).check = (do l.head.checkItem l.items.length e; e.check) := by
  obtain ⟨hAttributes, hItems, hEach⟩ := check_eq_ok_iff.mp h
  rw [append, check, toElement, Element.check, ListHead.checkItems_append_singleton,
    Element.checkEach_append_singleton, hAttributes, hItems, hEach, Nat.zero_add]
  rfl

theorem push_eq (h : l.check = .ok ()) :
    l.push e = (l.append e).check.map fun _ => l.append e := by
  rw [check_append h, push]
  cases l.head.checkItem l.items.length e with
  | error v => rfl
  | ok => cases e.check <;> rfl

theorem push_eq_ok_iff (h : l.check = .ok ()) {r : ElementList} :
    l.push e = .ok r ↔ (l.append e).check = .ok () ∧ r = l.append e := by
  rw [push_eq h]
  cases (l.append e).check with
  | error v => simp [Except.map]
  | ok => simp [Except.map, eq_comm]

theorem push_eq_error_iff (h : l.check = .ok ()) {v : Violation} :
    l.push e = .error v ↔ (l.append e).check = .error v := by
  rw [push_eq h]
  cases (l.append e).check <;> simp [Except.map]

/-! ## Several pushes -/

/-- The list after pushes, those that are refused left out. -/
def pushAll (l : ElementList) (es : List Element) : ElementList := l.editAll (es.map .push)

theorem pushAll_cons_of_ok {r : ElementList} {es : List Element} (h : l.push e = .ok r) :
    l.pushAll (e :: es) = r.pushAll es := by
  rw [pushAll, pushAll, List.map_cons, editAll, List.foldl_cons, edit, h]
  rfl

theorem pushAll_cons_of_error {v : Violation} {es : List Element} (h : l.push e = .error v) :
    l.pushAll (e :: es) = l.pushAll es := by
  rw [pushAll, pushAll, List.map_cons, editAll, List.foldl_cons, edit, h]
  rfl

/-- After pushes a valid list is valid, and has more items at its end and nothing else changed. -/
theorem pushAll_valid (h : l.check = .ok ()) (es : List Element) :
    (l.pushAll es).check = .ok () ∧
      ∃ taken, taken.Sublist es ∧ l.pushAll es = ⟨l.head, l.items ++ taken⟩ := by
  -- Along the pushes, from a list that is valid again after each of them.
  induction es generalizing l with
  | nil => exact ⟨h, [], .slnil, by rw [List.append_nil]; rfl⟩
  | cons e es ih =>
    cases hPush : l.push e with
    | error v =>
      obtain ⟨hValid, taken, hTaken, hResult⟩ := ih h
      rw [pushAll_cons_of_error hPush]
      exact ⟨hValid, taken, hTaken.cons e, hResult⟩
    | ok r =>
      obtain ⟨hAppended, rfl⟩ := (push_eq_ok_iff h).mp hPush
      obtain ⟨hValid, taken, hTaken, hResult⟩ := ih hAppended
      rw [pushAll_cons_of_ok hPush]
      refine ⟨hValid, e :: taken, hTaken.cons_cons e, ?_⟩
      rw [hResult, append, List.append_assoc, List.singleton_append]

theorem ofKind_valid (idShort : String) (kind : ElementKind) (d : Option Datatype) :
    ({ ofKind idShort kind with head.itemValueType := d } : ElementList).check = .ok () := rfl

theorem push_agrees_with_check :
    (∀ (l : ElementList) (e : Element), l.check = .ok () →
      (∀ r, l.push e = .ok r ↔ (l.append e).check = .ok () ∧ r = ⟨l.head, l.items ++ [e]⟩) ∧
      (∀ v, l.push e = .error v ↔ (l.append e).check = .error v) ∧
      ∀ v, l.push e = .error v → l.pushAll [e] = l) ∧
    (∀ (l : ElementList) (es : List Element), l.check = .ok () →
      (l.pushAll es).check = .ok () ∧
        ∃ taken, taken.Sublist es ∧ l.pushAll es = ⟨l.head, l.items ++ taken⟩) ∧
    ∀ idShort kind d es,
      (({ ofKind idShort kind with head.itemValueType := d } : ElementList).pushAll es).check =
        .ok () := by
  refine ⟨fun l e h => ⟨fun r => push_eq_ok_iff h, fun v => push_eq_error_iff h, ?_⟩, ?_, ?_⟩
  · intro v hPush
    rw [pushAll_cons_of_error hPush]
    rfl
  · intro l es h
    exact pushAll_valid h es
  · intro idShort kind d es
    exact (pushAll_valid (ofKind_valid idShort kind d) es).1

/-- A list of integers keeps the integer it holds, and refuses a string in place 1. -/
theorem push_of_other_datatype_refused :
    let integers : ElementList :=
      ⟨{ itemKind := some .property, itemValueType := some .int },
        [.property { valueType := .int, value := some "7" }]⟩
    let text : Element := .property { valueType := .string, value := some "seven" }
    integers.check = .ok () ∧
      integers.push text = .error (.constraint (.itemValueType .int .string 1)) ∧
      integers.pushAll [text] = integers ∧ (integers.pushAll [text]).check = .ok () := by
  intro integers text
  have hValid : integers.check = .ok () := by decide
  have hExtended :
      (integers.append text).check = .error (.constraint (.itemValueType .int .string 1)) := by
    decide
  obtain ⟨-, hRefused, hKept⟩ := push_agrees_with_check.1 integers text hValid
  have hPush := (hRefused _).mpr hExtended
  exact ⟨hValid, hPush, hKept _ hPush, (push_agrees_with_check.2.1 integers [text] hValid).1⟩

end ElementList

end AssetShell

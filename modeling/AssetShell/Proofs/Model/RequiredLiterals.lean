import AssetShell.Proofs.Model.FirstViolation
import AssetShell.Proofs.Model.ListPush

/-!
# Literals that an element cannot be without

A property needs a literal or a reference to its value, a range needs a bound. To a property an
empty text is no literal. To a range it is a bound, but one that is not compared with the datatype;
so the bounds of a valid range may all be empty, and then none of them need fit.
-/

namespace AssetShell

theorem broken_eq_nil_iff {p : Prop} [Decidable p] {fault : ConstraintFault} :
    broken p fault = [] ↔ ¬ p := by
  unfold broken
  split <;> simp [*]

theorem Literal.violations_eq_nil_iff {d : Datatype} {raw : String} :
    Literal.violations d raw = [] ↔ Literal.check d raw = .ok () := by
  unfold Literal.violations
  cases Literal.check d raw <;> simp

theorem mem_givenText_iff {value : Option String} {raw : String} :
    raw ∈ givenText value ↔ value = some raw ∧ raw ≠ "" := by
  simp [givenText]

theorem givenText_ne_nil_iff {value : Option String} :
    givenText value ≠ [] ↔ ∃ raw, value = some raw ∧ raw ≠ "" := by
  simp only [← mem_givenText_iff]
  exact ⟨List.exists_mem_of_ne_nil _, fun ⟨_, hMem⟩ => List.ne_nil_of_mem hMem⟩

/-- A text that is given is compared with its datatype, unless it is empty. -/
theorem givenText_violations_eq_nil_iff {d : Datatype} {value : Option String} :
    (givenText value).flatMap (Literal.violations d) = [] ↔
      ∀ raw, value = some raw → raw = "" ∨ Literal.check d raw = .ok () := by
  simp only [List.flatMap_eq_nil_iff, mem_givenText_iff, Literal.violations_eq_nil_iff, and_imp,
    or_iff_not_imp_left, ne_eq]

/-! ## Ranges -/

namespace Range

variable {r : Range} {bound : String}

/-- The bounds that are there, the empty ones included. -/
def bounds (r : Range) : List String := r.min.toList ++ r.max.toList

theorem mem_bounds_iff : bound ∈ r.bounds ↔ r.min = some bound ∨ r.max = some bound := by
  rw [bounds, List.mem_append, Option.mem_toList, Option.mem_toList]

theorem bounds_eq_nil_iff : r.bounds = [] ↔ r.min = none ∧ r.max = none := by
  rw [bounds, List.append_eq_nil_iff, Option.toList_eq_nil_iff, Option.toList_eq_nil_iff]

theorem kindViolations_eq_nil_iff :
    (Element.range r).kindViolations = [] ↔ r.bounds ≠ [] ∧
      ∀ bound ∈ r.bounds, bound = "" ∨ Literal.check r.valueType bound = .ok () := by
  rw [Element.kindViolations, List.append_eq_nil_iff, List.append_eq_nil_iff, broken_eq_nil_iff,
    givenText_violations_eq_nil_iff, givenText_violations_eq_nil_iff, ← bounds_eq_nil_iff, and_assoc]
  simp only [mem_bounds_iff, or_imp, forall_and, ne_eq]

theorem check_eq (r : Range) :
    r.check = (do r.common.check; stopAtFirst (Element.range r).kindViolations) := by
  rw [kind_eq]
  rfl

theorem check_eq_ok_iff :
    r.check = .ok () ↔ r.common.check = .ok () ∧ r.bounds ≠ [] ∧
      ∀ bound ∈ r.bounds, bound = "" ∨ Literal.check r.valueType bound = .ok () := by
  rw [check_eq, Checked.bind_eq_ok_iff, stopAtFirst_eq_ok_iff, kindViolations_eq_nil_iff]

/-- A bound of a valid range fits the datatype, if not all of them are empty. -/
theorem exists_fitting_bound_iff (h : r.check = .ok ()) :
    (∃ bound ∈ r.bounds, Literal.check r.valueType bound = .ok ()) ↔
      (∃ bound ∈ r.bounds, bound ≠ "") ∨ Literal.check r.valueType "" = .ok () := by
  obtain ⟨-, hSome, hFit⟩ := check_eq_ok_iff.mp h
  constructor
  · rintro ⟨bound, hBound, hChecked⟩
    rcases eq_or_ne bound "" with rfl | hText
    · exact .inr hChecked
    · exact .inl ⟨bound, hBound, hText⟩
  · rintro (⟨bound, hBound, hText⟩ | hEmpty)
    · exact ⟨bound, hBound, (hFit bound hBound).resolve_left hText⟩
    · obtain ⟨bound, hBound⟩ := List.exists_mem_of_ne_nil _ hSome
      rcases hFit bound hBound with rfl | hChecked
      · exact ⟨"", hBound, hEmpty⟩
      · exact ⟨bound, hBound, hChecked⟩

/-- An empty bound is no integer, and yet enough for a range of integers. -/
theorem valid_without_fitting_bound :
    let r : Range := { valueType := .int, min := some "" }
    r.check = .ok () ∧ ¬ ∃ bound, (r.min = some bound ∨ r.max = some bound) ∧
      Literal.check r.valueType bound = .ok () := by
  intro r
  refine ⟨by decide, ?_⟩
  rintro ⟨bound, hBound | hBound, hChecked⟩
  · cases hBound
    exact absurd hChecked (by decide)
  · cases hBound

end Range

/-! ## Properties -/

namespace Property

variable {p : Property}

theorem kindViolations_eq_nil_iff :
    (Element.property p).kindViolations = [] ↔
      (p.valueId ≠ none ∨ ∃ raw, p.value = some raw ∧ raw ≠ "") ∧
        ∀ raw, p.value = some raw → raw = "" ∨ Literal.check p.valueType raw = .ok () := by
  rw [Element.kindViolations, List.append_eq_nil_iff, broken_eq_nil_iff,
    givenText_violations_eq_nil_iff, not_and_or, ← ne_eq, ← ne_eq, givenText_ne_nil_iff, and_comm,
    or_comm]

theorem check_eq (p : Property) :
    p.check = (do p.common.check; stopAtFirst (Element.property p).kindViolations) := by
  rw [kind_eq]
  rfl

theorem check_eq_ok_iff :
    p.check = .ok () ↔ p.common.check = .ok () ∧
      (p.valueId ≠ none ∨ ∃ raw, p.value = some raw ∧ raw ≠ "") ∧
        ∀ raw, p.value = some raw → raw = "" ∨ Literal.check p.valueType raw = .ok () := by
  rw [check_eq, Checked.bind_eq_ok_iff, stopAtFirst_eq_ok_iff, kindViolations_eq_nil_iff]

theorem has_value_of_valid (h : p.check = .ok ()) :
    p.valueId ≠ none ∨
      ∃ raw, p.value = some raw ∧ raw ≠ "" ∧ Literal.check p.valueType raw = .ok () := by
  obtain ⟨-, hValueId | ⟨raw, hValue, hText⟩, hFit⟩ := check_eq_ok_iff.mp h
  · exact .inl hValueId
  · exact .inr ⟨raw, hValue, hText, (hFit raw hValue).resolve_left hText⟩

end Property

/-- A range is valid if it has a bound and those that are not empty fit; then one of them fits,
unless all are empty and the empty text does not fit. A valid property has a reference to its value
or a literal that fits. -/
theorem Element.required_literals_fit :
    (∀ r : Range,
      (r.check = .ok () ↔ r.common.check = .ok () ∧ (r.min ≠ none ∨ r.max ≠ none) ∧
        ∀ bound, r.min = some bound ∨ r.max = some bound →
          bound = "" ∨ Literal.check r.valueType bound = .ok ()) ∧
      (r.check = .ok () →
        ((∃ bound ∈ r.bounds, Literal.check r.valueType bound = .ok ()) ↔
          (∃ bound ∈ r.bounds, bound ≠ "") ∨ Literal.check r.valueType "" = .ok ()))) ∧
    ∀ p : Property, p.check = .ok () →
      p.valueId ≠ none ∨
        ∃ raw, p.value = some raw ∧ raw ≠ "" ∧ Literal.check p.valueType raw = .ok () := by
  refine ⟨fun r => ⟨?_, Range.exists_fitting_bound_iff⟩, fun p => Property.has_value_of_valid⟩
  rw [Range.check_eq_ok_iff, ne_eq, Range.bounds_eq_nil_iff, not_and_or]
  simp only [Range.mem_bounds_iff, ne_eq]

/-- Beside an empty bound the other one fits. -/
theorem Element.required_literals_of_half_open :
    let r : Range := { valueType := .int, min := some "", max := some "7" }
    let p : Property := { valueType := .int, value := some "7" }
    r.check = .ok () ∧ (∃ bound ∈ r.bounds, Literal.check r.valueType bound = .ok ()) ∧
      p.check = .ok () ∧
        (p.valueId ≠ none ∨
          ∃ raw, p.value = some raw ∧ raw ≠ "" ∧ Literal.check p.valueType raw = .ok ()) := by
  intro r p
  have hRange : r.check = .ok () := by decide
  have hProperty : p.check = .ok () := by decide
  obtain ⟨hRanges, hProperties⟩ := required_literals_fit
  have hBound : ∃ bound ∈ r.bounds, bound ≠ "" := ⟨"7", by decide, by decide⟩
  exact ⟨hRange, ((hRanges r).2 hRange).mpr (.inl hBound), hProperty, hProperties p hProperty⟩

end AssetShell

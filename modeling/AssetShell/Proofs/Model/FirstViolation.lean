import AssetShell.Proofs.Model.SiteTree

/-!
# The first violation

A check stops at the first violation. It agrees with a validation that does not stop: an entity
passes if no site anywhere in its tree breaks a local rule, and otherwise the check reports the first
of all violations.
-/

namespace AssetShell

/-- The outcome of a check that stops at the first of these violations. -/
def stopAtFirst : List Violation → Checked
  | [] => .ok ()
  | v :: _ => .error v

def checkSites (ns : List Site) : Checked := stopAtFirst (ns.flatMap Site.violations)

theorem stopAtFirst_append (a b : List Violation) :
    stopAtFirst (a ++ b) = (do stopAtFirst a; stopAtFirst b) := by
  cases a <;> rfl

theorem stopAtFirst_broken (p : Prop) [Decidable p] (fault : ConstraintFault) :
    stopAtFirst (broken p fault) = if p then Violation.fail fault else .ok () := by
  unfold broken
  split <;> rfl

theorem stopAtFirst_flatMap {α : Type} (f : α → List Violation) (as : List α) :
    stopAtFirst (as.flatMap f) = checkAll (fun a => stopAtFirst (f a)) as := by
  induction as with
  | nil => rfl
  | cons a r ih => rw [List.flatMap_cons, stopAtFirst_append, ih, checkAll]

theorem stopAtFirst_eq_ok_iff {vs : List Violation} : stopAtFirst vs = .ok () ↔ vs = [] := by
  cases vs <;> simp [stopAtFirst]

theorem stopAtFirst_eq_error_iff {vs : List Violation} {v : Violation} :
    stopAtFirst vs = .error v ↔ vs.head? = some v := by
  cases vs <;> simp [stopAtFirst]

theorem checkSites_append (a b : List Site) :
    checkSites (a ++ b) = (do checkSites a; checkSites b) := by
  rw [checkSites, List.flatMap_append, stopAtFirst_append]
  rfl

theorem checkSites_cons (n : Site) (r : List Site) :
    checkSites (n :: r) = (do stopAtFirst n.violations; checkSites r) := by
  rw [checkSites, List.flatMap_cons, stopAtFirst_append]
  rfl

theorem checkSites_singleton (n : Site) : checkSites [n] = stopAtFirst n.violations := by
  simp [checkSites]

theorem checkAll_eq_checkSites {α : Type} {check : α → Checked} {sites : α → List Site}
    (h : ∀ a, check a = checkSites (sites a)) (as : List α) :
    checkAll check as = checkSites (as.flatMap sites) := by
  induction as with
  | nil => rfl
  | cons a r ih => rw [checkAll, List.flatMap_cons, checkSites_append, h, ih]

theorem checkAll_singleton {α : Type} (check : α → Checked) (a : α) :
    checkAll check [a] = check a := by
  rw [checkAll]
  cases check a <;> rfl

/-! ## Checks of local rules -/

theorem stopAtFirst_literal (d : Datatype) (raw : String) :
    stopAtFirst (Literal.violations d raw) = checkLiteral d raw := by
  unfold Literal.violations checkLiteral
  cases Literal.check d raw <;> rfl

theorem givenText_eq_nil_or_singleton (value : Option String) :
    givenText value = [] ∨ ∃ raw, givenText value = [raw] := by
  cases value with
  | none => exact .inl rfl
  | some raw =>
    by_cases hEmpty : raw = ""
    · exact .inl (by simp [givenText, hEmpty])
    · exact .inr ⟨raw, by simp [givenText, hEmpty]⟩

theorem stopAtFirst_givenText (d : Datatype) (value : Option String) :
    stopAtFirst ((givenText value).flatMap (Literal.violations d)) =
      checkOptionalLiteral (some d) value := by
  rw [stopAtFirst_flatMap]
  cases value with
  | none => rfl
  | some raw =>
    by_cases hEmpty : raw = ""
    · simp [givenText, checkOptionalLiteral, checkAll, hEmpty]
    · simp [givenText, checkOptionalLiteral, checkAll_singleton, stopAtFirst_literal, hEmpty]

theorem checkOptionalLiteral_eq (d : Option Datatype) (value : Option String) :
    checkOptionalLiteral d value = stopAtFirst (Site.typedText d value).violations := by
  cases d with
  | none => rfl
  | some d =>
    rw [← stopAtFirst_givenText]
    simp [Site.violations]

theorem Semantics.check_eq (s : Semantics) : s.check = stopAtFirst s.violations := by
  rw [Semantics.violations, stopAtFirst_broken, Semantics.check]
  simp [Option.isNone_iff_eq_none]

namespace AdministrativeInformation

theorem checkVersion_eq (version : String) :
    checkVersion version = stopAtFirst (broken (4 < version.length) (.versionTooLong version)) :=
  (stopAtFirst_broken _ _).symm

theorem givenText_eq_nil_iff (value : Option String) :
    givenText value = [] ↔ value.all String.isEmpty = true := by
  cases value <;> simp [givenText]

theorem checkRevision_eq (version : Option String) (revision : String) :
    checkRevision version revision =
      stopAtFirst (broken (4 < revision.length) (.revisionTooLong revision) ++
        broken (givenText version = []) .revisionWithoutVersion) := by
  rw [stopAtFirst_append, stopAtFirst_broken, stopAtFirst_broken, checkRevision, maxLength]
  simp only [givenText_eq_nil_iff]
  split <;> rfl

theorem check_eq (a : AdministrativeInformation) : a.check = stopAtFirst a.violations := by
  rw [violations, stopAtFirst_append, stopAtFirst_flatMap, stopAtFirst_flatMap, check]
  simp only [← checkVersion_eq, ← checkRevision_eq]

end AdministrativeInformation

/-! ## Rules of a kind -/

theorem Property.literal?_eq (p : Property) : p.literal? = (givenText p.value).head? := by
  rw [Property.literal?]
  cases p.value with
  | none => rfl
  | some raw =>
    by_cases hEmpty : raw = ""
    · simp [givenText, hEmpty]
    · simp [givenText, hEmpty]

theorem Property.kind_eq (p : Property) :
    stopAtFirst (Element.property p).kindViolations =
      match p.literal? with
      | some raw => checkLiteral p.valueType raw
      | none =>
        if p.valueId.isNone then
          Violation.fail (.propertyWithoutValue p.common.referable.idShort)
        else .ok () := by
  rw [Element.kindViolations, stopAtFirst_append, stopAtFirst_broken, stopAtFirst_flatMap,
    Property.literal?_eq]
  rcases givenText_eq_nil_or_singleton p.value with hText | ⟨raw, hText⟩
  · simp only [hText, checkAll, List.head?_nil, true_and, Option.isNone_iff_eq_none]
    rfl
  · simp only [hText, checkAll_singleton, stopAtFirst_literal, List.head?_cons, List.cons_ne_nil,
      false_and, if_false]
    cases checkLiteral p.valueType raw <;> rfl

theorem Range.kind_eq (r : Range) :
    stopAtFirst (Element.range r).kindViolations =
      if r.min.isNone && r.max.isNone then
        Violation.fail (.rangeWithoutBounds r.common.referable.idShort)
      else (do checkOptionalLiteral r.valueType r.min; checkOptionalLiteral r.valueType r.max) := by
  rw [Element.kindViolations, stopAtFirst_append, stopAtFirst_append, stopAtFirst_broken,
    stopAtFirst_givenText, stopAtFirst_givenText]
  simp only [Bool.and_eq_true, Option.isNone_iff_eq_none]
  split
  · rfl
  · rfl

theorem RelationshipElement.checkEnd_eq (which : RelationshipEnd) (r : Reference) :
    checkEnd which r = stopAtFirst (broken (r.kind ≠ .model) (.relationshipEnd which)) := by
  rw [stopAtFirst_broken, checkEnd, Reference.isModel]
  by_cases hModel : r.kind = .model <;> simp [hModel]

theorem RelationshipElement.kind_eq (r : RelationshipElement) :
    stopAtFirst (Element.relationship r).kindViolations =
      (do checkEnd .first r.first; checkEnd .second r.second) := by
  rw [Element.kindViolations, stopAtFirst_append, ← checkEnd_eq, ← checkEnd_eq]

namespace ListHead

variable (head : ListHead) (index : Nat) (e : Element)

theorem checkItem_eq : head.checkItem index e = stopAtFirst (head.itemViolations index e) := by
  have hKind : head.checkItemKind index e =
      stopAtFirst (head.itemKind.toList.flatMap fun wanted =>
        broken (wanted.admits e.kind = false) (.itemKind wanted e.kind index)) := by
    rw [stopAtFirst_flatMap, checkItemKind]
    cases head.itemKind with
    | none => rfl
    | some wanted =>
      simp only [Option.toList_some, checkAll_singleton, stopAtFirst_broken]
      cases wanted.admits e.kind <;> rfl
  have hValueType : head.checkItemValueType index e =
      stopAtFirst (head.itemValueType.toList.flatMap fun wanted =>
        e.valueType?.toList.flatMap fun found =>
          broken (wanted ≠ found) (.itemValueType wanted found index)) := by
    rw [stopAtFirst_flatMap, checkItemValueType]
    cases head.itemValueType with
    | none => rfl
    | some wanted =>
      simp only [Option.toList_some, checkAll_singleton, stopAtFirst_flatMap]
      cases e.valueType? with
      | none => rfl
      | some found =>
        simp only [Option.toList_some, checkAll_singleton, stopAtFirst_broken]
        by_cases hSame : wanted = found <;> simp [hSame]
  rw [checkItem, hKind, hValueType, itemViolations, stopAtFirst_append]

theorem checkItems_eq (items : List Element) :
    head.checkItems index items =
      checkSites (items.mapIdx fun i e => .item head (index + i) e) := by
  induction items generalizing index with
  | nil => rfl
  | cons e r ih =>
    rw [checkItems, List.mapIdx_cons, checkSites_cons, checkItem_eq, ih]
    simp only [Site.violations, Nat.add_zero, Nat.add_right_comm, Nat.add_assoc]

end ListHead

/-! ## Checks of whole entities -/

theorem Extension.check_eq (x : Extension) : x.check = checkSites x.sites := by
  rw [sites, checkSites_cons, checkSites_singleton, ← checkOptionalLiteral_eq, check,
    Semantics.check_eq]
  rfl

theorem Qualifier.check_eq (q : Qualifier) : q.check = checkSites q.sites := by
  rw [sites, checkSites_cons, checkSites_singleton, ← checkOptionalLiteral_eq, check,
    Semantics.check_eq]
  rfl

theorem Referable.check_eq (r : Referable) : r.check = checkSites r.sites :=
  checkAll_eq_checkSites Extension.check_eq r.extensions

theorem ElementAttributes.check_eq (a : ElementAttributes) : a.check = checkSites a.sites := by
  rw [sites, checkSites_append, checkSites_cons, ← checkAll_eq_checkSites Qualifier.check_eq,
    ← Referable.check_eq, check, Semantics.check_eq]
  rfl

/-- The common attributes of an element are checked before the rule of its kind. -/
theorem checkSites_plain (a : ElementAttributes) (e : Element) :
    checkSites (a.sites ++ [.element e]) = (do a.check; stopAtFirst e.kindViolations) := by
  rw [checkSites_append, ← ElementAttributes.check_eq, checkSites_singleton]
  rfl

theorem checkSites_of_attributes (a : ElementAttributes) (e : Element)
    (h : e.kindViolations = []) : checkSites (a.sites ++ [.element e]) = a.check := by
  rw [checkSites_plain, h]
  cases a.check <;> rfl

mutual

theorem Element.check_eq (e : Element) : e.check = checkSites e.sites := by
  cases e with
  | property p =>
    change _ = checkSites (p.common.sites ++ [.element (.property p)])
    rw [checkSites_plain, Property.kind_eq]
    rfl
  | multiLanguageProperty p => exact (checkSites_of_attributes _ _ rfl).symm
  | range r =>
    change _ = checkSites (r.common.sites ++ [.element (.range r)])
    rw [checkSites_plain, Range.kind_eq, check, Range.check]
  | file f => exact (checkSites_of_attributes _ _ rfl).symm
  | blob b =>
    change _ = checkSites (b.common.sites ++ [.element (.blob b)])
    rw [checkSites_plain, kindViolations, stopAtFirst_literal, check, Blob.check]
  | referenceElement r => exact (checkSites_of_attributes _ _ rfl).symm
  | relationship r =>
    change _ = checkSites (r.common.sites ++ [.element (.relationship r)])
    rw [checkSites_plain, RelationshipElement.kind_eq, check, RelationshipElement.check]
  | collection head items =>
    rw [sites, checkSites_append, checkSites_cons, ← Element.checkEach_eq items,
      ← ElementAttributes.check_eq, check]
    rfl
  | list head items =>
    have hItems := head.checkItems_eq 0 items
    simp only [Nat.zero_add] at hItems
    rw [sites, checkSites_append, checkSites_cons, checkSites_append,
      ← Element.checkEach_eq items, ← ElementAttributes.check_eq, check, hItems]
    rfl

theorem Element.checkEach_eq (items : List Element) :
    Element.checkEach items = checkSites (Element.sitesOfAll items) := by
  cases items with
  | nil => rfl
  | cons e r =>
    rw [checkEach, sitesOfAll, checkSites_append, ← Element.check_eq e, ← Element.checkEach_eq r]

end

theorem checkAll_map {α : Type} {check : α → Checked} {site : α → Site}
    (h : ∀ a, check a = stopAtFirst (site a).violations) (as : List α) :
    checkAll check as = checkSites (as.map site) := by
  induction as with
  | nil => rfl
  | cons a r ih => rw [checkAll, List.map_cons, checkSites_cons, h, ih]

theorem Identity.check_eq (i : Identity) : i.check = checkSites i.sites := by
  rw [sites, checkSites_append, ← Referable.check_eq,
    ← checkAll_map AdministrativeInformation.check_eq, check]

theorem Submodel.check_eq (s : Submodel) : s.check = checkSites s.sites := by
  rw [sites, checkSites_append, checkSites_cons, checkSites_append, ← Element.sitesOfAll_eq,
    ← Element.checkEach_eq, ← checkAll_eq_checkSites Qualifier.check_eq, ← Identity.check_eq, check,
    Semantics.check_eq]
  rfl

namespace Shell

theorem isModelTo_iff (r : Reference) (t : KeyType) :
    r.isModelTo t = true ↔ r.kind = .model ∧ r.firstKey.type = t := by
  simp [Reference.isModelTo, Reference.isModel]

theorem checkDerivedFrom_eq (r : Reference) :
    checkDerivedFrom r = stopAtFirst (Site.derivedFrom r).violations := by
  simp only [Site.violations, stopAtFirst_broken, ← isModelTo_iff, checkDerivedFrom]
  cases r.isModelTo .assetAdministrationShell <;> rfl

theorem checkSubmodels_eq (index : Nat) (rs : List Reference) :
    checkSubmodels index rs = checkSites (rs.mapIdx fun i r => .submodel (index + i) r) := by
  induction rs generalizing index with
  | nil => rfl
  | cons r rest ih =>
    rw [List.mapIdx_cons, checkSites_cons, checkSubmodels, ih]
    simp only [Site.violations, stopAtFirst_broken, ← isModelTo_iff, Nat.add_zero,
      Nat.add_right_comm, Nat.add_assoc]
    cases r.isModelTo .submodel <;> rfl

theorem check_eq (s : Shell) : s.check = checkSites s.sites := by
  have hSubmodels := checkSubmodels_eq 0 s.submodels
  simp only [Nat.zero_add] at hSubmodels
  have hAssetIds : s.assetInformation.check =
      checkSites (s.assetInformation.specificAssetIds.map (.semantics ·.semantics)) :=
    checkAll_map (fun id => Semantics.check_eq id.semantics) _
  rw [sites, checkSites_append, checkSites_append, checkSites_append, ← Identity.check_eq,
    ← hAssetIds, ← checkAll_map checkDerivedFrom_eq, ← hSubmodels, check]
  simp only [bind_assoc]

end Shell

theorem Entity.check_eq (x : Entity) : x.check = stopAtFirst x.violations := by
  cases x with
  | element e => exact e.check_eq
  | shell s => exact s.check_eq
  | submodel s => exact s.check_eq
  | conceptDescription c => exact c.identity.check_eq

namespace Entity

theorem violations_eq_nil_iff (x : Entity) :
    x.violations = [] ↔ ∀ n, x.HasSite n → n.violations = [] := by
  rw [violations, List.flatMap_eq_nil_iff]
  simp only [mem_sites_iff]

theorem check_reports_first_violation (x : Entity) :
    (x.check = .ok () ↔ ∀ n, x.HasSite n → n.violations = []) ∧
      ∀ v, x.check = .error v ↔ x.violations.head? = some v := by
  constructor
  · rw [check_eq, stopAtFirst_eq_ok_iff, violations_eq_nil_iff]
  · intro v
    rw [check_eq, stopAtFirst_eq_error_iff]

end Entity

end AssetShell

import AssetShell.Model.Validation

/-!
# Local rules and their sites

A site is a part of an entity that has rules of its own, which look at nothing below it. Each site
lists all its violations, and each entity lists its sites in the order in which a validation asks
them.
-/

namespace AssetShell

inductive Site
  | semantics (s : Semantics)
  | typedText (d : Option Datatype) (value : Option String)
  | administration (a : AdministrativeInformation)
  | element (e : Element)
  | item (head : ListHead) (index : Nat) (e : Element)
  | derivedFrom (r : Reference)
  | submodel (index : Nat) (r : Reference)

/-! ## Violations of local rules -/

def broken (p : Prop) [Decidable p] (fault : ConstraintFault) : List Violation :=
  if p then [.constraint fault] else []

def Literal.violations (d : Datatype) (raw : String) : List Violation :=
  match check d raw with
  | .ok () => []
  | .error fault => [.literal fault]

/-- The text that a literal consists of, if there is one that is not empty. -/
def givenText (value : Option String) : List String := value.toList.filter (· ≠ "")

def Semantics.violations (s : Semantics) : List Violation :=
  broken (s.supplementalSemanticIds ≠ [] ∧ s.semanticId = none) .supplementalWithoutSemanticId

def AdministrativeInformation.violations (a : AdministrativeInformation) : List Violation :=
  (a.version.toList.flatMap fun version => broken (4 < version.length) (.versionTooLong version)) ++
    a.revision.toList.flatMap fun revision =>
      broken (4 < revision.length) (.revisionTooLong revision) ++
        broken (givenText a.version = []) .revisionWithoutVersion

def Element.kindViolations : Element → List Violation
  | .property p =>
    (givenText p.value).flatMap (Literal.violations p.valueType) ++
      broken (givenText p.value = [] ∧ p.valueId = none)
        (.propertyWithoutValue p.common.referable.idShort)
  | .range r =>
    broken (r.min = none ∧ r.max = none) (.rangeWithoutBounds r.common.referable.idShort) ++
      (givenText r.min).flatMap (Literal.violations r.valueType) ++
      (givenText r.max).flatMap (Literal.violations r.valueType)
  | .blob b => Literal.violations .base64Binary b.value
  | .relationship r =>
    broken (r.first.kind ≠ .model) (.relationshipEnd .first) ++
      broken (r.second.kind ≠ .model) (.relationshipEnd .second)
  | _ => []

def ListHead.itemViolations (head : ListHead) (index : Nat) (e : Element) : List Violation :=
  (head.itemKind.toList.flatMap fun wanted =>
    broken (wanted.admits e.kind = false) (.itemKind wanted e.kind index)) ++
    head.itemValueType.toList.flatMap fun wanted =>
      e.valueType?.toList.flatMap fun found =>
        broken (wanted ≠ found) (.itemValueType wanted found index)

def Site.violations : Site → List Violation
  | .semantics s => s.violations
  | .typedText d value => d.toList.flatMap fun d => (givenText value).flatMap (Literal.violations d)
  | .administration a => a.violations
  | .element e => e.kindViolations
  | .item head index e => head.itemViolations index e
  | .derivedFrom r =>
    broken (¬ (r.kind = .model ∧ r.firstKey.type = .assetAdministrationShell)) .derivedFromNoShell
  | .submodel index r =>
    broken (¬ (r.kind = .model ∧ r.firstKey.type = .submodel)) (.noSubmodel index)

/-! ## Sites in the order of a validation -/

def Extension.sites (x : Extension) : List Site := [.semantics x.semantics, .typedText x.valueType x.value]

def Qualifier.sites (q : Qualifier) : List Site := [.semantics q.semantics, .typedText q.valueType q.value]

def Referable.sites (r : Referable) : List Site := r.extensions.flatMap Extension.sites

def ElementAttributes.sites (a : ElementAttributes) : List Site :=
  a.referable.sites ++ .semantics a.semantics :: a.qualifiers.flatMap Qualifier.sites

mutual

def Element.sites : Element → List Site
  | .collection head items =>
    head.common.sites ++ .element (.collection head items) :: Element.sitesOfAll items
  | .list head items =>
    head.common.sites ++ .element (.list head items) ::
      (items.mapIdx (.item head) ++ Element.sitesOfAll items)
  | e => e.common.sites ++ [.element e]

def Element.sitesOfAll : List Element → List Site
  | [] => []
  | e :: r => e.sites ++ Element.sitesOfAll r

end

def Identity.sites (i : Identity) : List Site :=
  i.referable.sites ++ i.administration.toList.map .administration

def Shell.sites (s : Shell) : List Site :=
  s.identity.sites ++ s.assetInformation.specificAssetIds.map (.semantics ·.semantics) ++
    s.derivedFrom.toList.map .derivedFrom ++ s.submodels.mapIdx .submodel

def Submodel.sites (s : Submodel) : List Site :=
  s.identity.sites ++ .semantics s.semantics ::
    (s.qualifiers.flatMap Qualifier.sites ++ s.elements.flatMap Element.sites)

def ConceptDescription.sites (c : ConceptDescription) : List Site := c.identity.sites

/-! ## Entities -/

inductive Entity
  | element (e : Element)
  | shell (s : Shell)
  | submodel (s : Submodel)
  | conceptDescription (c : ConceptDescription)

namespace Entity

def check : Entity → Checked
  | .element e => e.check
  | .shell s => s.check
  | .submodel s => s.check
  | .conceptDescription c => c.check

def sites : Entity → List Site
  | .element e => e.sites
  | .shell s => s.sites
  | .submodel s => s.sites
  | .conceptDescription c => c.sites

/-- All violations of local rules, in the order of a validation that does not stop. -/
def violations (x : Entity) : List Violation := x.sites.flatMap Site.violations

end Entity

end AssetShell

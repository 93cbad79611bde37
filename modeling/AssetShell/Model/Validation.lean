import AssetShell.Model.Identifiable
import AssetShell.Model.Violation

/-!
# Validation

An entity is checked from its attributes inwards: extensions, semantic identifiers, qualifiers, the
rule of its kind, and then what it holds. The first violation ends the check. The items of a list
are all compared with what the list asks for before any of them is checked by itself.
-/

namespace AssetShell

def Violation.fail (fault : ConstraintFault) : Checked := .error (.constraint fault)

def checkAll {α : Type} (check : α → Checked) : List α → Checked
  | [] => .ok ()
  | a :: r => do check a; checkAll check r

/-- A literal that must fit its datatype. -/
def checkLiteral (d : Datatype) (raw : String) : Checked :=
  match Literal.check d raw with
  | .ok () => .ok ()
  | .error fault => .error (.literal fault)

/-- A text is checked if there is a datatype and the text is not empty. -/
def checkOptionalLiteral (d : Option Datatype) (value : Option String) : Checked :=
  match d, value with
  | some d, some raw => if raw.isEmpty then .ok () else checkLiteral d raw
  | _, _ => .ok ()

def Semantics.check (s : Semantics) : Checked :=
  if !s.supplementalSemanticIds.isEmpty && s.semanticId.isNone then
    Violation.fail .supplementalWithoutSemanticId
  else .ok ()

def Qualifier.check (q : Qualifier) : Checked := do
  q.semantics.check
  checkOptionalLiteral q.valueType q.value

def Extension.check (e : Extension) : Checked := do
  e.semantics.check
  checkOptionalLiteral e.valueType e.value

def Referable.check (r : Referable) : Checked := checkAll Extension.check r.extensions

namespace AdministrativeInformation

/-- Versions and revisions have at most this many characters. -/
def maxLength : Nat := 4

def checkVersion (version : String) : Checked :=
  if maxLength < version.length then Violation.fail (.versionTooLong version) else .ok ()

/-- An empty version counts as missing. -/
def checkRevision (version : Option String) (revision : String) : Checked :=
  if maxLength < revision.length then Violation.fail (.revisionTooLong revision)
  else if version.all String.isEmpty then Violation.fail .revisionWithoutVersion
  else .ok ()

def check (a : AdministrativeInformation) : Checked := do
  checkAll checkVersion a.version.toList
  checkAll (checkRevision a.version) a.revision.toList

end AdministrativeInformation

def Identity.check (i : Identity) : Checked := do
  i.referable.check
  checkAll AdministrativeInformation.check i.administration.toList

def ElementAttributes.check (a : ElementAttributes) : Checked := do
  a.referable.check
  a.semantics.check
  checkAll Qualifier.check a.qualifiers

def Property.check (p : Property) : Checked := do
  p.common.check
  match p.literal? with
  | some raw => checkLiteral p.valueType raw
  | none =>
    if p.valueId.isNone then
      Violation.fail (.propertyWithoutValue p.common.referable.idShort)
    else .ok ()

def MultiLanguageProperty.check (p : MultiLanguageProperty) : Checked := p.common.check

def Range.check (r : Range) : Checked := do
  r.common.check
  if r.min.isNone && r.max.isNone then
    Violation.fail (.rangeWithoutBounds r.common.referable.idShort)
  else
    checkOptionalLiteral r.valueType r.min
    checkOptionalLiteral r.valueType r.max

def File.check (f : File) : Checked := f.common.check

def Blob.check (b : Blob) : Checked := do
  b.common.check
  checkLiteral .base64Binary b.value

def ReferenceElement.check (r : ReferenceElement) : Checked := r.common.check

def RelationshipElement.checkEnd (which : RelationshipEnd) (r : Reference) : Checked :=
  if r.isModel then .ok () else Violation.fail (.relationshipEnd which)

def RelationshipElement.check (r : RelationshipElement) : Checked := do
  r.common.check
  checkEnd .first r.first
  checkEnd .second r.second

namespace ListHead

def checkItemKind (h : ListHead) (index : Nat) (e : Element) : Checked :=
  match h.itemKind with
  | none => .ok ()
  | some wanted =>
    if wanted.admits e.kind then .ok () else Violation.fail (.itemKind wanted e.kind index)

def checkItemValueType (h : ListHead) (index : Nat) (e : Element) : Checked :=
  match h.itemValueType, e.valueType? with
  | some wanted, some found =>
    if wanted = found then .ok () else Violation.fail (.itemValueType wanted found index)
  | _, _ => .ok ()

/-- Whether an item is what the list asks for. -/
def checkItem (h : ListHead) (index : Nat) (e : Element) : Checked := do
  h.checkItemKind index e
  h.checkItemValueType index e

/-- Compares items with what the list asks for; the first of them has the place `index`. -/
def checkItems (h : ListHead) (index : Nat) : List Element → Checked
  | [] => .ok ()
  | e :: r => do
    h.checkItem index e
    checkItems h (index + 1) r

end ListHead

mutual

def Element.check : Element → Checked
  | .property p => p.check
  | .multiLanguageProperty p => p.check
  | .range r => r.check
  | .file f => f.check
  | .blob b => b.check
  | .referenceElement r => r.check
  | .relationship r => r.check
  | .collection head items => do
    head.common.check
    Element.checkEach items
  | .list head items => do
    head.common.check
    head.checkItems 0 items
    Element.checkEach items

def Element.checkEach : List Element → Checked
  | [] => .ok ()
  | e :: r => do
    e.check
    Element.checkEach r

end

namespace ElementList

def ofKind (idShort : String) (kind : ElementKind) : ElementList :=
  ⟨{ common := .ofIdShort idShort, itemKind := some kind }, []⟩

def check (l : ElementList) : Checked := l.toElement.check

def append (l : ElementList) (e : Element) : ElementList := { l with items := l.items ++ [e] }

/-- Appends an item that the list asks for and that is valid by itself. -/
def push (l : ElementList) (e : Element) : Except Violation ElementList := do
  l.head.checkItem l.items.length e
  e.check
  return l.append e

end ElementList

def ElementCollection.check (c : ElementCollection) : Checked := c.toElement.check

def AssetInformation.check (a : AssetInformation) : Checked :=
  checkAll (fun id : SpecificAssetId => id.semantics.check) a.specificAssetIds

namespace Shell

def checkDerivedFrom (r : Reference) : Checked :=
  if r.isModelTo .assetAdministrationShell then .ok () else Violation.fail .derivedFromNoShell

/-- Compares references with what a shell asks for; the first of them has the place `index`. -/
def checkSubmodels (index : Nat) : List Reference → Checked
  | [] => .ok ()
  | r :: rest =>
    if r.isModelTo .submodel then checkSubmodels (index + 1) rest
    else Violation.fail (.noSubmodel index)

def check (s : Shell) : Checked := do
  s.identity.check
  s.assetInformation.check
  checkAll checkDerivedFrom s.derivedFrom.toList
  checkSubmodels 0 s.submodels

end Shell

def Submodel.check (s : Submodel) : Checked := do
  s.identity.check
  s.semantics.check
  checkAll Qualifier.check s.qualifiers
  Element.checkEach s.elements

def ConceptDescription.check (c : ConceptDescription) : Checked := c.identity.check

def Identifiable.check : Identifiable → Checked
  | .shell s => s.check
  | .submodel s => s.check
  | .conceptDescription c => c.check

/-! ## Entities that are valid from the start -/

def Property.make (idShort : String) (valueType : Datatype) (value : String) :
    Except Violation Property := do
  let p : Property := { common := .ofIdShort idShort, valueType, value := some value }
  p.check
  return p

/-- A property whose value is a coded one. -/
def Property.coded (idShort : String) (valueType : Datatype) (valueId : Reference) : Property :=
  { common := .ofIdShort idShort, valueType, valueId := some valueId }

def Qualifier.make (type : String) (valueType : Datatype) (value : String) :
    Except Violation Qualifier := do
  let q : Qualifier := { type, valueType := some valueType, value := some value }
  q.check
  return q

def AdministrativeInformation.make (version : String) (revision : Option String) :
    Except Violation AdministrativeInformation := do
  let a : AdministrativeInformation := { version := some version, revision }
  a.check
  return a

def Blob.decoded (b : Blob) : Except LiteralFault (List UInt8) :=
  match Base64.decode (utf8Bytes b.value) with
  | .ok bytes => .ok bytes
  | .error fault => .error ⟨.base64Binary, b.value, .form (.notBase64 fault)⟩

end AssetShell

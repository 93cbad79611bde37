import AssetShell.Model.Validation

/-!
# Editing

Changes to a list, a submodel or a shell that is being put together. Only what is pushed onto a list
is checked; everything else may leave an entity that is not valid yet.
-/

namespace AssetShell

namespace ElementList

inductive Edit
  | push (e : Element)
  | append (e : Element)
  | pop
  | setItemKind (kind : Option ElementKind)
  | setItemValueType (d : Option Datatype)
  | setOrderRelevant (value : Bool)
  | nest (kind : ElementKind) (d : Option Datatype)

def outerId : String := "outer"

/-- The list as the first item of a new list. -/
def nested (kind : ElementKind) (d : Option Datatype) (l : ElementList) :
    Except Violation ElementList :=
  let outer := ofKind outerId kind
  { outer with head.itemValueType := d }.push l.toElement

/-- The list after an edit. An edit that is refused leaves no other list behind. -/
def edit (l : ElementList) : Edit → Except Violation ElementList
  | .push e => l.push e
  | .append e => .ok (l.append e)
  | .pop => .ok { l with items := l.items.dropLast }
  | .setItemKind kind => .ok { l with head.itemKind := kind }
  | .setItemValueType d => .ok { l with head.itemValueType := d }
  | .setOrderRelevant value => .ok { l with head.orderRelevant := value }
  | .nest kind d => l.nested kind d

/-- The list after several edits, those that are refused left out. -/
def editAll (l : ElementList) (edits : List Edit) : ElementList :=
  edits.foldl (fun l e => (l.edit e).toOption.getD l) l

end ElementList

namespace Submodel

def ofId (id : String) : Submodel := { identity := { id } }

def push (s : Submodel) (e : Element) : Submodel := { s with elements := s.elements ++ [e] }

def property? (s : Submodel) (index : Nat) : Option Property :=
  match s.elements[index]? with
  | some (.property p) => some p
  | _ => none

/-- Gives the property at a place another text. -/
def setValue? (s : Submodel) (index : Nat) (value : Option String) : Option Submodel :=
  (s.property? index).map fun p =>
    { s with elements := s.elements.set index (.property { p with value }) }

def setAdministration (s : Submodel) (a : AdministrativeInformation) : Submodel :=
  { s with identity.administration := some a }

def setSemantics (s : Submodel) (r : Reference) : Submodel :=
  { s with semantics := { semanticId := some r } }

def clearSemanticId (s : Submodel) : Submodel := { s with semantics.semanticId := none }

def addSupplemental (s : Submodel) (r : Reference) : Submodel :=
  let ids := s.semantics.supplementalSemanticIds ++ [r]
  { s with semantics.supplementalSemanticIds := ids }

def addQualifier (s : Submodel) (q : Qualifier) : Submodel :=
  { s with qualifiers := s.qualifiers ++ [q] }

def addExtension (s : Submodel) (e : Extension) : Submodel :=
  let extensions := s.identity.referable.extensions ++ [e]
  { s with identity.referable.extensions := extensions }

def setIdShort (s : Submodel) (idShort : Option String) : Submodel :=
  { s with identity.referable.idShort := idShort }

end Submodel

namespace Shell

def ofAssetKind (id : String) (kind : AssetKind) : Shell :=
  { identity := { id }, assetInformation := { assetKind := kind } }

def addSubmodel (s : Shell) (r : Reference) : Shell := { s with submodels := s.submodels ++ [r] }

def removeSubmodel (s : Shell) : Shell := { s with submodels := s.submodels.dropLast }

def addAssetId (s : Shell) (a : SpecificAssetId) : Shell :=
  let ids := s.assetInformation.specificAssetIds ++ [a]
  { s with assetInformation.specificAssetIds := ids }

def setAdministration (s : Shell) (a : AdministrativeInformation) : Shell :=
  { s with identity.administration := some a }

def addExtension (s : Shell) (e : Extension) : Shell :=
  let extensions := s.identity.referable.extensions ++ [e]
  { s with identity.referable.extensions := extensions }

end Shell

end AssetShell

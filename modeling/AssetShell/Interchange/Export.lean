import AssetShell.Interchange.Identifiable

/-!
# Export

The exported form of an entity. With typed values, the text of a property at any depth gives way to
the value it denotes; nothing else changes.
-/

namespace AssetShell

/-- Gives the member of a name another value. -/
def Json.replaceMember (name : String) (v : Json) (members : List (String × Json)) :
    List (String × Json) :=
  members.map fun m => if m.1 = name then (name, v) else m

namespace Property

def exportMembers (typed : Bool) (p : Property) : List (String × Json) :=
  match p.typedValue? typed with
  | some v => Json.replaceMember "value" v.toJson p.members
  | none => p.members

def exported (typed : Bool) (p : Property) : Json := .object (p.exportMembers typed)

end Property

namespace Element

mutual

def exportMembers (typed : Bool) : Element → List (String × Json)
  | .property p => p.exportMembers typed
  | .collection head items =>
    head.members ++ Json.listMember "value" (exportEach typed items)
  | .list head items => head.members ++ Json.listMember "value" (exportEach typed items)
  | e => e.members

def exportEach (typed : Bool) : List Element → List Json
  | [] => []
  | e :: r => .object ((Tagged.tagName, e.kind.toJson) :: exportMembers typed e) :: exportEach typed r

end

def exported (typed : Bool) (e : Element) : Json :=
  .object ((Tagged.tagName, e.kind.toJson) :: e.exportMembers typed)

end Element

namespace Submodel

def exportMembers (typed : Bool) (s : Submodel) : List (String × Json) :=
  s.ownMembers ++ Json.listMember "submodelElements" (Element.exportEach typed s.elements)

def exported (typed : Bool) (s : Submodel) : Json := .object (s.exportMembers typed)

end Submodel

namespace Identifiable

def exported (typed : Bool) : Identifiable → Json
  | .submodel s => .object ((Tagged.tagName, Kind.submodel.toJson) :: s.exportMembers typed)
  | i => i.toJson

end Identifiable

end AssetShell

import AssetShell.Literal.Typed
import AssetShell.Model.Attributes
import AssetShell.Model.ElementKind

/-!
# Submodel elements

The nine kinds of elements. Collections and lists hold further elements; their own attributes are
kept apart from what they hold.
-/

namespace AssetShell

structure Property where
  common : ElementAttributes := {}
  valueType : Datatype
  value : Option String := none
  valueId : Option Reference := none
  deriving DecidableEq, Repr

structure MultiLanguageProperty where
  common : ElementAttributes := {}
  value : List LangString := []
  valueId : Option Reference := none
  deriving DecidableEq, Repr

structure Range where
  common : ElementAttributes := {}
  valueType : Datatype
  min : Option String := none
  max : Option String := none
  deriving DecidableEq, Repr

structure File where
  common : ElementAttributes := {}
  contentType : String
  value : String
  deriving DecidableEq, Repr

structure Blob where
  common : ElementAttributes := {}
  contentType : String
  value : String
  deriving DecidableEq, Repr

structure ReferenceElement where
  common : ElementAttributes := {}
  value : Reference
  deriving DecidableEq, Repr

structure RelationshipElement where
  common : ElementAttributes := {}
  first : Reference
  second : Reference
  deriving DecidableEq, Repr

structure CollectionHead where
  common : ElementAttributes := {}
  orderRelevant : Bool := true
  deriving DecidableEq, Repr

structure ListHead where
  common : ElementAttributes := {}
  orderRelevant : Bool := true
  itemKind : Option ElementKind := none
  itemSemanticId : Option Reference := none
  itemValueType : Option Datatype := none
  deriving DecidableEq, Repr

inductive Element
  | property (p : Property)
  | multiLanguageProperty (p : MultiLanguageProperty)
  | range (r : Range)
  | file (f : File)
  | blob (b : Blob)
  | referenceElement (r : ReferenceElement)
  | relationship (r : RelationshipElement)
  | collection (head : CollectionHead) (items : List Element)
  | list (head : ListHead) (items : List Element)
  deriving Repr

/-- The text of a property, where an empty one counts as none. -/
def Property.literal? (p : Property) : Option String :=
  match p.value with
  | none => none
  | some raw => if raw.isEmpty then none else some raw

/-- The typed value, when it is asked for and there is a text. -/
def Property.typedValue? (typed : Bool) (p : Property) : Option TypedValue :=
  if typed then p.literal?.map (.ofLiteral p.valueType) else none

namespace Element

def common : Element → ElementAttributes
  | .property p => p.common
  | .multiLanguageProperty p => p.common
  | .range r => r.common
  | .file f => f.common
  | .blob b => b.common
  | .referenceElement r => r.common
  | .relationship r => r.common
  | .collection head _ => head.common
  | .list head _ => head.common

def kind : Element → ElementKind
  | .property _ => .property
  | .multiLanguageProperty _ => .multiLanguageProperty
  | .range _ => .range
  | .file _ => .file
  | .blob _ => .blob
  | .referenceElement _ => .referenceElement
  | .relationship _ => .relationshipElement
  | .collection .. => .submodelElementCollection
  | .list .. => .submodelElementList

/-- The datatype that an element declares; only properties and ranges declare one. -/
def valueType? : Element → Option Datatype
  | .property p => some p.valueType
  | .range r => some r.valueType
  | _ => none

def children : Element → List Element
  | .collection _ items => items
  | .list _ items => items
  | _ => []

def idShort (e : Element) : Option String := e.common.referable.idShort

end Element

structure ElementList where
  head : ListHead
  items : List Element

structure ElementCollection where
  head : CollectionHead
  items : List Element

def ElementList.toElement (l : ElementList) : Element := .list l.head l.items

def ElementCollection.toElement (c : ElementCollection) : Element := .collection c.head c.items

end AssetShell

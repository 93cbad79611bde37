import AssetShell.Literal.Datatype
import AssetShell.Reference.Basic

/-!
# Attributes

The blocks of attributes that the entities share: names and descriptions, semantic identifiers,
qualifiers and extensions, administrative information, identity.
-/

namespace AssetShell

structure LangString where
  language : String
  text : String
  deriving DecidableEq, Repr

inductive ModellingKind
  | template
  | individual
  deriving DecidableEq, Repr

namespace ModellingKind

def all : List ModellingKind := [.template, .individual]

def name : ModellingKind → String
  | .template => "Template"
  | .individual => "Instance"

end ModellingKind

structure Semantics where
  semanticId : Option Reference := none
  supplementalSemanticIds : List Reference := []
  deriving DecidableEq, Repr

structure Qualifier where
  type : String
  valueType : Option Datatype := none
  value : Option String := none
  valueId : Option Reference := none
  semantics : Semantics := {}
  deriving DecidableEq, Repr

structure Extension where
  name : String
  valueType : Option Datatype := none
  value : Option String := none
  refersTo : List Reference := []
  semantics : Semantics := {}
  deriving DecidableEq, Repr

structure Referable where
  category : Option String := none
  idShort : Option String := none
  displayName : List LangString := []
  description : List LangString := []
  extensions : List Extension := []
  deriving DecidableEq, Repr

structure AdministrativeInformation where
  version : Option String := none
  revision : Option String := none
  creator : Option Reference := none
  templateId : Option String := none
  deriving DecidableEq, Repr

structure Identity where
  referable : Referable := {}
  id : String
  administration : Option AdministrativeInformation := none
  deriving DecidableEq, Repr

structure ElementAttributes where
  referable : Referable := {}
  semantics : Semantics := {}
  qualifiers : List Qualifier := []
  dataSpecifications : List Reference := []
  deriving DecidableEq, Repr

def ElementAttributes.ofIdShort (idShort : String) : ElementAttributes :=
  { referable := { idShort := some idShort } }

end AssetShell

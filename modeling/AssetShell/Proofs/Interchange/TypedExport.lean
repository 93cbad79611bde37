import AssetShell.Interchange.Export
import AssetShell.Proofs.Interchange.EntityRoundTrip
import AssetShell.Proofs.Json.Path

/-!
# What a typed export changes

With typed values the text of each property gives way to the value it denotes, at the places where
such a text stands. Along every other path the typed and the plain form of an entity have the same
shape: the same leaves, the same names in the same order and as many items.
-/

namespace AssetShell

/-- Places of texts, with the datatype and the text that stands there. -/
abbrev LiteralPlaces := Json.Path → Datatype → String → Prop

structure TypedExport (places : LiteralPlaces) (plain typed : Json) : Prop where
  literal : ∀ path d raw, places path d raw → plain.at? path = some (.string raw) ∧
    typed.at? path = some (TypedValue.ofLiteralIf true d raw).toJson
  other : ∀ path, (∀ d raw, ¬ places path d raw) →
    (typed.at? path).map Json.shape = (plain.at? path).map Json.shape

/-- The texts of an element and of all elements below it. -/
inductive Element.LiteralAt : Element → LiteralPlaces
  | property {p : Property} {raw : String} (hValue : p.value = some raw) (hRaw : raw ≠ "") :
    LiteralAt (.property p) [.member "value"] p.valueType raw
  | collection {head : CollectionHead} {items : List Element} {i : Nat} {e : Element}
    {path : Json.Path} {d : Datatype} {raw : String} (hItem : items[i]? = some e)
    (h : LiteralAt e path d raw) :
    LiteralAt (.collection head items) (.member "value" :: .item i :: path) d raw
  | list {head : ListHead} {items : List Element} {i : Nat} {e : Element}
    {path : Json.Path} {d : Datatype} {raw : String} (hItem : items[i]? = some e)
    (h : LiteralAt e path d raw) :
    LiteralAt (.list head items) (.member "value" :: .item i :: path) d raw

/-- The texts of elements in the array under a name. -/
def Element.LiteralUnder (name : String) (items : List Element) : LiteralPlaces := fun path d raw =>
  ∃ i e rest, path = .member name :: .item i :: rest ∧ items[i]? = some e ∧ e.LiteralAt rest d raw

def Submodel.LiteralAt (s : Submodel) : LiteralPlaces :=
  Element.LiteralUnder "submodelElements" s.elements

def Identifiable.LiteralAt : Identifiable → LiteralPlaces
  | .submodel s => s.LiteralAt
  | _ => fun _ _ _ => False

namespace TypedExport

variable {places : LiteralPlaces} {v w : Json} {name : String}

theorem refl (h : ∀ path d raw, ¬ places path d raw) : TypedExport places v v where
  literal path d raw hPlace := absurd hPlace (h path d raw)
  other _ _ := rfl

theorem congr {other : LiteralPlaces} (h : TypedExport places v w)
    (hPlaces : ∀ path d raw, other path d raw ↔ places path d raw) : TypedExport other v w where
  literal path d raw hPlace := h.literal path d raw ((hPlaces path d raw).mp hPlace)
  other path hNone := h.other path fun d raw hPlace => hNone d raw ((hPlaces path d raw).mpr hPlace)

/-! ## One text -/

theorem isLeaf_toJson (x : TypedValue) : x.toJson.isLeaf = true := by
  cases x with
  | integer v =>
    simp only [TypedValue.toJson]
    split <;> rfl
  | float f =>
    simp only [TypedValue.toJson]
    split <;> rfl
  | _ => rfl

theorem member?_replaceMember (ms : List (String × Json)) (other : String) :
    (Json.object (Json.replaceMember name v ms)).member? other =
      if other = name then ((Json.object ms).member? name).map fun _ => v
      else (Json.object ms).member? other := by
  induction ms using List.reverseRecOn with
  | nil => simp [Json.replaceMember, Json.member?]
  | append_singleton ms m ih =>
    obtain ⟨found, w⟩ := m
    have hSplit : Json.replaceMember name v (ms ++ [(found, w)]) =
        Json.replaceMember name v ms ++ [if found = name then (name, v) else (found, w)] :=
      List.map_append
    rw [hSplit, Json.member?_append, ih, Json.member?_append, Json.member?_append]
    by_cases hFound : found = name
    · subst hFound
      by_cases hOther : other = found
      · simp [Json.member?_singleton, hOther]
      · simp [Json.member?_singleton, hOther, Ne.symm hOther]
    · by_cases hOther : other = name
      · simp [Json.member?_singleton, hFound, hOther]
      · simp [Json.member?_singleton, hFound, hOther]

theorem names_replaceMember (ms : List (String × Json)) :
    Json.names (Json.replaceMember name v ms) = Json.names ms := by
  rw [Json.names, Json.replaceMember, List.map_map]
  refine List.map_congr_left fun m _ => ?_
  by_cases h : m.1 = name
  · simp [h]
  · simp [h]

/-- One member that is a text is replaced. -/
theorem of_replaceMember {ms : List (String × Json)} {d : Datatype} {raw : String}
    (hText : (Json.object ms).member? name = some (.string raw))
    (hPlaces : ∀ path d' raw', places path d' raw' ↔ path = [.member name] ∧ d' = d ∧ raw' = raw) :
    TypedExport places (.object ms)
      (.object (Json.replaceMember name (TypedValue.ofLiteralIf true d raw).toJson ms)) where
  literal path d' raw' hPlace := by
    obtain ⟨rfl, rfl, rfl⟩ := (hPlaces _ _ _).mp hPlace
    simp [member?_replaceMember, hText]
  other path hNone := by
    cases path with
    | nil => simp [Json.shape, names_replaceMember]
    | cons step path =>
      cases step with
      | item i => simp
      | member other =>
        by_cases hOther : other = name
        · cases path with
          | nil => exact absurd ((hPlaces _ _ _).mpr ⟨hOther ▸ rfl, rfl, rfl⟩) (hNone d raw)
          | cons step path =>
            subst hOther
            rw [Json.at?_member, Json.at?_member, member?_replaceMember, if_pos rfl, hText]
            -- Nothing stands below a text, nor below the value that takes its place.
            have hPlain := Json.at?_cons_of_isLeaf (v := .string raw) rfl step path
            have hTyped := Json.at?_cons_of_isLeaf (isLeaf_toJson (.ofLiteralIf true d raw)) step path
            exact congrArg (Option.map Json.shape) (hTyped.trans hPlain.symm)
        · simp [member?_replaceMember, hOther]

/-! ## Elements in an array -/

/-- The array is the last member, so it is what stands under its name. -/
theorem member?_append_listMember (name : String) {items : List Json} (hItems : items ≠ [])
    (front : List (String × Json)) (other : String) :
    (Json.object (front ++ Json.listMember name items)).member? other =
      if name = other then some (.array items) else (Json.object front).member? other := by
  have hList : Json.listMember name items = [(name, .array items)] := by
    cases items with
    | nil => exact absurd rfl hItems
    | cons v r => rfl
  rw [hList, Json.member?_append, Json.member?_singleton]
  by_cases hName : name = other
  · simp [hName]
  · simp [hName]

/-- The array under the last member may change, item by item. -/
theorem of_listMember {ι : Type} {items : List ι} (name : String) (front : List (String × Json))
    {plain typed : ι → Json} {place : ι → LiteralPlaces}
    (h : ∀ a ∈ items, TypedExport (place a) (plain a) (typed a)) :
    TypedExport
      (fun path d raw => ∃ i a rest, path = .member name :: .item i :: rest ∧
        items[i]? = some a ∧ place a rest d raw)
      (.object (front ++ Json.listMember name (items.map plain)))
      (.object (front ++ Json.listMember name (items.map typed))) := by
  cases items with
  | nil => exact refl (by simp)
  | cons a r =>
    have hMember (f : ι → Json) : ∀ other,
        (Json.object (front ++ Json.listMember name ((a :: r).map f))).member? other =
          if name = other then some (.array ((a :: r).map f))
          else (Json.object front).member? other :=
      member?_append_listMember name (List.cons_ne_nil _ _) front
    constructor
    · rintro path d raw ⟨i, b, rest, rfl, hItem, hPlace⟩
      obtain ⟨hPlain, hTyped⟩ := (h b (List.mem_of_getElem? hItem)).literal rest d raw hPlace
      simp [hMember, -List.map_cons, List.getElem?_map, hItem, hPlain, hTyped]
    · intro path hNone
      cases path with
      | nil => simp [Json.shape, Json.listMember]
      | cons step path =>
        cases step with
        | item i => simp
        | member other =>
          rw [Json.at?_member, Json.at?_member, hMember, hMember]
          by_cases hName : name = other
          · subst hName
            rw [if_pos rfl, if_pos rfl]
            cases path with
            | nil => simp [Json.shape]
            | cons step path =>
              cases step with
              | member inner => simp
              | item i =>
                simp only [Option.bind_some, Json.at?_item, List.getElem?_map]
                cases hItem : (a :: r)[i]? with
                | none => rfl
                | some b =>
                  refine (h b (List.mem_of_getElem? hItem)).other path fun d raw hPlace => ?_
                  exact hNone d raw ⟨i, b, path, rfl, hItem, hPlace⟩
          · rw [if_neg hName, if_neg hName]

end TypedExport

/-! ## Properties -/

namespace Property

variable {p : Property}

theorem literal?_eq_some_iff {raw : String} :
    p.literal? = some raw ↔ p.value = some raw ∧ raw ≠ "" := by
  rw [literal?]
  cases p.value with
  | none => simp
  | some found =>
    simp only [String.isEmpty_iff, Option.some.injEq]
    by_cases hEmpty : found = ""
    · rw [if_pos hEmpty]
      exact ⟨nofun, fun ⟨hFound, hRaw⟩ => absurd (hFound ▸ hEmpty) hRaw⟩
    · rw [if_neg hEmpty, Option.some.injEq]
      exact ⟨fun h => ⟨h, h ▸ hEmpty⟩, And.left⟩

theorem member?_value {raw : String} (h : p.value = some raw) (front : List (String × Json)) :
    (Json.object (front ++ p.members)).member? "value" = some (.string raw) := by
  have hSplit : front ++ p.members = (front ++ p.common.members
      ++ [("valueType", p.valueType.toJson)]) ++ (Json.optionalMember "value" (some (.string raw))
        ++ Json.optionalMember "valueId" (p.valueId.map Reference.toJson)) := by
    simp [members, h]
  rw [hSplit, Json.member?_append, Json.member?_append, Json.member?_optionalMember,
    Json.member?_optionalMember]
  rfl

theorem exportMembers_of_literal {raw : String} (h : p.literal? = some raw) :
    p.exportMembers true =
      Json.replaceMember "value" (TypedValue.ofLiteralIf true p.valueType raw).toJson p.members := by
  simp only [exportMembers, typedValue?, h]
  rfl

theorem exportMembers_of_no_literal (h : p.literal? = none) : p.exportMembers true = p.members := by
  simp only [exportMembers, typedValue?, h]
  rfl

/-- Members in front, such as the tag, must not have the name of the value. -/
theorem typedExport (front : List (String × Json)) (hFront : ∀ m ∈ front, m.1 ≠ "value") :
    TypedExport (Element.property p).LiteralAt (.object (front ++ p.members))
      (.object (front ++ p.exportMembers true)) := by
  have hPlaces : ∀ path d raw, (Element.property p).LiteralAt path d raw ↔
      path = [.member "value"] ∧ d = p.valueType ∧ p.literal? = some raw := by
    intro path d raw
    rw [literal?_eq_some_iff]
    constructor
    · rintro ⟨hValue, hRaw⟩
      exact ⟨rfl, rfl, hValue, hRaw⟩
    · rintro ⟨rfl, rfl, hValue, hRaw⟩
      exact .property hValue hRaw
  cases hLiteral : p.literal? with
  | none =>
    rw [exportMembers_of_no_literal hLiteral]
    refine .refl fun path d raw hPlace => ?_
    have hSome := ((hPlaces path d raw).mp hPlace).2.2
    rw [hLiteral] at hSome
    cases hSome
  | some raw =>
    have hValue := (literal?_eq_some_iff.mp hLiteral).1
    have hReplaced : front ++ p.exportMembers true = Json.replaceMember "value"
        (TypedValue.ofLiteralIf true p.valueType raw).toJson (front ++ p.members) := by
      have hSame : Json.replaceMember "value" (TypedValue.ofLiteralIf true p.valueType raw).toJson
          front = front := by
        conv_rhs => rw [← List.map_id front]
        exact List.map_congr_left fun m hm => if_neg (hFront m hm)
      have hAppend : Json.replaceMember "value" (TypedValue.ofLiteralIf true p.valueType raw).toJson
          (front ++ p.members) = Json.replaceMember "value" _ front ++ Json.replaceMember "value" _ _ :=
        List.map_append
      rw [hAppend, hSame, exportMembers_of_literal hLiteral]
    rw [hReplaced]
    refine .of_replaceMember (member?_value hValue front) fun path d' raw' => ?_
    rw [hPlaces, hLiteral, Option.some.injEq, eq_comm (a := raw)]

end Property

/-! ## Elements -/

namespace Element

theorem exportEach_eq_map (typed : Bool) (items : List Element) :
    exportEach typed items = items.map (exported typed) := by
  induction items with
  | nil => rw [exportEach, List.map_nil]
  | cons e r ih => rw [exportEach, ih, List.map_cons, exported]

mutual

theorem typedExport (e : Element) : TypedExport e.LiteralAt e.toJson (e.exported true) := by
  cases e with
  | property p =>
    rw [toJson, exported, members, exportMembers]
    exact p.typedExport [(Tagged.tagName, _)] (by simp [Tagged.tagName])
  | collection head items =>
    have hItems := TypedExport.of_listMember "value"
      ((Tagged.tagName, ElementKind.submodelElementCollection.toJson) :: head.members)
      (typedExport_items items)
    rw [toJson, exported, members, exportMembers, toJsons_eq_map, exportEach_eq_map]
    refine hItems.congr fun path d raw => ?_
    constructor
    · rintro (_ | ⟨hItem, h⟩)
      exact ⟨_, _, _, rfl, hItem, h⟩
    · rintro ⟨i, e, rest, rfl, hItem, h⟩
      exact .collection hItem h
  | list head items =>
    have hItems := TypedExport.of_listMember "value"
      ((Tagged.tagName, ElementKind.submodelElementList.toJson) :: head.members)
      (typedExport_items items)
    rw [toJson, exported, members, exportMembers, toJsons_eq_map, exportEach_eq_map]
    refine hItems.congr fun path d raw => ?_
    constructor
    · rintro (_ | _ | ⟨hItem, h⟩)
      exact ⟨_, _, _, rfl, hItem, h⟩
    · rintro ⟨i, e, rest, rfl, hItem, h⟩
      exact .list hItem h
  | _ => exact .refl fun path d raw h => nomatch h

theorem typedExport_items (items : List Element) :
    ∀ e ∈ items, TypedExport e.LiteralAt e.toJson (e.exported true) := by
  cases items with
  | nil => exact fun e he => absurd he List.not_mem_nil
  | cons e r =>
    intro e' he
    rcases List.mem_cons.mp he with hEq | he
    · rw [hEq]
      exact typedExport e
    · exact typedExport_items r e' he

end

/-! ### Without typed values -/

mutual

theorem exportMembers_false (e : Element) : e.exportMembers false = e.members := by
  cases e with
  | collection head items => rw [exportMembers, members, exportEach_false]
  | list head items => rw [exportMembers, members, exportEach_false]
  | property p =>
    rw [exportMembers, members]
    rfl
  | _ => rfl

theorem exportEach_false (items : List Element) : exportEach false items = toJsons items := by
  cases items with
  | nil => rw [exportEach, toJsons]
  | cons e r => rw [exportEach, toJsons, exportMembers_false e, exportEach_false r]

end

theorem exported_false (e : Element) : e.exported false = e.toJson := by
  rw [exported, exportMembers_false, toJson]

end Element

/-! ## Submodels and identifiables -/

namespace Submodel

theorem typedExport_front (s : Submodel) (front : List (String × Json)) :
    TypedExport s.LiteralAt (.object (front ++ s.members)) (.object (front ++ s.exportMembers true)) := by
  have hItems := TypedExport.of_listMember "submodelElements" (front ++ s.ownMembers)
    fun e (_ : e ∈ s.elements) => e.typedExport
  rw [List.append_assoc, List.append_assoc] at hItems
  rw [exportMembers, Element.exportEach_eq_map]
  exact hItems

theorem exportMembers_false (s : Submodel) : s.exportMembers false = s.members := by
  rw [exportMembers, Element.exportEach_false, Element.toJsons_eq_map, members]

end Submodel

namespace Identifiable

theorem typedExport (i : Identifiable) : TypedExport i.LiteralAt i.toJson (i.exported true) := by
  cases i with
  | submodel s => exact s.typedExport_front [(Tagged.tagName, Kind.submodel.toJson)]
  | shell s => exact .refl fun path d raw h => h
  | conceptDescription c => exact .refl fun path d raw h => h

theorem exported_false (i : Identifiable) : i.exported false = i.toJson := by
  cases i with
  | submodel s =>
    rw [exported, s.exportMembers_false]
    rfl
  | shell s => rfl
  | conceptDescription c => rfl

end Identifiable

/-- Names do not repeat in the plain form, so paths reach every place in it. -/
theorem export_changes_literals_only :
    (∀ e : Element, e.toJson.Distinct ∧ TypedExport e.LiteralAt e.toJson (e.exported true) ∧
      e.exported false = e.toJson) ∧
    (∀ s : Submodel, s.toJson.Distinct ∧ TypedExport s.LiteralAt s.toJson (s.exported true) ∧
      s.exported false = s.toJson) ∧
    (∀ i : Identifiable, i.toJson.Distinct ∧ TypedExport i.LiteralAt i.toJson (i.exported true) ∧
      i.exported false = i.toJson) ∧
    ∀ p : Property, p.exported false = .object p.members ∧
      TypedExport (Element.property p).LiteralAt (.object p.members) (p.exported true) ∧
      ∀ typed, ∃ ms, p.exported typed = .object ms ∧
        (Element.property p).exported typed = .object (("modelType", .string "Property") :: ms) := by
  refine ⟨fun e => ⟨?_, e.typedExport, e.exported_false⟩, fun s => ⟨?_, ?_, ?_⟩,
    fun i => ⟨?_, i.typedExport, i.exported_false⟩, fun p => ⟨rfl, ?_, fun typed => ?_⟩⟩
  · exact (EntityType.element.tidy_toJson e).distinct
  · exact (EntityType.submodel.tidy_toJson s).distinct
  · exact s.typedExport_front []
  · exact congrArg Json.object s.exportMembers_false
  · exact (EntityType.identifiable.tidy_toJson i).distinct
  · exact p.typedExport [] fun m hm => absurd hm List.not_mem_nil
  · refine ⟨p.exportMembers typed, rfl, ?_⟩
    rw [Element.exported, Element.exportMembers]
    rfl

end AssetShell

import AssetShell.Proofs.Interchange.EntityRoundTrip
import AssetShell.Proofs.Interchange.SuccessfulReading
import AssetShell.Proofs.Interchange.TypedExport
import AssetShell.Proofs.Json.PrintedText

/-!
# Documents survive their export

The plain export of a document that was read, printed in either format, is a text that is read as
the same entities. It nests no deeper than the document did, since nothing is written deeper than
the value from which it was decoded.
-/

namespace AssetShell

variable {s : String} {v : Json} {es : List Identifiable}

namespace OutputFormat

def layout : OutputFormat → Json.Layout
  | .pretty => .pretty
  | .compact => .compact

theorem layout_blank (f : OutputFormat) : f.layout.Blank := by
  cases f with
  | pretty => exact Json.Layout.pretty_blank
  | compact => exact Json.Layout.compact_blank

theorem render_eq (f : OutputFormat) (v : Json) : f.render v = Json.print f.layout v.canonical := by
  cases f <;> rfl

/-- What is rendered nests as deep as the value, and is read as its canonical form. -/
theorem rawOfText?_render (f : OutputFormat) (h : v.Tidy) (hDepth : v.depth ≤ Json.maxLevels) :
    Json.rawOfText? (f.render v) = some v.canonical := by
  have hCanonical : v.canonical.depth ≤ Json.maxLevels := (Json.depth_canonical_le v).trans hDepth
  rw [render_eq, Json.rawOfText?_print f.layout_blank h.canonical hCanonical]

theorem ofText?_render (f : OutputFormat) (h : v.Tidy) (hDepth : v.depth ≤ Json.maxLevels) :
    Json.ofText? (f.render v) = some v.canonical := by
  rw [Json.ofText?_eq_map_rawOfText?, f.rawOfText?_render h hDepth, Option.map_some,
    Json.canonical_canonical]

end OutputFormat

namespace Document

def plain (es : List Identifiable) : Json := assemble (exports false es)

theorem exports_false (es : List Identifiable) : exports false es = es.map Identifiable.toJson :=
  List.map_congr_left fun i _ => i.exported_false

/-- One entity stands by itself; none or several stand in an array. -/
theorem plain_cases (es : List Identifiable) :
    (∃ i, es = [i] ∧ plain es = i.toJson) ∨ plain es = .array (es.map Identifiable.toJson) := by
  rw [plain, exports_false]
  match es with
  | [] => exact .inr rfl
  | [i] => exact .inl ⟨i, rfl, rfl⟩
  | i :: j :: r => exact .inr rfl

theorem tidy_plain (es : List Identifiable) : (plain es).Tidy := by
  have hOne : ∀ i : Identifiable, i.toJson.Tidy := fun i => EntityType.identifiable.tidy_toJson i
  rcases plain_cases es with ⟨i, rfl, hPlain⟩ | hPlain
  · rw [hPlain]
    exact hOne i
  · rw [hPlain]
    exact .array (List.forall_mem_map.mpr fun i _ => hOne i)

theorem depth_plain_le (h : decodeValue v = .ok es) : (plain es).depth ≤ v.depth := by
  -- At level 0 the laws still bound the depth of what was decoded.
  have hOne : ∀ w i, Identifiable.decoder.value .parsed w = .ok i → i.toJson.depth ≤ w.depth :=
    (Identifiable.codec_lawful (n := 0)).depth_le .parsed
  rcases decodeValue_inv h with ⟨items, rfl, hItems⟩ | ⟨i, rfl, hi⟩
  · have hEach : ∀ i ∈ es, i.toJson.depth ≤ Json.depthOfItems items := by
      intro i hi
      obtain ⟨w, hw, hDecode⟩ := exists_of_mapM_eq_ok hItems hi
      exact (hOne w i hDecode).trans (Json.depth_le_depthOfItems hw)
    rcases plain_cases es with ⟨i, rfl, hPlain⟩ | hPlain
    · rw [hPlain]
      exact (hEach i List.mem_cons_self).trans (Nat.le_succ _)
    · rw [hPlain]
      exact Nat.succ_le_succ (Json.depthOfItems_le_iff.mpr (List.forall_mem_map.mpr hEach))
  · rw [plain, exports_false]
    exact hOne v i hi

theorem decodeValue_plain (es : List Identifiable) : decodeValue (plain es).canonical = .ok es := by
  have hOne (i : Identifiable) : Identifiable.decoder.value .parsed i.toJson.canonical = .ok i :=
    have hDistinct := (EntityType.identifiable.tidy_toJson i).distinct
    EntityType.decode_of_alike (t := .identifiable) (.canonical hDistinct) .parsed
  rcases plain_cases es with ⟨i, rfl, hPlain⟩ | hPlain
  · obtain ⟨ms, hObject⟩ : ∃ ms, i.toJson.canonical = .object ms := ⟨_, Json.canonical_object _⟩
    have hDecode := hOne i
    rw [hObject] at hDecode
    rw [hPlain, hObject]
    change (Identifiable.decoder.value .parsed (.object ms)).map (fun i => [i]) = _
    rw [hDecode]
    rfl
  · rw [hPlain, Json.canonical_array, decodeValue, List.map_map]
    refine mapM_eq_ok_iff.mpr (List.forall₂_map_left_iff.mpr (List.forall₂_same.mpr fun i _ => ?_))
    exact hOne i

theorem depth_plain_le_maxLevels (h : read s = .ok es) : (plain es).depth ≤ Json.maxLevels := by
  obtain ⟨v, hText, hDecode, -⟩ := read_inv h
  exact (depth_plain_le hDecode).trans (Json.depth_le_of_ofText? hText)

theorem read_plain (h : read s = .ok es) (f : OutputFormat) :
    read (f.render (plain es)) = .ok es := by
  obtain ⟨-, -, -, hCheck⟩ := read_inv h
  have hDecode : decode (f.render (plain es)) = .ok es := by
    rw [decode, f.ofText?_render (tidy_plain es) (depth_plain_le_maxLevels h)]
    exact decodeValue_plain es
  exact settled_eq_ok_iff.mpr ⟨hDecode, hCheck⟩

/-- Exporting once more gives the same text. -/
theorem read_export (h : read s = .ok es) (f : OutputFormat) :
    (assemble (exports false es)).depth ≤ Json.maxLevels ∧
      read (f.render (assemble (exports false es))) = .ok es ∧
      ∀ es', read (f.render (assemble (exports false es))) = .ok es' →
        f.render (assemble (exports false es')) = f.render (assemble (exports false es)) := by
  have hRead := read_plain h f
  refine ⟨depth_plain_le_maxLevels h, hRead, fun es' h' => ?_⟩
  change read (f.render (plain es)) = .ok es' at h'
  rw [hRead] at h'
  cases h'
  rfl

/-- An array of one entity becomes the entity alone, in which an empty list is left out. -/
theorem read_export_of_one :
    let i := Identifiable.conceptDescription { identity := { id := "a" } }
    read "[\x7b\"id\": \"a\", \"isCaseOf\": [], \"modelType\": \"ConceptDescription\"\x7d]" = .ok [i] ∧
      (assemble (exports false [i])).depth ≤ Json.maxLevels ∧
      read (OutputFormat.pretty.render (assemble (exports false [i]))) = .ok [i] := by
  intro i
  have hRead : read
      "[\x7b\"id\": \"a\", \"isCaseOf\": [], \"modelType\": \"ConceptDescription\"\x7d]" =
      .ok [.conceptDescription { identity := { id := "a" } }] := by
    cbv
  obtain ⟨hDepth, hAgain, -⟩ := read_export hRead .pretty
  exact ⟨hRead, hDepth, hAgain⟩

end Document

end AssetShell

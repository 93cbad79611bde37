import AssetShell.Proofs.Interchange.SuccessfulReading
import AssetShell.Proofs.Json.ArrayText
import AssetShell.Proofs.Model.FirstViolation

/-!
# Documents that are arrays

An array of texts that are documents of their own is read as the documents one after another, apart
from the order of the faults: every item is decoded before any is checked.
-/

namespace AssetShell

/-! ## Checking one after another -/

section Checked

variable {α : Type} {check : α → Checked}

theorem checkAll_eq_ok_iff {as : List α} :
    checkAll check as = .ok () ↔ ∀ a ∈ as, check a = .ok () := by
  induction as with
  | nil => exact ⟨fun _ _ h => absurd h List.not_mem_nil, fun _ => rfl⟩
  | cons a r ih =>
    rw [checkAll, List.forall_mem_cons, ← ih]
    cases check a with
    | error v =>
      constructor
      · exact fun h => by cases h
      · exact fun h => h.1
    | ok => exact ⟨fun h => ⟨rfl, h⟩, fun h => h.2⟩

theorem faultOf?_checkAll (check : α → Checked) (as : List α) :
    faultOf? (checkAll check as) = as.findSome? fun a => faultOf? (check a) := by
  induction as with
  | nil => rfl
  | cons a r ih =>
    rw [checkAll, List.findSome?_cons]
    cases check a with
    | error v => rfl
    | ok => exact ih

end Checked

namespace Document

variable {t : String} {ts : List String} {i : Identifiable} {es : List Identifiable}

/-- The fault for which a document cannot be decoded, if there is one. -/
def decodeFault? (t : String) : Option DecodeFault :=
  match read t with
  | .error (.decode f) => some f
  | _ => none

/-- The rule that a document breaks although it can be decoded, if there is one. -/
def violation? (t : String) : Option Violation :=
  match read t with
  | .error (.violation v) => some v
  | _ => none

theorem decodeFault?_eq_some_iff {f : DecodeFault} :
    decodeFault? t = some f ↔ read t = .error (.decode f) := by
  rw [decodeFault?]
  split <;> simp_all

theorem violation?_eq_some_iff {v : Violation} :
    violation? t = some v ↔ read t = .error (.violation v) := by
  rw [violation?]
  split <;> simp_all

/-- The entity of a text that is an object. -/
def decodeOne (t : String) : Decoded Identifiable :=
  match Json.ofText? t with
  | some v => Identifiable.decoder.value .parsed v
  | none => .error .malformed

section Object

variable (h : ∃ ms, Json.ofText? t = some (.object ms))
include h

theorem decode_of_object : decode t = (decodeOne t).map fun i => [i] := by
  obtain ⟨ms, hText⟩ := h
  rw [decode, decodeOne, hText]
  rfl

theorem read_of_object : read t = (settled (decodeOne t) Identifiable.check).map fun i => [i] := by
  rw [read_eq_settled, decode_of_object h, settled_map (checkAll_singleton Identifiable.check)]

theorem read_eq_ok_iff_of_object :
    read t = .ok [i] ↔ decodeOne t = .ok i ∧ i.check = .ok () := by
  rw [read_of_object h, ← settled_eq_ok_iff]
  constructor
  · intro hRead
    obtain ⟨j, hj, hSame⟩ := exists_of_map_eq_ok hRead
    cases hSame
    exact hj
  · intro hSettled
    rw [hSettled]
    rfl

theorem decodeFault?_of_object : decodeFault? t = faultOf? (decodeOne t) := by
  refine Option.ext fun f => ?_
  rw [decodeFault?_eq_some_iff, faultOf?_eq_some_iff, read_of_object h, map_eq_error_iff,
    settled_eq_decode_iff]

theorem violation?_of_object (hDecode : decodeOne t = .ok i) :
    violation? t = faultOf? i.check := by
  refine Option.ext fun v => ?_
  rw [violation?_eq_some_iff, faultOf?_eq_some_iff, read_of_object h, map_eq_error_iff,
    settled_eq_violation_iff]
  constructor
  · rintro ⟨j, hj, hCheck⟩
    rw [hDecode] at hj
    cases hj
    exact hCheck
  · exact fun hCheck => ⟨i, hDecode, hCheck⟩

end Object

/-! ## Arrays of objects -/

section Array

variable (hObjects : ∀ t ∈ ts, ∃ ms, Json.ofText? t = some (.object ms))
include hObjects

theorem decode_arrayText
    (hDepth : ∀ t ∈ ts, ∀ v, Json.rawOfText? t = some v → v.depth < Json.maxLevels) :
    decode (Json.arrayText ts) = ts.mapM decodeOne := by
  have hValues : ∀ t ∈ ts, ∃ v, Json.rawOfText? t = some v ∧ v.depth < Json.maxLevels := by
    intro t ht
    obtain ⟨ms, hText⟩ := hObjects t ht
    rw [Json.ofText?_eq_map_rawOfText?] at hText
    obtain ⟨v, hRaw, -⟩ := Option.map_eq_some_iff.mp hText
    exact ⟨v, hRaw, hDepth t ht v hRaw⟩
  obtain ⟨items, hArray, hItems⟩ := Json.exists_ofText?_arrayText hValues
  rw [decode, hArray]
  change items.mapM (Identifiable.decoder.value .parsed) = _
  clear hArray hValues hObjects hDepth
  induction hItems with
  | nil => rfl
  | cons hFirst _ ih => rw [List.mapM_cons, List.mapM_cons, ih, decodeOne, hFirst]

theorem findSome?_decodeFault? :
    ts.findSome? decodeFault? = ts.findSome? fun t => faultOf? (decodeOne t) :=
  findSome?_eq_of_forall₂ (List.forall₂_same.mpr fun t ht => decodeFault?_of_object (hObjects t ht))

theorem findSome?_violation? (h : ts.mapM decodeOne = .ok es) :
    ts.findSome? violation? = es.findSome? fun i => faultOf? i.check := by
  have hEach := (List.forall₂_and_left ts es).mpr ⟨hObjects, mapM_eq_ok_iff.mp h⟩
  exact findSome?_eq_of_forall₂ (hEach.imp fun t i hi => violation?_of_object hi.1 hi.2)

theorem forall₂_read_iff :
    List.Forall₂ (fun t i => read t = .ok [i]) ts es ↔
      List.Forall₂ (fun t i => decodeOne t = .ok i) ts es ∧ ∀ i ∈ es, i.check = .ok () := by
  induction ts generalizing es with
  | nil => cases es <;> simp
  | cons t ts ih =>
    obtain ⟨hFirst, hRest⟩ := List.forall_mem_cons.mp hObjects
    cases es with
    | nil => simp
    | cons i es =>
      rw [List.forall₂_cons, List.forall₂_cons, List.forall_mem_cons, ih hRest,
        read_eq_ok_iff_of_object hFirst]
      exact and_and_and_comm

end Array

/-- An array of documents that are objects gives the entities of all of them if each of them is
read. Otherwise the first item that cannot be decoded decides the fault, whatever stands in front of
it, and if all can be decoded, the first one that breaks a rule. -/
theorem read_arrayText (hObjects : ∀ t ∈ ts, ∃ ms, Json.ofText? t = some (.object ms))
    (hDepth : ∀ t ∈ ts, ∀ v, Json.rawOfText? t = some v → v.depth < Json.maxLevels) :
    (∀ es, read (Json.arrayText ts) = .ok es ↔ List.Forall₂ (fun t i => read t = .ok [i]) ts es) ∧
      (∀ f, read (Json.arrayText ts) = .error (.decode f) ↔ ts.findSome? decodeFault? = some f) ∧
      (∀ v, read (Json.arrayText ts) = .error (.violation v) ↔
        ts.findSome? decodeFault? = none ∧ ts.findSome? violation? = some v) ∧
      ∀ t, ts = [t] → read (Json.arrayText ts) = read t := by
  rw [read_eq_settled, decode_arrayText hObjects hDepth]
  refine ⟨fun es => ?_, fun f => ?_, fun v => ?_, ?_⟩
  · rw [settled_eq_ok_iff, mapM_eq_ok_iff, checkAll_eq_ok_iff, forall₂_read_iff hObjects]
  · rw [settled_eq_decode_iff, findSome?_decodeFault? hObjects, ← faultOf?_mapM,
      faultOf?_eq_some_iff]
  · rw [settled_eq_violation_iff, findSome?_decodeFault? hObjects, ← faultOf?_mapM,
      faultOf?_eq_none_iff]
    constructor
    · rintro ⟨es, hDecode, hCheck⟩
      refine ⟨⟨es, hDecode⟩, ?_⟩
      rw [findSome?_violation? hObjects hDecode, ← faultOf?_checkAll, hCheck]
      rfl
    · rintro ⟨⟨es, hDecode⟩, hSome⟩
      rw [findSome?_violation? hObjects hDecode, ← faultOf?_checkAll, faultOf?_eq_some_iff] at hSome
      exact ⟨es, hDecode, hSome⟩
  · rintro t rfl
    rw [read_eq_settled t, decode_of_object (hObjects t (List.mem_singleton_self t)),
      List.mapM_cons, List.mapM_nil]
    cases decodeOne t <;> rfl

def overlong : String :=
  "\x7b\"modelType\": \"ConceptDescription\", \"id\": \"a\", \"administration\": \x7b\"version\": \"12345\"\x7d\x7d"

def nameless : String := " \x7b\"modelType\": \"ConceptDescription\"\x7d"

/-- The first item has a version that is too long, but the second one has no identifier. -/
theorem read_arrayText_of_nameless :
    (∀ t ∈ [overlong, nameless], ∃ ms, Json.ofText? t = some (.object ms)) ∧
      (∀ t ∈ [overlong, nameless], ∀ v, Json.rawOfText? t = some v → v.depth < Json.maxLevels) ∧
      read overlong = .error (.violation (.constraint (.versionTooLong "12345"))) ∧
      read (Json.arrayText [overlong, nameless]) = .error (.decode (.missingField "id")) := by
  have hOverlong : Json.rawOfText? overlong = some (.object [("modelType", .string "ConceptDescription"),
      ("id", .string "a"), ("administration", .object [("version", .string "12345")])]) := by
    cbv
  have hNameless : Json.rawOfText? nameless =
      some (.object [("modelType", .string "ConceptDescription")]) := by
    cbv
  have hObjects : ∀ t ∈ [overlong, nameless], ∃ ms, Json.ofText? t = some (.object ms) := by
    simp only [Json.ofText?_eq_map_rawOfText?, List.forall_mem_cons, hOverlong, hNameless,
      Option.map_some, Json.canonical_object]
    exact ⟨⟨_, rfl⟩, ⟨_, rfl⟩, fun _ h => absurd h List.not_mem_nil⟩
  have hDepth : ∀ t ∈ [overlong, nameless], ∀ v, Json.rawOfText? t = some v →
      v.depth < Json.maxLevels := by
    simp only [List.forall_mem_cons, hOverlong, hNameless, Option.some.injEq, forall_eq']
    exact ⟨by decide, by decide, fun _ h => absurd h List.not_mem_nil⟩
  obtain ⟨-, hDecode, -, -⟩ := read_arrayText hObjects hDepth
  refine ⟨hObjects, hDepth, by cbv, (hDecode _).mpr ?_⟩
  cbv

end Document

end AssetShell

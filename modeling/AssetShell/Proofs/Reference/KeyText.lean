import AssetShell.Proofs.Outcome
import AssetShell.Proofs.Text.Span
import AssetShell.Proofs.Text.Trimmed
import AssetShell.Reference.Key

/-!
# Keys as texts

The type of a key ends at the first equals sign of its text. The name of a key type consists of
letters, so it is found there as it stands, and the value behind it may hold anything. A text is a
key if and only if the part before its first equals sign is such a name between white space.
-/

namespace AssetShell

/-! ## Letters -/

theorem isWhiteSpace_of_isAlpha {c : Char} (h : c.isAlpha = true) : isWhiteSpace c = false := by
  have hRange : 65 ≤ c.toNat ∧ c.toNat ≤ 90 ∨ 97 ≤ c.toNat ∧ c.toNat ≤ 122 := by
    rcases Bool.or_eq_true_iff.mp h with hUpper | hLower
    · obtain ⟨hLow, hHigh⟩ := of_decide_eq_true hUpper
      exact .inl ⟨hLow, hHigh⟩
    · obtain ⟨hLow, hHigh⟩ := Bool.and_eq_true_iff.mp hLower
      exact .inr ⟨of_decide_eq_true hLow, of_decide_eq_true hHigh⟩
  simp only [isWhiteSpace, Bool.or_eq_false_iff, Bool.and_eq_false_iff, decide_eq_false_iff_not]
  omega

namespace KeyType

theorem isAlpha_of_mem_name {t : KeyType} : ∀ c ∈ t.name.toList, c.isAlpha = true := by
  have hAll : t.name.toList.all Char.isAlpha = true := by cases t <;> rfl
  exact List.all_eq_true.mp hAll

theorem trimmed_name (t : KeyType) : trimmed t.name.toList = t.name.toList :=
  trimmed_eq_self fun c hc => isWhiteSpace_of_isAlpha (isAlpha_of_mem_name c hc)

variable {t : KeyType} {name : String} {fault : NameFault}

theorem mark_not_mem_name : '=' ∉ t.name.toList := fun hMem => by
  cases isAlpha_of_mem_name '=' hMem

theorem ofName?_eq_some_iff : ofName? name = some t ↔ t.name = name := by
  constructor
  · intro h
    exact of_decide_eq_true (List.find?_some h :)
  · rintro rfl
    exact ofName?_name t

theorem ofName_eq_ok_iff : ofName name = .ok t ↔ t.name = name := by
  rw [← ofName?_eq_some_iff, ofName]
  cases ofName? name <;> simp

theorem ofName_eq_error_iff :
    ofName name = .error fault ↔ fault = .unknownKeyType name ∧ ∀ t : KeyType, t.name ≠ name := by
  have hNone : ofName? name = none ↔ ∀ t : KeyType, t.name ≠ name := by
    rw [Option.eq_none_iff_forall_ne_some]
    exact forall_congr' fun t => not_congr ofName?_eq_some_iff
  rw [← hNone, ofName]
  cases ofName? name <;> simp [eq_comm]

end KeyType

/-! ## The first equals sign -/

namespace Key

variable {s p value : String} {k : Key} {fault : NameFault}

theorem toList_marked : (p ++ "=" ++ value).toList = p.toList ++ '=' :: value.toList := by
  rw [String.toList_append, String.toList_append, List.append_assoc]
  rfl

theorem exists_first_mark (s : String) :
    '=' ∉ s.toList ∨ ∃ p value : String, s = p ++ "=" ++ value ∧ '=' ∉ p.toList := by
  by_cases hMem : '=' ∈ s.toList
  · obtain ⟨p, value, hText, hMark⟩ := List.eq_append_cons_of_mem hMem
    refine .inr ⟨String.ofList p, String.ofList value, ?_, ?_⟩
    · apply String.ext
      rw [toList_marked, String.toList_ofList, String.toList_ofList, hText]
    · rw [String.toList_ofList]
      exact hMark
  · exact .inl hMem

theorem ofText_of_no_mark (hMark : '=' ∉ s.toList) : ofText s = .error (.notAKey s) := by
  have hSpan : s.toList.span (· ≠ '=') = (s.toList, []) := by
    refine span_eq_iff.mpr ⟨(List.append_nil _).symm, ?_, fun c hc => by cases hc⟩
    exact fun c hc => decide_eq_true fun hEq => hMark (hEq ▸ hc)
  rw [ofText, hSpan]

theorem ofText_of_mark (hMark : '=' ∉ p.toList) :
    ofText (p ++ "=" ++ value) =
      (KeyType.ofName (String.ofList (trimmed p.toList))).map fun t => ⟨t, value⟩ := by
  have hSpan : (p ++ "=" ++ value).toList.span (· ≠ '=') = (p.toList, '=' :: value.toList) := by
    rw [toList_marked]
    apply span_append
    · exact fun c hc => decide_eq_true fun hEq => hMark (hEq ▸ hc)
    · intro c hc
      cases hc
      rfl
  rw [ofText, hSpan]
  cases h : KeyType.ofName (String.ofList (trimmed p.toList)) with
  | error fault => simp only [h, Except.map]
  | ok t => simp only [h, Except.map, String.ofList_toList]

/-! ## Spellings of a key -/

/-- Before the first equals sign of the text stands the name of the type, white space at its ends
aside, and behind it the value. -/
def Spelled (s : String) (k : Key) : Prop :=
  ∃ p : String, s = p ++ "=" ++ k.value ∧ '=' ∉ p.toList ∧
    String.ofList (trimmed p.toList) = k.type.name

theorem ofText_eq_ok_iff : ofText s = .ok k ↔ Spelled s k := by
  constructor
  · intro h
    rcases exists_first_mark s with hMark | ⟨p, value, rfl, hMark⟩
    · rw [ofText_of_no_mark hMark] at h
      cases h
    · rw [ofText_of_mark hMark] at h
      obtain ⟨t, ht, rfl⟩ := exists_of_map_eq_ok h
      exact ⟨p, rfl, hMark, (KeyType.ofName_eq_ok_iff.mp ht).symm⟩
  · rintro ⟨p, rfl, hMark, hName⟩
    rw [ofText_of_mark hMark, KeyType.ofName_eq_ok_iff.mpr hName.symm]
    rfl

theorem ofText_eq_error_iff :
    ofText s = .error fault ↔ (fault = .notAKey s ∧ '=' ∉ s.toList) ∨
      ∃ p value : String, s = p ++ "=" ++ value ∧ '=' ∉ p.toList ∧
        fault = .unknownKeyType (String.ofList (trimmed p.toList)) ∧
        ∀ t : KeyType, t.name ≠ String.ofList (trimmed p.toList) := by
  constructor
  · intro h
    rcases exists_first_mark s with hMark | ⟨p, value, rfl, hMark⟩
    · rw [ofText_of_no_mark hMark] at h
      cases h
      exact .inl ⟨rfl, hMark⟩
    · rw [ofText_of_mark hMark, map_eq_error_iff] at h
      exact .inr ⟨p, value, rfl, hMark, KeyType.ofName_eq_error_iff.mp h⟩
  · rintro (⟨rfl, hMark⟩ | ⟨p, value, rfl, hMark, hName⟩)
    · exact ofText_of_no_mark hMark
    · rw [ofText_of_mark hMark, map_eq_error_iff]
      exact KeyType.ofName_eq_error_iff.mpr hName

/-- White space is allowed around the name of the type, and nothing else. -/
theorem spelled_iff : Spelled s k ↔ ∃ before after : String,
    (∀ c ∈ before.toList, isWhiteSpace c = true) ∧ (∀ c ∈ after.toList, isWhiteSpace c = true) ∧
      s = before ++ k.type.name ++ after ++ "=" ++ k.value := by
  have hLetters : ∀ c ∈ k.type.name.toList, isWhiteSpace c = false :=
    fun c hc => isWhiteSpace_of_isAlpha (KeyType.isAlpha_of_mem_name c hc)
  constructor
  · rintro ⟨p, rfl, -, hName⟩
    have hTrimmed : trimmed p.toList = k.type.name.toList := by rw [← hName, String.toList_ofList]
    obtain ⟨before, after, hParts, hBefore, hAfter⟩ := (trimmed_eq_iff hLetters).mp hTrimmed
    refine ⟨String.ofList before, String.ofList after, ?_, ?_, ?_⟩
    · rw [String.toList_ofList]
      exact hBefore
    · rw [String.toList_ofList]
      exact hAfter
    · have hText : p = String.ofList before ++ k.type.name ++ String.ofList after := by
        apply String.ext
        rw [hParts, String.toList_append, String.toList_append, String.toList_ofList,
          String.toList_ofList]
      rw [hText]
  · rintro ⟨before, after, hBefore, hAfter, rfl⟩
    have hParts : (before ++ k.type.name ++ after).toList =
        before.toList ++ k.type.name.toList ++ after.toList := by
      rw [String.toList_append, String.toList_append]
    refine ⟨before ++ k.type.name ++ after, rfl, ?_, ?_⟩
    · rw [hParts]
      intro hMem
      rcases List.mem_append.mp hMem with hMem | hMem
      · rcases List.mem_append.mp hMem with hMem | hMem
        · cases hBefore '=' hMem
        · exact KeyType.mark_not_mem_name hMem
      · cases hAfter '=' hMem
    · rw [hParts, trimmed_append hBefore hLetters hAfter, String.ofList_toList]

/-- A text is read as a key if and only if it spells the key; whatever else it is, it is refused,
because it has no equals sign or because no type has the name before it. -/
theorem ofText_reads_spellings (s : String) :
    (∀ k, ofText s = .ok k ↔ Spelled s k) ∧
    (∀ k, ofText s = .ok k ↔ ∃ before after : String,
      (∀ c ∈ before.toList, isWhiteSpace c = true) ∧ (∀ c ∈ after.toList, isWhiteSpace c = true) ∧
        s = before ++ k.type.name ++ after ++ "=" ++ k.value) ∧
    ((∃ fault, ofText s = .error fault) ↔ ∀ k, ¬ Spelled s k) ∧
    ∀ fault, ofText s = .error fault ↔ (fault = .notAKey s ∧ '=' ∉ s.toList) ∨
      ∃ p value : String, s = p ++ "=" ++ value ∧ '=' ∉ p.toList ∧
        fault = .unknownKeyType (String.ofList (trimmed p.toList)) ∧
        ∀ t : KeyType, t.name ≠ String.ofList (trimmed p.toList) := by
  refine ⟨fun k => ofText_eq_ok_iff, fun k => ofText_eq_ok_iff.trans spelled_iff, ?_,
    fun fault => ofText_eq_error_iff⟩
  simp only [← ofText_eq_ok_iff]
  cases ofText s with
  | error fault => exact iff_of_true ⟨fault, rfl⟩ fun k h => by cases h
  | ok k =>
    refine iff_of_false ?_ fun h => h k rfl
    rintro ⟨fault, h⟩
    cases h

/-- A character of no width is no white space. -/
example : ofText "\u3000Submodel\t= a=b" = .ok ⟨.submodel, " a=b"⟩ ∧
    ofText "\u200bSubmodel=a" = .error (.unknownKeyType "\u200bSubmodel") := by decide

/-! ## The text of a key -/

/-- A key as one text. -/
def text (k : Key) : String := k.type.name ++ "=" ++ k.value

theorem toList_text (k : Key) : k.text.toList = k.type.name.toList ++ '=' :: k.value.toList :=
  toList_marked

theorem ofText_text (k : Key) : ofText k.text = .ok k := by
  refine ofText_eq_ok_iff.mpr ⟨k.type.name, rfl, KeyType.mark_not_mem_name, ?_⟩
  rw [k.type.trimmed_name, String.ofList_toList]

end Key

end AssetShell

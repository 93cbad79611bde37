import AssetShell.Proofs.Number.WrittenDecimal
import AssetShell.Proofs.Settings.Setting
import AssetShell.Settings.Variables

/-!
# Scalar values of variables

The value of a variable may read as a boolean, an integer or a number. No such value has a comma.
-/

namespace AssetShell

theorem comma_not_mem_of_map_toLower {cs word : List Char} (h : cs.map Char.toLower = word)
    (hWord : ',' ∉ word) : ',' ∉ cs := by
  rw [← h] at hWord
  exact fun hComma => hWord (List.mem_map_of_mem hComma)

theorem comma_not_mem_of_sameLetters {s t : String} (h : sameLetters s t = true)
    (ht : ',' ∉ t.toList.map Char.toLower) : ',' ∉ s.toList :=
  comma_not_mem_of_map_toLower (of_decide_eq_true h) ht

theorem IntegerText.comma_not_mem {cs : List Char} {t : IntegerText} (h : read? cs = some t) :
    ',' ∉ cs := by
  have hDenotes : DenotesInteger cs t.value := denotesInteger_iff.mpr ⟨t, h, rfl⟩
  intro hComma
  rcases hDenotes.mem ',' hComma with (hSign | hSign) | hDigit
  · cases hSign
  · cases hSign
  · cases hDigit

theorem FloatText.comma_not_mem {cs : List Char} {t : FloatText} (h : read? cs = some t) :
    ',' ∉ cs :=
  fun hComma => absurd (isFloatChar_of_read? h ',' hComma) (by decide)

namespace Variable

/-- The datum of a value that reads as a boolean, an integer or a number. -/
def scalar? (value : String) : Option Datum :=
  ((boolean? value).map .boolean).or (((integer? value).map .integer).or
    ((float? value).map .float))

theorem setting_of_scalar? {value : String} {v : Datum} (h : scalar? value = some v)
    (key : String) : setting key value = v := by
  rw [scalar?] at h
  rw [setting]
  generalize boolean? value = boolean at h ⊢
  generalize integer? value = integer at h ⊢
  generalize float? value = float at h ⊢
  cases boolean with
  | some b => exact Option.some.inj h
  | none =>
    cases integer with
    | some n => exact Option.some.inj h
    | none =>
      cases float with
      | some x => exact Option.some.inj h
      | none => cases h

theorem setting_of_not_scalar {key value : String} (h : scalar? value = none)
    (hKey : listKeys.contains key = true) :
    setting key value = .list ((splitText ',' value).map .text) := by
  rw [scalar?, Option.or_eq_none_iff, Option.or_eq_none_iff, Option.map_eq_none_iff,
    Option.map_eq_none_iff, Option.map_eq_none_iff] at h
  obtain ⟨hBoolean, hInteger, hFloat⟩ := h
  rw [setting, hBoolean, hInteger, hFloat]
  exact if_pos hKey

/-- A scalar is no list and no table. -/
theorem toTexts?_of_scalar? {value : String} {v : Datum} (h : scalar? value = some v) :
    ¬ v.IsTable ∧ v.toTexts? = none := by
  rw [scalar?] at h
  rcases Option.or_eq_some_iff.mp h with h | ⟨-, h⟩
  · obtain ⟨b, -, rfl⟩ := Option.map_eq_some_iff.mp h
    exact ⟨not_false, rfl⟩
  · rcases Option.or_eq_some_iff.mp h with h | ⟨-, h⟩
    · obtain ⟨n, -, rfl⟩ := Option.map_eq_some_iff.mp h
      exact ⟨not_false, rfl⟩
    · obtain ⟨x, -, rfl⟩ := Option.map_eq_some_iff.mp h
      exact ⟨not_false, rfl⟩

theorem comma_not_mem_of_boolean? {value : String} {b : Bool} (h : boolean? value = some b) :
    ',' ∉ value.toList := by
  rw [boolean?] at h
  split at h
  · rename_i hTrue
    exact comma_not_mem_of_sameLetters hTrue (by decide)
  · split at h
    · rename_i hFalse
      exact comma_not_mem_of_sameLetters hFalse (by decide)
    · cases h

theorem comma_not_mem_of_scalar? {value : String} {v : Datum} (h : scalar? value = some v) :
    ',' ∉ value.toList := by
  rw [scalar?] at h
  rcases Option.or_eq_some_iff.mp h with h | ⟨-, h⟩
  · obtain ⟨b, hBoolean, -⟩ := Option.map_eq_some_iff.mp h
    exact comma_not_mem_of_boolean? hBoolean
  · rcases Option.or_eq_some_iff.mp h with h | ⟨-, h⟩
    · obtain ⟨n, hInteger, -⟩ := Option.map_eq_some_iff.mp h
      obtain ⟨t, hRead, -⟩ := Option.bind_eq_some_iff.mp hInteger
      exact IntegerText.comma_not_mem hRead
    · obtain ⟨x, hFloat, -⟩ := Option.map_eq_some_iff.mp h
      obtain ⟨t, hRead, -⟩ := Option.map_eq_some_iff.mp hFloat
      exact FloatText.comma_not_mem hRead

end Variable

end AssetShell

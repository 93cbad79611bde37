import AssetShell.Literal.Check
import AssetShell.Proofs.Literal.Agreement
import AssetShell.Proofs.Number.WrittenDecimal

/-!
# Typed values of decimal literals

A decimal literal without an underscore and without a sign behind a point in front is also a literal
of a double. It then has the value of that double unless this is infinite. Every other decimal
literal is no literal of a double and stays a text.
-/

namespace AssetShell

namespace Binary64

/-- Rounding gives a number or overflows. -/
theorem ofRatio_finite_or_infinity (negative : Bool) (num den : Nat) :
    (ofRatio negative num den).isFinite = true ∨ ofRatio negative num den = infinity negative := by
  have hRounded (rounded : Nat × Int) (x : Binary64)
      (hx : x = if maxExponent < rounded.2 then infinity negative
        else finite negative rounded.1 rounded.2) : x.isFinite = true ∨ x = infinity negative := by
    rw [hx]
    split
    · exact .inr rfl
    · exact .inl rfl
  unfold ofRatio
  split
  · exact .inl rfl
  · exact hRounded _ _ rfl

theorem ofDecimal_finite_or_infinity (negative : Bool) (m : Nat) (e : Int) :
    (ofDecimal negative m e).isFinite = true ∨ ofDecimal negative m e = infinity negative := by
  simp only [ofDecimal]
  split
  · exact .inl rfl
  · split
    · exact .inr rfl
    · exact ofRatio_finite_or_infinity negative _ _

end Binary64

variable {raw : String}

namespace Literal

theorem check_decimal_iff :
    check .decimal raw = .ok () ↔ isDecimalLiteral raw.toList = true :=
  check_eq_ok_iff.trans accepted_iff

theorem check_double_iff :
    check .double raw = .ok () ↔ ∃ t, FloatText.read? raw.toList = some t :=
  check_eq_ok_iff.trans (accepted_iff.trans Option.isSome_iff_exists)

end Literal

namespace TypedValue

theorem ofLiteral_double (raw : String) :
    ofLiteral .double raw = (ofFloat? raw.toList).getD (.text raw) := rfl

theorem ofLiteral_decimal (raw : String) :
    ofLiteral .decimal raw = (ofDecimal? raw.toList).getD (.text raw) := rfl

theorem ofLiteral_decimal_of_unread (h : FloatText.read? raw.toList = none) :
    ofLiteral .decimal raw = .text raw := by
  rw [ofLiteral_decimal, ofDecimal?, h]
  rfl

theorem ofLiteral_decimal_of_read {t : DecimalText}
    (h : FloatText.read? raw.toList = some (.decimal t)) :
    ofLiteral .double raw = .float t.toBinary64 ∧
      ofLiteral .decimal raw =
        if t.toBinary64.isFinite then .float t.toBinary64 else .text raw := by
  rw [ofLiteral_double, ofLiteral_decimal, ofFloat?, ofDecimal?, h]
  refine ⟨rfl, ?_⟩
  show (if t.toBinary64.isFinite then some (TypedValue.float t.toBinary64) else none).getD _ = _
  split <;> rfl

/-- An accepted decimal literal is an accepted literal of a double exactly if it is written plainly.
Its value is then the finite value of the double, and a text where the double overflows. -/
theorem ofLiteral_decimal_of_check (h : Literal.check .decimal raw = .ok ()) :
    (Literal.check .double raw = .ok () ↔ IsPlainDecimal raw.toList) ∧
      (IsPlainDecimal raw.toList →
        (∃ x, x.isFinite = true ∧ ofLiteral .double raw = .float x ∧
          ofLiteral .decimal raw = .float x) ∨
        ∃ negative, ofLiteral .double raw = .float (.infinity negative) ∧
          ofLiteral .decimal raw = .text raw) ∧
      (¬ IsPlainDecimal raw.toList → ofLiteral .decimal raw = .text raw) := by
  have hLiteral := Literal.check_decimal_iff.mp h
  rw [Literal.check_double_iff]
  refine ⟨⟨?_, fun hPlain => ?_⟩, fun hPlain => ?_, fun hOther => ?_⟩
  · rintro ⟨t, hRead⟩
    exact FloatText.isPlainDecimal_of_read? hRead
  · obtain ⟨t, hRead⟩ := FloatText.exists_read?_of_plain hLiteral hPlain
    exact ⟨_, hRead⟩
  · obtain ⟨t, hRead⟩ := FloatText.exists_read?_of_plain hLiteral hPlain
    obtain ⟨hDouble, hDecimal⟩ := ofLiteral_decimal_of_read hRead
    rw [hDouble, hDecimal]
    rcases Binary64.ofDecimal_finite_or_infinity t.negative t.significand t.scaledExponent with
      hFinite | hInfinite
    · exact .inl ⟨t.toBinary64, hFinite, rfl, if_pos hFinite⟩
    · have hInfinite : t.toBinary64 = .infinity t.negative := hInfinite
      rw [hInfinite]
      exact .inr ⟨t.negative, rfl, rfl⟩
  · refine ofLiteral_decimal_of_unread (Option.eq_none_iff_forall_ne_some.mpr fun t hRead => ?_)
    exact hOther (FloatText.isPlainDecimal_of_read? hRead)

/-- One thousand with an underscore is a decimal literal that stays a text. -/
theorem ofLiteral_decimal_of_check_with_underscore :
    Literal.check .decimal "1_000" = .ok () ∧ Literal.check .double "1_000" ≠ .ok () ∧
      ofLiteral .decimal "1_000" = .text "1_000" := by
  have hDecimal : Literal.check .decimal "1_000" = .ok () := by decide
  have hOther : ¬ IsPlainDecimal "1_000".toList := fun hPlain => hPlain.1 (by decide)
  obtain ⟨hDouble, -, hText⟩ := ofLiteral_decimal_of_check hDecimal
  exact ⟨hDecimal, mt hDouble.mp hOther, hText hOther⟩

end TypedValue

end AssetShell

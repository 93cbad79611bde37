import AssetShell.Literal.Base64
import Mathlib.Data.String.Basic

/-!
# The order of bytes

Texts compare by their bytes as by their characters. Where two characters are written with equally
many bytes their numbers are compared digit by digit; a larger number of bytes has a larger first
byte. So the bytes of a text determine it.
-/

namespace AssetShell

variable {c d : Char} {cs ds : List Char} {s t : String}

theorem toNat_byte {n : Nat} (h : n < 256) : (UInt8.ofNat n).toNat = n := by
  rw [UInt8.toNat_ofNat', Nat.mod_eq_of_lt h]

theorem byte_lt_iff {m n : Nat} (hm : m < 256) (hn : n < 256) :
    UInt8.ofNat m < UInt8.ofNat n ↔ m < n := by
  rw [UInt8.lt_iff_toNat_lt, toNat_byte hm, toNat_byte hn]

theorem byte_eq_iff {m n : Nat} (hm : m < 256) (hn : n < 256) :
    UInt8.ofNat m = UInt8.ofNat n ↔ m = n := by
  rw [← UInt8.toNat_inj, toNat_byte hm, toNat_byte hn]

/-- Of two numbers the smaller one has the smaller digit at the first place where they differ. -/
theorem lt_sextets {m n : Nat} (h : m < n) :
    m / 262144 < n / 262144 ∨
      m / 262144 = n / 262144 ∧ (m / 4096 % 64 < n / 4096 % 64 ∨
        m / 4096 % 64 = n / 4096 % 64 ∧ (m / 64 % 64 < n / 64 % 64 ∨
          m / 64 % 64 = n / 64 % 64 ∧ m % 64 < n % 64)) := by
  by_cases hLast : m / 64 = n / 64
  · have hTwo : m / 4096 = n / 4096 := by omega
    have hFirst : m / 262144 = n / 262144 := by omega
    rw [hLast, hTwo, hFirst]
    omega
  · by_cases hTwo : m / 4096 = n / 4096
    · have hFirst : m / 262144 = n / 262144 := by omega
      rw [hTwo, hFirst]
      omega
    · by_cases hFirst : m / 262144 = n / 262144
      · rw [hFirst]
        omega
      · omega

theorem utf8EncodeChar_append_lt (h : c < d) (r u : List UInt8) :
    String.utf8EncodeChar c ++ r < String.utf8EncodeChar d ++ u := by
  have hLt : c.val.toNat < d.val.toNat := h
  have hBound : d.val.toNat < 1114112 := by
    rcases d.valid with h | h
    · exact h.trans (by decide)
    · exact h.2
  rw [String.utf8EncodeChar, String.utf8EncodeChar]
  generalize c.val.toNat = m at hLt
  generalize d.val.toNat = n at hLt hBound
  have hSextets := lt_sextets hLt
  -- The first byte has room for all of the first digit.
  have hm : m / 262144 % 8 = m / 262144 := Nat.mod_eq_of_lt (by omega)
  have hn : n / 262144 % 8 = n / 262144 := Nat.mod_eq_of_lt (by omega)
  split_ifs <;>
    simp (disch := omega) only [List.cons_append, List.nil_append, List.cons_lt_cons_iff,
      byte_lt_iff, byte_eq_iff] <;>
    omega

theorem flatMap_utf8EncodeChar_lt (h : cs < ds) :
    cs.flatMap String.utf8EncodeChar < ds.flatMap String.utf8EncodeChar := by
  induction cs generalizing ds with
  | nil =>
    cases ds with
    | nil => exact absurd h (List.lt_irrefl [])
    | cons d ds =>
      obtain ⟨b, r, hBytes⟩ := List.exists_cons_of_ne_nil (String.utf8EncodeChar_ne_nil (c := d))
      rw [List.flatMap_nil, List.flatMap_cons, hBytes, List.cons_append]
      exact List.nil_lt_cons _ _
  | cons c cs ih =>
    cases ds with
    | nil => exact absurd h (List.not_lt_nil _)
    | cons d ds =>
      rw [List.flatMap_cons, List.flatMap_cons]
      rcases List.cons_lt_cons_iff.mp h with hLt | ⟨rfl, hRest⟩
      · exact utf8EncodeChar_append_lt hLt _ _
      · exact List.append_left_lt (ih hRest)

theorem utf8Bytes_lt_of_lt (h : s < t) : utf8Bytes s < utf8Bytes t :=
  flatMap_utf8EncodeChar_lt (String.lt_iff_toList_lt.mp h)

theorem utf8Bytes_lt_iff : utf8Bytes s < utf8Bytes t ↔ s < t := by
  constructor
  · intro h
    rcases lt_trichotomy s t with hLt | rfl | hGt
    · exact hLt
    · exact absurd h (List.lt_irrefl _)
    · exact absurd h (List.lt_asymm (utf8Bytes_lt_of_lt hGt))
  · exact utf8Bytes_lt_of_lt

theorem utf8Bytes_injective : Function.Injective utf8Bytes := by
  intro s t h
  rcases lt_trichotomy s t with hLt | hEq | hGt
  · exact absurd (utf8Bytes_lt_of_lt hLt) (h ▸ List.lt_irrefl _)
  · exact hEq
  · exact absurd (utf8Bytes_lt_of_lt hGt) (h ▸ List.lt_irrefl _)

end AssetShell

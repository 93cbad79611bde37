import AssetShell.Model.Validation
import AssetShell.Proofs.Outcome
import AssetShell.Proofs.Text.ByteOrder

/-!
# Base64 literals

A text is a literal of base64 exactly if it is the padded encoding of some bytes, and these are the
bytes of a blob with that text. The bytes are read in full groups of four symbols, each of which
stands for three bytes, and a tail with two symbols at least, of which the unused bits are zero.
-/

namespace AssetShell

namespace Base64

/-! ## The encoding -/

def alphabet : String := "ABCDEFGHIJKLMNOPQRSTUVWXYZabcdefghijklmnopqrstuvwxyz0123456789+/"

def mark (sextet : Nat) : Char := alphabet.toList.getD sextet '='

/-- The bits of three bytes are cut in four pieces of six. Bits that are missing at the end are
zero, and marks without any bit are padding. -/
def marks : List UInt8 → List Char
  | [] => []
  | [a] => [mark (a.toNat / 4), mark (a.toNat % 4 * 16), '=', '=']
  | [a, b] =>
    [mark (a.toNat / 4), mark (a.toNat % 4 * 16 + b.toNat / 16), mark (b.toNat % 16 * 4), '=']
  | a :: b :: c :: r =>
    mark (a.toNat / 4) :: mark (a.toNat % 4 * 16 + b.toNat / 16)
      :: mark (b.toNat % 16 * 4 + c.toNat / 64) :: mark (c.toNat % 64) :: marks r

/-- The standard text of bytes, with padding. -/
def encoding (bytes : List UInt8) : String := String.ofList (marks bytes)

example : encoding (utf8Bytes "hello") = "aGVsbG8=" := by decide

variable {n : Nat} {byte : UInt8} {bytes text : List UInt8}

theorem utf8EncodeChar_mark : ∀ n < 64, String.utf8EncodeChar (mark n) = [symbol n] := by
  decide +kernel

theorem sextet?_symbol : ∀ n < 64, sextet? (symbol n) = some n := by decide

theorem symbol_ne_padding : ∀ n < 64, symbol n ≠ padding := by decide

theorem symbol_of_sextet?_ofNat :
    ∀ m < 256, ∀ n ∈ sextet? (UInt8.ofNat m), n < 64 ∧ UInt8.ofNat m = symbol n := by
  decide +kernel

theorem sextet_eq_ok_iff {offset : Nat} : sextet offset byte = .ok n ↔ n < 64 ∧ byte = symbol n := by
  rw [sextet]
  constructor
  · intro h
    split at h
    · rename_i hSextet
      cases h
      have hByte := symbol_of_sextet?_ofNat byte.toNat byte.toNat_lt n
      rw [UInt8.ofNat_toNat] at hByte
      exact hByte hSextet
    · cases h
  · rintro ⟨hn, rfl⟩
    rw [sextet?_symbol n hn]

theorem flatMap_marks (bytes : List UInt8) :
    (marks bytes).flatMap String.utf8EncodeChar = encode bytes := by
  have hPadding : String.utf8EncodeChar '=' = [padding] := by decide
  fun_induction marks bytes with
  | case1 => rfl
  | case2 a =>
    have ha := a.toNat_lt
    have hFirst : a.toNat * 16 / 64 = a.toNat / 4 := by omega
    have hSecond : a.toNat * 16 % 64 = a.toNat % 4 * 16 := by omega
    simp (disch := omega) only [List.flatMap_cons, List.flatMap_nil, List.singleton_append,
      utf8EncodeChar_mark, hPadding, encode, hFirst, hSecond]
  | case3 a b =>
    have ha := a.toNat_lt
    have hb := b.toNat_lt
    have hFirst : (a.toNat * 256 + b.toNat) * 4 / 4096 = a.toNat / 4 := by omega
    have hSecond : (a.toNat * 256 + b.toNat) * 4 / 64 % 64 = a.toNat % 4 * 16 + b.toNat / 16 := by
      omega
    have hThird : (a.toNat * 256 + b.toNat) * 4 % 64 = b.toNat % 16 * 4 := by omega
    simp (disch := omega) only [List.flatMap_cons, List.flatMap_nil, List.singleton_append,
      utf8EncodeChar_mark, hPadding, encode, hFirst, hSecond, hThird]
  | case4 a b c r ih =>
    have ha := a.toNat_lt
    have hb := b.toNat_lt
    have hc := c.toNat_lt
    have hFirst : ((a.toNat * 256 + b.toNat) * 256 + c.toNat) / 262144 = a.toNat / 4 := by omega
    have hSecond : ((a.toNat * 256 + b.toNat) * 256 + c.toNat) / 4096 % 64 =
        a.toNat % 4 * 16 + b.toNat / 16 := by
      omega
    have hThird : ((a.toNat * 256 + b.toNat) * 256 + c.toNat) / 64 % 64 =
        b.toNat % 16 * 4 + c.toNat / 64 := by
      omega
    have hFourth : ((a.toNat * 256 + b.toNat) * 256 + c.toNat) % 64 = c.toNat % 64 := by omega
    simp (disch := omega) only [List.flatMap_cons, List.singleton_append, utf8EncodeChar_mark, ih,
      encode, hFirst, hSecond, hThird, hFourth]

theorem utf8Bytes_encoding (bytes : List UInt8) : utf8Bytes (encoding bytes) = encode bytes := by
  rw [utf8Bytes, encoding, String.toList_ofList, flatMap_marks]

theorem length_encode_mod (bytes : List UInt8) : (encode bytes).length % 4 = 0 := by
  fun_induction encode bytes with
  | case1 => rfl
  | case2 => simp only [List.length_cons, List.length_nil]
  | case3 => simp only [List.length_cons, List.length_nil]
  | case4 a b c r _ ih =>
    simp only [List.length_cons]
    omega

/-! ## Full groups -/

theorem threeBytes_of_bytes (a b c : UInt8) :
    threeBytes ((a.toNat * 256 + b.toNat) * 256 + c.toNat) = [a, b, c] := by
  have ha := a.toNat_lt
  have hb := b.toNat_lt
  have hc := c.toNat_lt
  have hFirst : ((a.toNat * 256 + b.toNat) * 256 + c.toNat) / 65536 = a.toNat := by omega
  have hSecond : ((a.toNat * 256 + b.toNat) * 256 + c.toNat) / 256 % 256 = b.toNat := by omega
  have hThird : ((a.toNat * 256 + b.toNat) * 256 + c.toNat) % 256 = c.toNat := by omega
  rw [threeBytes, hFirst, hSecond, hThird, UInt8.ofNat_toNat, UInt8.ofNat_toNat, UInt8.ofNat_toNat]

section Sextets

variable {w x y z : Nat} (hw : w < 64) (hx : x < 64) (hy : y < 64) (hz : z < 64)
include hw hx hy hz

theorem encode_threeBytes (r : List UInt8) :
    encode (threeBytes (((w * 64 + x) * 64 + y) * 64 + z) ++ r) =
      symbol w :: symbol x :: symbol y :: symbol z :: encode r := by
  simp (disch := omega) only [threeBytes, List.cons_append, List.nil_append, encode, toNat_byte]
  generalize hn : ((w * 64 + x) * 64 + y) * 64 + z = n
  have hBytes : (n / 65536 * 256 + n / 256 % 256) * 256 + n % 256 = n := by omega
  have hFirst : n / 262144 = w := by omega
  have hSecond : n / 4096 % 64 = x := by omega
  have hThird : n / 64 % 64 = y := by omega
  have hFourth : n % 64 = z := by omega
  rw [hBytes, hFirst, hSecond, hThird, hFourth]

end Sextets

/-! ## Tails -/

namespace Tail

variable {start place k : Nat} {t t' : Tail} {l : List UInt8} {ns : List Nat}

theorem push_symbol (hn : n < 64) (ht : t.padded = 0) :
    t.push start place (symbol n) =
      .ok { t with sextets := t.sextets ++ [n], last := symbol n } := by
  rw [push, if_neg (symbol_ne_padding n hn), if_neg (not_not.mpr ht),
    sextet_eq_ok_iff.mpr ⟨hn, rfl⟩]
  rfl

theorem push_eq_ok (h : t.push start place byte = .ok t') :
    (byte = padding ∧ t'.sextets = t.sextets ∧ t'.padded = t.padded + 1) ∨
      (t.padded = 0 ∧ t'.padded = 0 ∧ ∃ n < 64, byte = symbol n ∧ t'.sextets = t.sextets ++ [n]) := by
  rw [push] at h
  split at h
  · rename_i hPadding
    split at h
    · cases h
    · cases h
      exact .inl ⟨hPadding, rfl, rfl⟩
  · split at h
    · cases h
    · rename_i hPadded
      rw [not_not] at hPadded
      cases hSextet : sextet (start + place) byte with
      | error fault =>
        rw [hSextet] at h
        cases h
      | ok n =>
        rw [hSextet] at h
        cases h
        obtain ⟨hn, hByte⟩ := sextet_eq_ok_iff.mp hSextet
        exact .inr ⟨hPadded, hPadded, n, hn, hByte, rfl⟩

/-- Symbols and then padding, as they are added to what was read before. -/
structure Adds (t t' : Tail) (l : List UInt8) (ns : List Nat) (k : Nat) : Prop where
  text : l = ns.map symbol ++ List.replicate k padding
  inRange : ∀ n ∈ ns, n < 64
  sextets : t'.sextets = t.sextets ++ ns
  padded : t'.padded = t.padded + k

theorem exists_adds_of_read (h : read start place t l = .ok t') :
    ∃ ns k, Adds t t' l ns k ∧ (t.padded ≠ 0 → ns = []) := by
  induction l generalizing place t with
  | nil =>
    cases h
    exact ⟨[], 0, ⟨rfl, List.forall_mem_nil _, (List.append_nil _).symm, rfl⟩, fun _ => rfl⟩
  | cons byte r ih =>
    rw [read] at h
    cases hPush : t.push start place byte with
    | error fault =>
      rw [hPush] at h
      cases h
    | ok next =>
      rw [hPush] at h
      obtain ⟨ns, k, hAdds, hBehind⟩ := ih h
      rcases push_eq_ok hPush with ⟨rfl, hSextets, hPadded⟩ | ⟨hNone, hPadded, n, hn, rfl, hSextets⟩
      · obtain rfl := hBehind (by omega)
        refine ⟨[], k + 1, ⟨?_, List.forall_mem_nil _, ?_, ?_⟩, fun _ => rfl⟩
        · rw [hAdds.text]
          rfl
        · rw [hAdds.sextets, hSextets]
        · rw [hAdds.padded, hPadded]
          omega
      · refine ⟨n :: ns, k, ⟨?_, List.forall_mem_cons.mpr ⟨hn, hAdds.inRange⟩, ?_, ?_⟩, ?_⟩
        · rw [hAdds.text]
          rfl
        · rw [hAdds.sextets, hSextets, List.append_assoc, List.singleton_append]
        · rw [hAdds.padded, hPadded, hNone]
        · exact fun hSome => absurd hNone hSome

theorem exists_read_padding (start : Nat) (hPlace : 2 ≤ place) (t : Tail) (k : Nat) :
    ∃ t', read start place t (List.replicate k padding) = .ok t' ∧ t'.sextets = t.sextets ∧
      t'.padded = t.padded + k := by
  induction k generalizing place t with
  | zero => exact ⟨t, rfl, rfl, rfl⟩
  | succ k ih =>
    obtain ⟨next, hPush, hSextets, hPadded⟩ : ∃ next, t.push start place padding = .ok next ∧
        next.sextets = t.sextets ∧ next.padded = t.padded + 1 := by
      rw [push, if_pos rfl, if_neg (by omega)]
      exact ⟨_, rfl, rfl, rfl⟩
    obtain ⟨t', hRead, hSame, hCount⟩ := ih (by omega : 2 ≤ place + 1) next
    refine ⟨t', ?_, hSame.trans hSextets, ?_⟩
    · rw [List.replicate_succ, read, hPush]
      exact hRead
    · rw [hCount, hPadded]
      omega

theorem exists_read_symbols (start place : Nat) (t : Tail) (hns : ∀ n ∈ ns, n < 64)
    (ht : t.padded = 0) :
    ∃ t', (∀ l, read start place t (ns.map symbol ++ l) = read start (place + ns.length) t' l) ∧
      t'.sextets = t.sextets ++ ns ∧ t'.padded = 0 := by
  induction ns generalizing place t with
  | nil => exact ⟨t, fun _ => rfl, (List.append_nil _).symm, ht⟩
  | cons n ns ih =>
    obtain ⟨hn, hRest⟩ := List.forall_mem_cons.mp hns
    obtain ⟨t', hRead, hSextets, hPadded⟩ :=
      ih (place + 1) { t with sextets := t.sextets ++ [n], last := symbol n } hRest ht
    refine ⟨t', ?_, ?_, hPadded⟩
    · intro l
      rw [List.map_cons, List.cons_append, read, push_symbol hn ht, List.length_cons,
        Nat.add_comm ns.length, ← Nat.add_assoc]
      exact hRead l
    · rw [hSextets, List.append_assoc, List.singleton_append]

theorem exists_read (start : Nat) (hns : ∀ n ∈ ns, n < 64) (hLength : 2 ≤ ns.length) (k : Nat) :
    ∃ t', read start 0 {} (ns.map symbol ++ List.replicate k padding) = .ok t' ∧
      t'.sextets = ns ∧ t'.padded = k := by
  obtain ⟨t, hRead, hSextets, hPadded⟩ := exists_read_symbols start 0 {} hns rfl
  obtain ⟨t', hPadding, hSame, hCount⟩ :=
    exists_read_padding start (by omega : 2 ≤ 0 + ns.length) t k
  refine ⟨t', (hRead _).trans hPadding, hSame.trans hSextets, ?_⟩
  rw [hCount, hPadded, Nat.zero_add]

/-! ### The bytes of a tail -/

theorem encode_of_two {a b : Nat} (ha : a < 64) (hb : b < 64) (hUnused : (a * 64 + b) % 16 = 0) :
    encode [.ofNat ((a * 64 + b) / 16)] = [symbol a, symbol b, padding, padding] := by
  have hFirst : (a * 64 + b) / 16 * 16 / 64 = a := by omega
  have hSecond : (a * 64 + b) / 16 * 16 % 64 = b := by omega
  rw [encode, toNat_byte (by omega), hFirst, hSecond]

theorem encode_of_three {a b c : Nat} (ha : a < 64) (hb : b < 64) (hc : c < 64)
    (hUnused : ((a * 64 + b) * 64 + c) % 4 = 0) :
    encode [.ofNat (((a * 64 + b) * 64 + c) / 1024), .ofNat (((a * 64 + b) * 64 + c) / 4 % 256)] =
      [symbol a, symbol b, symbol c, padding] := by
  rw [encode, toNat_byte (by omega), toNat_byte (by omega)]
  generalize hn : (a * 64 + b) * 64 + c = n at hUnused
  have hBytes : (n / 1024 * 256 + n / 4 % 256) * 4 = n := by omega
  have hFirst : n / 4096 = a := by omega
  have hSecond : n / 64 % 64 = b := by omega
  have hThird : n % 64 = c := by omega
  rw [hBytes, hFirst, hSecond, hThird]

/-- A tail has two symbols at least, padding up to four, and no stray bits. -/
theorem bytes_eq_ok_iff :
    t.bytes start = .ok bytes ↔
      (∃ a b, t.sextets = [a, b] ∧ t.padded = 2 ∧ (a * 64 + b) % 16 = 0 ∧
        bytes = [.ofNat ((a * 64 + b) / 16)]) ∨
      (∃ a b c, t.sextets = [a, b, c] ∧ t.padded = 1 ∧ ((a * 64 + b) * 64 + c) % 4 = 0 ∧
        bytes = [.ofNat (((a * 64 + b) * 64 + c) / 1024),
          .ofNat (((a * 64 + b) * 64 + c) / 4 % 256)]) ∨
      ∃ a b c d, t.sextets = [a, b, c, d] ∧ t.padded = 0 ∧
        bytes = threeBytes (((a * 64 + b) * 64 + c) * 64 + d) := by
  rw [Tail.bytes]
  constructor
  · intro h
    split at h
    · cases h
    · split at h
      · cases h
      · rename_i hTwo hFour
        rw [not_not] at hFour
        simp only at h
        split at h
        · rename_i a b hSextets
          rw [hSextets, List.length_cons, List.length_singleton] at hFour
          split at h
          · cases h
          · rename_i hUnused
            cases h
            exact .inl ⟨a, b, hSextets, by omega, not_not.mp hUnused, rfl⟩
        · rename_i a b c hSextets
          rw [hSextets, List.length_cons, List.length_cons, List.length_singleton] at hFour
          split at h
          · cases h
          · rename_i hUnused
            cases h
            exact .inr (.inl ⟨a, b, c, hSextets, by omega, not_not.mp hUnused, rfl⟩)
        · rename_i a b c d hSextets
          rw [hSextets, List.length_cons, List.length_cons, List.length_cons,
            List.length_singleton] at hFour
          cases h
          exact .inr (.inr ⟨a, b, c, d, hSextets, by omega, rfl⟩)
        · rename_i hNotTwo hNotThree hNotFour
          -- With the padding there are four places, so the sextets are two, three or four.
          match hSextets : t.sextets with
          | [] => simp [hSextets] at hTwo
          | [a] => simp [hSextets] at hTwo
          | [a, b] => exact absurd hSextets (hNotTwo a b)
          | [a, b, c] => exact absurd hSextets (hNotThree a b c)
          | [a, b, c, d] => exact absurd hSextets (hNotFour a b c d)
          | a :: b :: c :: d :: e :: r =>
            rw [hSextets] at hFour
            simp only [List.length_cons] at hFour
            omega
  · rintro (⟨a, b, hSextets, hPadded, hUnused, rfl⟩ | ⟨a, b, c, hSextets, hPadded, hUnused, rfl⟩ |
      ⟨a, b, c, d, hSextets, hPadded, rfl⟩)
    · simp [hSextets, hPadded, hUnused]
    · simp [hSextets, hPadded, hUnused]
    · simp [hSextets, hPadded]

end Tail

/-- The bytes of the last four places. -/
def decodeTail (start : Nat) (tail : List UInt8) : Except Fault (List UInt8) := do
  (← Tail.read start 0 {} tail).bytes start

variable {start : Nat} {tail : List UInt8}

theorem encode_of_decodeTail (h : decodeTail start tail = .ok bytes) : tail = encode bytes := by
  rw [decodeTail] at h
  cases hRead : Tail.read start 0 {} tail with
  | error fault =>
    rw [hRead] at h
    cases h
  | ok t =>
    rw [hRead] at h
    obtain ⟨ns, k, hAdds, -⟩ := Tail.exists_adds_of_read hRead
    obtain rfl : t.sextets = ns := hAdds.sextets
    obtain rfl : t.padded = k := hAdds.padded.trans (Nat.zero_add k)
    have hRange := hAdds.inRange
    rw [hAdds.text]
    rcases Tail.bytes_eq_ok_iff.mp h with ⟨a, b, hSextets, hPadded, hUnused, rfl⟩ |
      ⟨a, b, c, hSextets, hPadded, hUnused, rfl⟩ | ⟨a, b, c, d, hSextets, hPadded, rfl⟩
    · rw [hSextets] at hRange ⊢
      rw [hPadded, Tail.encode_of_two (hRange a (by simp)) (hRange b (by simp)) hUnused]
      rfl
    · rw [hSextets] at hRange ⊢
      rw [hPadded, Tail.encode_of_three (hRange a (by simp)) (hRange b (by simp))
        (hRange c (by simp)) hUnused]
      rfl
    · rw [hSextets] at hRange ⊢
      have hEncode := encode_threeBytes (hRange a (by simp)) (hRange b (by simp))
        (hRange c (by simp)) (hRange d (by simp)) []
      rw [List.append_nil] at hEncode
      rw [hPadded, hEncode]
      rfl

theorem decodeTail_of_read (ns : List Nat) (k : Nat) (hns : ∀ n ∈ ns, n < 64)
    (hLength : 2 ≤ ns.length)
    (h : ∀ t : Tail, t.sextets = ns → t.padded = k → t.bytes start = .ok bytes) :
    decodeTail start (ns.map symbol ++ List.replicate k padding) = .ok bytes := by
  obtain ⟨t, hRead, hSextets, hPadded⟩ := Tail.exists_read start hns hLength k
  rw [decodeTail, hRead]
  exact h t hSextets hPadded

theorem decodeTail_encode_one (start : Nat) (a : UInt8) :
    decodeTail start (encode [a]) = .ok [a] := by
  have ha := a.toNat_lt
  have hValue : (a.toNat * 16 / 64 * 64 + a.toNat * 16 % 64) = a.toNat * 16 := by omega
  apply decodeTail_of_read [a.toNat * 16 / 64, a.toNat * 16 % 64] 2
  · simp only [List.mem_cons, List.not_mem_nil, or_false, forall_eq_or_imp, forall_eq]
    omega
  · exact Nat.le_refl 2
  · intro t hSextets hPadded
    refine Tail.bytes_eq_ok_iff.mpr (.inl ⟨_, _, hSextets, hPadded, ?_, ?_⟩)
    · omega
    · rw [hValue, Nat.mul_div_cancel _ (by omega), UInt8.ofNat_toNat]

theorem decodeTail_encode_two (start : Nat) (a b : UInt8) :
    decodeTail start (encode [a, b]) = .ok [a, b] := by
  have ha := a.toNat_lt
  have hb := b.toNat_lt
  generalize hn : (a.toNat * 256 + b.toNat) * 4 = n
  have hValue : (n / 4096 * 64 + n / 64 % 64) * 64 + n % 64 = n := by omega
  rw [encode, hn]
  apply decodeTail_of_read [n / 4096, n / 64 % 64, n % 64] 1
  · simp only [List.mem_cons, List.not_mem_nil, or_false, forall_eq_or_imp, forall_eq]
    omega
  · exact Nat.le_succ 2
  · intro t hSextets hPadded
    refine Tail.bytes_eq_ok_iff.mpr (.inr (.inl ⟨_, _, _, hSextets, hPadded, ?_, ?_⟩))
    · omega
    · have hFirst : n / 1024 = a.toNat := by omega
      have hSecond : n / 4 % 256 = b.toNat := by omega
      rw [hValue, hFirst, hSecond, UInt8.ofNat_toNat, UInt8.ofNat_toNat]

theorem decodeTail_encode_three (start : Nat) (a b c : UInt8) :
    decodeTail start (encode [a, b, c]) = .ok [a, b, c] := by
  have ha := a.toNat_lt
  have hb := b.toNat_lt
  have hc := c.toNat_lt
  rw [← threeBytes_of_bytes a b c, threeBytes_of_bytes, encode, encode]
  generalize hn : (a.toNat * 256 + b.toNat) * 256 + c.toNat = n
  have hValue : ((n / 262144 * 64 + n / 4096 % 64) * 64 + n / 64 % 64) * 64 + n % 64 = n := by omega
  apply decodeTail_of_read [n / 262144, n / 4096 % 64, n / 64 % 64, n % 64] 0
  · simp only [List.mem_cons, List.not_mem_nil, or_false, forall_eq_or_imp, forall_eq]
    omega
  · exact Nat.le_add_right 2 2
  · intro t hSextets hPadded
    refine Tail.bytes_eq_ok_iff.mpr (.inr (.inr ⟨_, _, _, _, hSextets, hPadded, ?_⟩))
    rw [hValue, ← hn, threeBytes_of_bytes]

/-! ## All of a text -/

theorem decodeFrom_of_short (hLength : text.length ≤ 4) (hSome : text ≠ []) :
    decodeFrom start text = decodeTail start text := by
  match text with
  | [] => exact absurd rfl hSome
  | [_] => rfl
  | [_, _] => rfl
  | [_, _, _] => rfl
  | [_, _, _, _] => rfl
  | _ :: _ :: _ :: _ :: _ :: _ =>
    simp only [List.length_cons] at hLength
    omega

theorem encode_of_decodeFrom (h : decodeFrom start text = .ok bytes) : text = encode bytes := by
  induction start, text using decodeFrom.induct generalizing bytes with
  | case1 =>
    cases h
    rfl
  | case2 start a b c d e r ih =>
    rw [decodeFrom] at h
    obtain ⟨w, hW, h⟩ := exists_of_bind_eq_ok h
    obtain ⟨x, hX, h⟩ := exists_of_bind_eq_ok h
    obtain ⟨y, hY, h⟩ := exists_of_bind_eq_ok h
    obtain ⟨z, hZ, h⟩ := exists_of_bind_eq_ok h
    obtain ⟨rest, hRest, h⟩ := exists_of_bind_eq_ok h
    cases h
    obtain ⟨hw, rfl⟩ := sextet_eq_ok_iff.mp hW
    obtain ⟨hx, rfl⟩ := sextet_eq_ok_iff.mp hX
    obtain ⟨hy, rfl⟩ := sextet_eq_ok_iff.mp hY
    obtain ⟨hz, rfl⟩ := sextet_eq_ok_iff.mp hZ
    rw [encode_threeBytes hw hx hy hz, ih hRest]
  | case3 start tail hSome hShort =>
    have hLength : tail.length ≤ 4 := by
      match tail with
      | [] | [_] | [_, _] | [_, _, _] | [_, _, _, _] => simp
      | a :: b :: c :: d :: e :: r => exact (hShort a b c d e r rfl).elim
    rw [decodeFrom_of_short hLength hSome] at h
    exact encode_of_decodeTail h

/-- A group of four symbols that more bytes follow. -/
theorem decodeFrom_group {w x y z : Nat} (hw : w < 64) (hx : x < 64) (hy : y < 64) (hz : z < 64)
    (hText : text ≠ []) (h : decodeFrom (start + 4) text = .ok bytes) :
    decodeFrom start (symbol w :: symbol x :: symbol y :: symbol z :: text) =
      .ok (threeBytes (((w * 64 + x) * 64 + y) * 64 + z) ++ bytes) := by
  obtain ⟨e, r, rfl⟩ := List.exists_cons_of_ne_nil hText
  rw [decodeFrom, sextet_eq_ok_iff.mpr ⟨hw, rfl⟩, sextet_eq_ok_iff.mpr ⟨hx, rfl⟩,
    sextet_eq_ok_iff.mpr ⟨hy, rfl⟩, sextet_eq_ok_iff.mpr ⟨hz, rfl⟩, h]
  rfl

theorem encode_ne_nil (h : bytes ≠ []) : encode bytes ≠ [] := by
  match bytes with
  | [] => exact absurd rfl h
  | [a] => exact List.cons_ne_nil _ _
  | [a, b] => exact List.cons_ne_nil _ _
  | a :: b :: c :: r => exact List.cons_ne_nil _ _

theorem decodeFrom_encode (start : Nat) (bytes : List UInt8) :
    decodeFrom start (encode bytes) = .ok bytes := by
  induction bytes using encode.induct generalizing start with
  | case1 => rfl
  | case2 a => exact decodeTail_encode_one start a
  | case3 a b => exact decodeTail_encode_two start a b
  | case4 a b c r ih =>
    by_cases hr : r = []
    · subst hr
      exact decodeTail_encode_three start a b c
    · have ha := a.toNat_lt
      have hb := b.toNat_lt
      have hc := c.toNat_lt
      rw [encode, decodeFrom_group (by omega) (by omega) (by omega) (by omega) (encode_ne_nil hr)
        (ih (start + 4))]
      have hValue (n : Nat) (hn : n < 16777216) :
          ((n / 262144 * 64 + n / 4096 % 64) * 64 + n / 64 % 64) * 64 + n % 64 = n := by omega
      rw [hValue _ (by omega), threeBytes_of_bytes]
      rfl

theorem strayLast?_encode (bytes : List UInt8) : strayLast? (encode bytes) = none := by
  have hLength := length_encode_mod bytes
  rw [strayLast?]
  split
  · rfl
  · exact if_neg fun h => by omega

theorem decode_eq_ok_iff : decode text = .ok bytes ↔ text = encode bytes := by
  rw [decode]
  constructor
  · intro h
    split at h
    · cases h
    · exact encode_of_decodeFrom h
  · rintro rfl
    rw [strayLast?_encode]
    exact decodeFrom_encode 0 bytes

theorem encode_injective : Function.Injective encode := by
  intro a b h
  have ha := decode_eq_ok_iff.mpr (rfl : encode a = encode a)
  rw [decode_eq_ok_iff.mpr h] at ha
  exact (Except.ok.inj ha).symm

/-- A text has the bytes of an encoding exactly if it is that encoding. -/
theorem utf8Bytes_eq_encode_iff {s : String} : utf8Bytes s = encode bytes ↔ s = encoding bytes := by
  rw [← utf8Bytes_encoding]
  exact utf8Bytes_injective.eq_iff

theorem encoding_injective : Function.Injective encoding := by
  intro a b h
  apply encode_injective
  rw [← utf8Bytes_encoding, h, utf8Bytes_encoding]

end Base64

/-! ## The check of a blob and its bytes -/

open Base64

variable {raw : String} {bytes : List UInt8}

theorem base64Defect?_eq_none_iff {text : List UInt8} :
    Literal.base64Defect? text = none ↔ ∃ bytes, text = encode bytes := by
  simp only [Literal.base64Defect?, ← decode_eq_ok_iff]
  cases decode text <;> simp

theorem check_base64_iff :
    Literal.check .base64Binary raw = .ok () ↔ ∃ bytes, raw = encoding bytes := by
  simp only [← utf8Bytes_eq_encode_iff]
  exact Literal.check_eq_ok_iff.trans base64Defect?_eq_none_iff

namespace Blob

theorem decoded_eq_ok_iff (b : Blob) : b.decoded = .ok bytes ↔ b.value = encoding bytes := by
  rw [← utf8Bytes_eq_encode_iff, ← decode_eq_ok_iff, decoded]
  cases decode (utf8Bytes b.value) <;> simp

/-- The fault is made in two places, from the same answer of the reader. -/
theorem check_eq_error_iff_decoded (b : Blob) (f : LiteralFault) :
    Literal.check .base64Binary b.value = .error f ↔ b.decoded = .error f := by
  have hDefect : Literal.defect? .base64Binary b.value = Literal.base64Defect? (utf8Bytes b.value) :=
    rfl
  rw [Literal.check, hDefect, Literal.base64Defect?, decoded]
  cases decode (utf8Bytes b.value) <;> simp

theorem fault_of_decoded {b : Blob} {f : LiteralFault} (h : b.decoded = .error f) :
    f.datatype = .base64Binary ∧ f.raw = b.value ∧ f.rule = "format-error" := by
  rw [decoded] at h
  split at h
  · cases h
  · cases h
    exact ⟨rfl, rfl, rfl⟩

/-- The text of a blob is accepted exactly if it is the encoding of some bytes, and then these are
the bytes of the blob. Any other text has the wrong form, for the check and for the reader of the
bytes alike. -/
theorem decoded_agrees_with_check (b : Blob) :
    (Literal.check .base64Binary b.value = .ok () ↔ ∃! bytes, b.value = encoding bytes) ∧
      (∀ bytes, b.decoded = .ok bytes ↔ b.value = encoding bytes) ∧
      (∀ bytes, Literal.check .base64Binary (encoding bytes) = .ok () ∧
        { b with value := encoding bytes }.decoded = .ok bytes) ∧
      ((¬ ∃ bytes, b.value = encoding bytes) ↔
        ∃ f, Literal.check .base64Binary b.value = .error f ∧ b.decoded = .error f ∧
          f.datatype = .base64Binary ∧ f.raw = b.value ∧ f.rule = "format-error") := by
  refine ⟨?_, fun _ => b.decoded_eq_ok_iff, fun bytes => ?_, ?_⟩
  · rw [check_base64_iff]
    constructor
    · rintro ⟨bytes, hValue⟩
      exact ⟨bytes, hValue, fun other hOther => encoding_injective (hOther.symm.trans hValue)⟩
    · exact ExistsUnique.exists
  · exact ⟨check_base64_iff.mpr ⟨bytes, rfl⟩, (decoded_eq_ok_iff _).mpr rfl⟩
  · constructor
    · intro hNone
      cases hDecoded : b.decoded with
      | ok bytes => exact absurd ⟨bytes, b.decoded_eq_ok_iff.mp hDecoded⟩ hNone
      | error f =>
        exact ⟨f, (b.check_eq_error_iff_decoded f).mpr hDecoded, rfl, fault_of_decoded hDecoded⟩
    · rintro ⟨f, -, hDecoded, -⟩ ⟨bytes, hValue⟩
      rw [b.decoded_eq_ok_iff.mpr hValue] at hDecoded
      cases hDecoded

end Blob

end AssetShell

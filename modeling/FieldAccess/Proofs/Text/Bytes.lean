/-
  Texts are ordered as their bytes are.

  1. **Digits** — beyond the first byte, the bytes of a character in UTF-8 are digits to the base 64,
     the highest first.  Two numbers that agree above some digits are ordered as these are.

  2. **Characters** — a character takes one to four bytes, and the more it takes, the larger the first
     of them.  So the bytes of two characters differ before either ends, and `encode_lt_encode` holds
     whatever follows them.

  3. **Texts** — `bytes_lt_iff`: to compare two texts character by character is to compare their bytes.

  Core only.
-/

namespace FieldAccess.Text

/-! ## Digits -/

/-- A byte, and what follows it. -/
theorem byte_cons_lt {m n : Nat} {as bs : List UInt8} (hn : n < 256)
    (h : m < n ∨ m = n ∧ as < bs) : UInt8.ofNat m :: as < UInt8.ofNat n :: bs := by
  rw [List.cons_lt_cons_iff]
  rcases h with h | ⟨rfl, h⟩
  · have hm : m < UInt8.size := Nat.lt_trans h hn
    exact Or.inl ((UInt8.ofNat_lt_iff_lt hm hn).2 h)
  · exact Or.inr ⟨rfl, h⟩

section Digits

variable {v w : Nat} (hlt : v < w) (as bs : List UInt8)

include hlt

theorem last_byte_lt (he : v / 64 = w / 64) :
    UInt8.ofNat (v % 64 + 128) :: as < UInt8.ofNat (w % 64 + 128) :: bs :=
  byte_cons_lt (by omega) (Or.inl (by omega))

theorem last_two_bytes_lt (he : v / 4096 = w / 4096) :
    UInt8.ofNat (v / 64 % 64 + 128) :: UInt8.ofNat (v % 64 + 128) :: as <
      UInt8.ofNat (w / 64 % 64 + 128) :: UInt8.ofNat (w % 64 + 128) :: bs := by
  refine byte_cons_lt (by omega) ?_
  by_cases hd : v / 64 = w / 64
  · exact Or.inr ⟨by rw [hd], last_byte_lt hlt as bs hd⟩
  · exact Or.inl (by omega)

theorem last_three_bytes_lt (he : v / 262144 = w / 262144) :
    UInt8.ofNat (v / 4096 % 64 + 128) :: UInt8.ofNat (v / 64 % 64 + 128) ::
        UInt8.ofNat (v % 64 + 128) :: as <
      UInt8.ofNat (w / 4096 % 64 + 128) :: UInt8.ofNat (w / 64 % 64 + 128) ::
        UInt8.ofNat (w % 64 + 128) :: bs := by
  refine byte_cons_lt (by omega) ?_
  by_cases hd : v / 4096 = w / 4096
  · exact Or.inr ⟨by rw [hd], last_two_bytes_lt hlt as bs hd⟩
  · exact Or.inl (by omega)

end Digits

/-! ## Characters -/

theorem toNat_lt (c : Char) : c.val.toNat < 1114112 := by
  rcases c.valid with h | ⟨-, h⟩
  · exact Nat.lt_trans h (by decide)
  · exact h

/-- The smaller of two characters comes first in bytes, whatever follows. -/
theorem encode_lt_encode {c d : Char} (h : c < d) (as bs : List UInt8) :
    String.utf8EncodeChar c ++ as < String.utf8EncodeChar d ++ bs := by
  have hlt : c.val.toNat < d.val.toNat := h
  have hmax := toNat_lt d
  unfold String.utf8EncodeChar
  dsimp only
  generalize c.val.toNat = v at hlt
  generalize d.val.toNat = w at hlt hmax
  -- by the bytes of the smaller one, then by those of the larger one
  by_cases hv1 : v ≤ 127
  · rw [if_pos hv1]
    split
    · exact byte_cons_lt (by omega) (Or.inl hlt)
    · split
      · exact byte_cons_lt (by omega) (Or.inl (by omega))
      · split <;> exact byte_cons_lt (by omega) (Or.inl (by omega))
  rw [if_neg hv1, if_neg (show ¬ w ≤ 127 by omega)]
  by_cases hv2 : v ≤ 2047
  · rw [if_pos hv2]
    split
    · refine byte_cons_lt (by omega) ?_
      by_cases hd : v / 64 = w / 64
      · exact Or.inr ⟨by rw [hd], last_byte_lt hlt as bs hd⟩
      · exact Or.inl (by omega)
    · split <;> exact byte_cons_lt (by omega) (Or.inl (by omega))
  rw [if_neg hv2, if_neg (show ¬ w ≤ 2047 by omega)]
  by_cases hv3 : v ≤ 65535
  · rw [if_pos hv3]
    split
    · refine byte_cons_lt (by omega) ?_
      by_cases hd : v / 4096 = w / 4096
      · exact Or.inr ⟨by rw [hd], last_two_bytes_lt hlt as bs hd⟩
      · exact Or.inl (by omega)
    · exact byte_cons_lt (by omega) (Or.inl (by omega))
  rw [if_neg hv3, if_neg (show ¬ w ≤ 65535 by omega)]
  refine byte_cons_lt (by omega) ?_
  by_cases hd : v / 262144 = w / 262144
  · exact Or.inr ⟨by rw [hd], last_three_bytes_lt hlt as bs hd⟩
  · exact Or.inl (by omega)

/-! ## Texts -/

/-- The bytes of a text in UTF-8. -/
def bytes (s : String) : List UInt8 := s.toUTF8.data.toList

theorem bytes_eq (s : String) : bytes s = s.toList.flatMap String.utf8EncodeChar := by
  have hs : s.toUTF8 = (s.toList.flatMap String.utf8EncodeChar).toByteArray :=
    String.utf8Encode_toList.symm
  unfold bytes
  rw [hs, List.data_toByteArray]

theorem encode_ne_nil (c : Char) : String.utf8EncodeChar c ≠ [] := by
  unfold String.utf8EncodeChar
  dsimp only
  split
  · exact List.cons_ne_nil _ _
  · split
    · exact List.cons_ne_nil _ _
    · split <;> exact List.cons_ne_nil _ _

/-- What comes first as a list of characters comes first in bytes. -/
theorem flatMap_encode_lt {cs ds : List Char} (h : cs < ds) :
    cs.flatMap String.utf8EncodeChar < ds.flatMap String.utf8EncodeChar := by
  induction cs generalizing ds with
  | nil =>
    cases ds with
    | nil => exact absurd h (List.lt_irrefl [])
    | cons d ds =>
      obtain ⟨b, bs, hb⟩ := List.exists_cons_of_ne_nil (encode_ne_nil d)
      rw [List.flatMap_cons, hb]
      exact List.nil_lt_cons b _
  | cons c cs ih =>
    cases ds with
    | nil => exact absurd h (List.not_lt_nil _)
    | cons d ds =>
      rw [List.flatMap_cons, List.flatMap_cons]
      rcases List.cons_lt_cons_iff.1 h with hcd | ⟨rfl, hrest⟩
      · exact encode_lt_encode hcd _ _
      · exact List.append_left_lt (ih hrest)

/-- **Texts are ordered as their bytes.** -/
theorem bytes_lt_iff {s t : String} : bytes s < bytes t ↔ s < t := by
  have hmono : ∀ {s t : String}, s < t → bytes s < bytes t := by
    intro s t h
    rw [bytes_eq, bytes_eq]
    exact flatMap_encode_lt h
  refine ⟨fun h => ?_, hmono⟩
  rcases Std.lt_trichotomy s t with hlt | rfl | hgt
  · exact hlt
  · exact absurd h (List.lt_irrefl _)
  · exact absurd (hmono hgt) (List.lt_asymm h)

theorem compare_eq_lt_iff {s t : String} : compare s t = .lt ↔ bytes s < bytes t :=
  compareOfLessAndEq_eq_lt.trans bytes_lt_iff.symm

example : "z" < "é" ∧ bytes "é" = [0xC3, 0xA9] := by decide

end FieldAccess.Text

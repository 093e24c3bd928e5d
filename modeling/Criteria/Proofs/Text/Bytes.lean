/-
# Criteria.Proofs.Text.Bytes -- the order of names is the order of their bytes

Texts are compared character by character, but their UTF-8 bytes give the same
order (`bytes_lt_iff`). For one character the reason is that the bytes of a
smaller one are smaller at the first place where they differ, whatever follows
(`utf8EncodeChar_append_lt`).
-/

namespace Criteria.Text

set_option autoImplicit false

/-- The UTF-8 encoding of a text (`toByteArray_bytes`). -/
def bytes (text : String) : List UInt8 := text.toList.flatMap String.utf8EncodeChar

theorem toByteArray_bytes (text : String) : (bytes text).toByteArray = text.toByteArray :=
  String.utf8Encode_toList

/-! ## One character -/

theorem cons_lt_of_ofNat_lt {m n : Nat} {s t : List UInt8} (less : m < n) (small : n < 256) :
    UInt8.ofNat m :: s < UInt8.ofNat n :: t := by
  apply List.cons_lt_cons_iff.2
  left
  rw [UInt8.lt_iff_toNat_lt, UInt8.toNat_ofNat', UInt8.toNat_ofNat']
  omega

theorem cons_lt_of_ofNat_eq {m n : Nat} {s t : List UInt8} (same : m = n) (less : s < t) :
    UInt8.ofNat m :: s < UInt8.ofNat n :: t :=
  List.cons_lt_cons_iff.2 (.inr ⟨congrArg UInt8.ofNat same, less⟩)

theorem last_lt {m n : Nat} {s t : List UInt8} (high : m / 64 = n / 64) (less : m < n) :
    UInt8.ofNat (m % 64 + 0x80) :: s < UInt8.ofNat (n % 64 + 0x80) :: t :=
  cons_lt_of_ofNat_lt (by omega) (by omega)

theorem lastTwo_lt {m n : Nat} {s t : List UInt8} (high : m / 4096 = n / 4096) (less : m < n) :
    UInt8.ofNat (m / 64 % 64 + 0x80) :: UInt8.ofNat (m % 64 + 0x80) :: s <
      UInt8.ofNat (n / 64 % 64 + 0x80) :: UInt8.ofNat (n % 64 + 0x80) :: t := by
  rcases Nat.lt_or_ge (m / 64) (n / 64) with first | first
  · exact cons_lt_of_ofNat_lt (by omega) (by omega)
  · exact cons_lt_of_ofNat_eq (by omega) (last_lt (by omega) less)

theorem lastThree_lt {m n : Nat} {s t : List UInt8} (high : m / 262144 = n / 262144)
    (less : m < n) :
    UInt8.ofNat (m / 4096 % 64 + 0x80) :: UInt8.ofNat (m / 64 % 64 + 0x80) ::
        UInt8.ofNat (m % 64 + 0x80) :: s <
      UInt8.ofNat (n / 4096 % 64 + 0x80) :: UInt8.ofNat (n / 64 % 64 + 0x80) ::
        UInt8.ofNat (n % 64 + 0x80) :: t := by
  rcases Nat.lt_or_ge (m / 4096) (n / 4096) with first | first
  · exact cons_lt_of_ofNat_lt (by omega) (by omega)
  · exact cons_lt_of_ofNat_eq (by omega) (lastTwo_lt (by omega) less)

theorem utf8EncodeChar_append_lt {c d : Char} (less : c < d) (s t : List UInt8) :
    String.utf8EncodeChar c ++ s < String.utf8EncodeChar d ++ t := by
  have small : c.val.toNat < d.val.toNat := less
  have bound : d.val.toNat < 0x110000 := by
    rcases d.valid with low | ⟨_, high⟩
    · exact Nat.lt_trans low (by decide)
    · exact high
  simp only [String.utf8EncodeChar]
  generalize c.val.toNat = m at small ⊢
  generalize d.val.toNat = n at small bound ⊢
  -- a longer encoding has the greater first byte, so what is left to compare are
  -- encodings of one length
  by_cases one : n ≤ 0x7f
  · rw [if_pos one, if_pos (by omega : m ≤ 0x7f)]
    exact cons_lt_of_ofNat_lt small (by omega)
  rw [if_neg one]
  by_cases shortest : m ≤ 0x7f
  · rw [if_pos shortest]
    split
    · exact cons_lt_of_ofNat_lt (by omega) (by omega)
    · split
      · exact cons_lt_of_ofNat_lt (by omega) (by omega)
      · exact cons_lt_of_ofNat_lt (by omega) (by omega)
  rw [if_neg shortest]
  by_cases two : n ≤ 0x7ff
  · rw [if_pos two, if_pos (by omega : m ≤ 0x7ff)]
    rcases Nat.lt_or_ge (m / 64) (n / 64) with first | first
    · exact cons_lt_of_ofNat_lt (by omega) (by omega)
    · exact cons_lt_of_ofNat_eq (by omega) (last_lt (by omega) small)
  rw [if_neg two]
  by_cases shorter : m ≤ 0x7ff
  · rw [if_pos shorter]
    split
    · exact cons_lt_of_ofNat_lt (by omega) (by omega)
    · exact cons_lt_of_ofNat_lt (by omega) (by omega)
  rw [if_neg shorter]
  by_cases three : n ≤ 0xffff
  · rw [if_pos three, if_pos (by omega : m ≤ 0xffff)]
    rcases Nat.lt_or_ge (m / 4096) (n / 4096) with first | first
    · exact cons_lt_of_ofNat_lt (by omega) (by omega)
    · exact cons_lt_of_ofNat_eq (by omega) (lastTwo_lt (by omega) small)
  rw [if_neg three]
  by_cases short : m ≤ 0xffff
  · rw [if_pos short]
    exact cons_lt_of_ofNat_lt (by omega) (by omega)
  rw [if_neg short]
  rcases Nat.lt_or_ge (m / 262144) (n / 262144) with first | first
  · exact cons_lt_of_ofNat_lt (by omega) (by omega)
  · exact cons_lt_of_ofNat_eq (by omega) (lastThree_lt (by omega) small)

/-! ## Texts -/

theorem bytes_lt_of_lt {a b : String} (less : a < b) : bytes a < bytes b := by
  have chars : a.toList < b.toList := less
  unfold bytes
  generalize a.toList = as at chars ⊢
  generalize b.toList = bs at chars ⊢
  induction chars with
  | @nil d ds =>
      obtain ⟨first, others, same⟩ :=
        List.exists_cons_of_ne_nil (String.utf8EncodeChar_ne_nil (c := d))
      rw [List.flatMap_cons, same]
      exact List.nil_lt_cons _ _
  | rel less => exact utf8EncodeChar_append_lt less _ _
  | cons _ ih => exact List.append_left_lt ih

/-- The order of texts is the order of their encodings. -/
theorem bytes_lt_iff {a b : String} : bytes a < bytes b ↔ a < b := by
  refine ⟨fun less => ?_, bytes_lt_of_lt⟩
  rw [← String.not_le]
  intro reverse
  by_cases same : a = b
  · exact List.lt_irrefl _ (same ▸ less)
  · have greater : b < a := by
      rw [← String.not_le]
      exact fun le => same (String.le_antisymm le reverse)
    exact List.lt_asymm less (bytes_lt_of_lt greater)

theorem bytes_le_iff {a b : String} : bytes a ≤ bytes b ↔ a ≤ b :=
  not_congr bytes_lt_iff

end Criteria.Text

/-
The order of texts. Texts are compared by their characters, and that is the order of their UTF-8
bytes: of two characters the smaller one has the smaller byte where their spellings first differ.
-/
import Mathlib.Data.List.Lex

namespace Polyglot.Text

/-- The bytes of a text in UTF-8. -/
def bytes (s : String) : List UInt8 := s.toUTF8.data.toList

theorem bytes_eq (s : String) : bytes s = s.toList.flatMap String.utf8EncodeChar := by
  rw [bytes, String.toUTF8_eq_toByteArray, ← String.utf8Encode_toList, List.utf8Encode,
    List.toList_data_toByteArray]

theorem ofNat_lt_iff {m n : Nat} (hm : m < 256) (hn : n < 256) :
    UInt8.ofNat m < UInt8.ofNat n ↔ m < n := by
  rw [UInt8.lt_iff_toNat_lt, UInt8.toNat_ofNat_of_lt' hm, UInt8.toNat_ofNat_of_lt' hn]

theorem ofNat_eq_iff {m n : Nat} (hm : m < 256) (hn : n < 256) :
    UInt8.ofNat m = UInt8.ofNat n ↔ m = n := by
  rw [← UInt8.toNat_inj, UInt8.toNat_ofNat_of_lt' hm, UInt8.toNat_ofNat_of_lt' hn]

/-- Of two characters the smaller one has the smaller byte where their spellings differ first. -/
theorem utf8EncodeChar_lt {c d : Char} (h : c < d) (t t' : List UInt8) :
    String.utf8EncodeChar c ++ t < String.utf8EncodeChar d ++ t' := by
  have hlt : c.val.toNat < d.val.toNat := h
  have hmax : d.val.toNat < 0x110000 := d.valid.elim (by omega) (by omega)
  unfold String.utf8EncodeChar
  generalize c.val.toNat = m at hlt
  generalize d.val.toNat = n at hlt hmax
  dsimp only
  have hdiv : ∀ k : Nat, k / 64 / 64 = k / 4096 ∧ k / 4096 / 64 = k / 262144 := by
    intro k
    exact ⟨Nat.div_div_eq_div_mul .., Nat.div_div_eq_div_mul ..⟩
  have hm := hdiv m
  have hn := hdiv n
  have hm' : m / 262144 % 8 = m / 262144 := Nat.mod_eq_of_lt (by omega)
  have hn' : n / 262144 % 8 = n / 262144 := Nat.mod_eq_of_lt (by omega)
  -- one case for each pair of lengths: bytes are compared as the numbers that they hold
  repeat' split
  all_goals
    simp (disch := omega) only [List.cons_append, List.cons_lt_cons_iff, ofNat_lt_iff,
      ofNat_eq_iff, hm', hn']
    omega

theorem flatMap_utf8EncodeChar_lt {s t : List Char} (h : s < t) :
    s.flatMap String.utf8EncodeChar < t.flatMap String.utf8EncodeChar := by
  induction h with
  | @nil d t =>
    rw [List.flatMap_nil, List.flatMap_cons]
    obtain ⟨b, r, hb⟩ := List.exists_cons_of_ne_nil (String.utf8EncodeChar_ne_nil (c := d))
    rw [hb]
    exact List.nil_lt_cons _ _
  | rel h =>
    rw [List.flatMap_cons, List.flatMap_cons]
    exact utf8EncodeChar_lt h _ _
  | cons _ ih =>
    rw [List.flatMap_cons, List.flatMap_cons]
    exact List.append_left_lt ih

/-- Texts are in the order of their bytes. -/
theorem bytes_lt_iff {s t : String} : bytes s < bytes t ↔ s < t := by
  have hlt : ∀ {s t : String}, s < t → bytes s < bytes t := by
    intro s t h
    rw [bytes_eq, bytes_eq]
    exact flatMap_utf8EncodeChar_lt h
  constructor
  · intro h
    rcases Std.lt_trichotomy s t with hst | rfl | hts
    · exact hst
    · exact absurd h (List.lt_irrefl _)
    · exact absurd h (List.lt_asymm (hlt hts))
  · exact hlt

end Polyglot.Text

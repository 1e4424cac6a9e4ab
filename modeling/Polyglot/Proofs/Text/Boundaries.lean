/-
Where characters begin among the bytes of a text. In UTF-8 each byte tells by itself whether a
character begins with it or is continued by it. So a place among the bytes is known to lie between
two characters by the byte behind it, and such places are just the sizes of the whole-character
beginnings of the text.
-/
import Polyglot.Text.Utf8

namespace Polyglot.Text.Utf8

/-- Whether a character begins with the byte. Those from 0x80 to 0xBF continue one. -/
def begins (byte : UInt8) : Bool := byte < 0x80 || 0xC0 ≤ byte

/-- Whether the place before byte `i` lies between two characters, or at either end. -/
def isBoundary (bytes : List UInt8) (i : Nat) : Bool :=
  i == 0 || match bytes[i]? with
    | some byte => begins byte
    | none => i == bytes.length

/-! ## The bytes of one character -/

theorem begins_ofNat {n : Nat} (h : n < 256) :
    begins (UInt8.ofNat n) = (decide (n < 0x80) || decide (0xC0 ≤ n)) := by
  have hn : (UInt8.ofNat n).toNat = n := UInt8.toNat_ofNat_of_lt' h
  have hlow : UInt8.ofNat n < 0x80 ↔ n < 0x80 := by
    rw [UInt8.lt_iff_toNat_lt, hn]
    rfl
  have hhigh : 0xC0 ≤ UInt8.ofNat n ↔ 0xC0 ≤ n := by
    rw [UInt8.le_iff_toNat_le, hn]
    rfl
  rw [begins, decide_eq_decide.2 hlow, decide_eq_decide.2 hhigh]

/-- A character begins with its first byte, and with no other one. -/
theorem exists_utf8EncodeChar (c : Char) : ∃ byte rest, String.utf8EncodeChar c = byte :: rest ∧
    begins byte = true ∧ ∀ b ∈ rest, begins b = false := by
  have hmax : c.val.toNat < 0x110000 := c.valid.elim (by omega) (by omega)
  unfold String.utf8EncodeChar
  generalize c.val.toNat = n at hmax
  dsimp only
  -- one case for each number of bytes
  repeat' split
  all_goals
    refine ⟨_, _, rfl, ?_, ?_⟩
    · rw [begins_ofNat (by omega)]
      simp only [Bool.or_eq_true, decide_eq_true_eq]
      omega
    · simp (disch := omega) only [List.forall_mem_cons, List.not_mem_nil, false_implies,
        implies_true, and_true, begins_ofNat, Bool.or_eq_false_iff, decide_eq_false_iff_not] <;>
        omega

/-! ## The bytes of a text -/

theorem encode_cons (c : Char) (text : List Char) :
    encode (c :: text) = String.utf8EncodeChar c ++ encode text := rfl

theorem length_encode (text : List Char) : (encode text).length = size text := by
  induction text with
  | nil => rfl
  | cons c text ih => rw [encode_cons, List.length_append, String.length_utf8EncodeChar, ih, size]

theorem encode_append (s t : List Char) : encode (s ++ t) = encode s ++ encode t :=
  List.flatMap_append

/-- The bytes of a text begin with a character, so that its start needs no case of its own. -/
theorem isBoundary_encode (text : List Char) (i : Nat) : isBoundary (encode text) i =
    match (encode text)[i]? with
      | some byte => begins byte
      | none => i == (encode text).length := by
  unfold isBoundary
  cases i with
  | succ i => rfl
  | zero =>
    cases text with
    | nil => rfl
    | cons c text =>
      obtain ⟨byte, rest, hbytes, hbegins, -⟩ := exists_utf8EncodeChar c
      rw [encode_cons, hbytes]
      exact hbegins.symm

/-- Inside its first character a text has no boundary. -/
theorem isBoundary_inside {c : Char} {text : List Char} {i : Nat} (hpos : 0 < i)
    (hlt : i < c.utf8Size) : isBoundary (encode (c :: text)) i = false := by
  obtain ⟨byte, rest, hbytes, -, hrest⟩ := exists_utf8EncodeChar c
  have hlength : rest.length + 1 = c.utf8Size := by
    rw [← String.length_utf8EncodeChar, hbytes, List.length_cons]
  obtain ⟨i, rfl⟩ : ∃ k, i = k + 1 := ⟨i - 1, by omega⟩
  obtain ⟨b, hb⟩ : ∃ b, rest[i]? = some b := ⟨_, List.getElem?_eq_getElem (by omega)⟩
  have hget : (encode (c :: text))[i + 1]? = some b := by
    rw [encode_cons, hbytes, List.cons_append, List.getElem?_cons_succ,
      List.getElem?_append_left (by omega), hb]
  rw [isBoundary_encode, hget]
  exact hrest b (List.mem_of_getElem? hb)

/-- Behind its first character a text has the boundaries of what follows. -/
theorem isBoundary_behind (c : Char) (text : List Char) (i : Nat) :
    isBoundary (encode (c :: text)) (c.utf8Size + i) = isBoundary (encode text) i := by
  have hget : (encode (c :: text))[c.utf8Size + i]? = (encode text)[i]? := by
    rw [encode_cons, List.getElem?_append_right (by rw [String.length_utf8EncodeChar]; omega),
      String.length_utf8EncodeChar, Nat.add_sub_cancel_left]
  rw [isBoundary_encode, isBoundary_encode, hget, encode_cons, List.length_append,
    String.length_utf8EncodeChar]
  cases (encode text)[i]? with
  | some byte => rfl
  | none =>
    show (c.utf8Size + i == c.utf8Size + _) = (i == _)
    rw [Bool.eq_iff_iff, beq_iff_eq, beq_iff_eq, Nat.add_left_cancel_iff]

/-- The boundaries of a text are where one of its beginnings in whole characters ends. -/
theorem isBoundary_encode_iff {text : List Char} {i : Nat} :
    isBoundary (encode text) i = true ↔ ∃ p, p <+: text ∧ size p = i := by
  induction text generalizing i with
  | nil =>
    constructor
    · intro h
      rw [isBoundary_encode] at h
      exact ⟨[], List.nil_prefix, (eq_of_beq h).symm⟩
    · rintro ⟨p, hp, rfl⟩
      rw [List.prefix_nil.1 hp]
      rfl
  | cons c text ih =>
    -- the index is at the front, inside the first character, or behind it
    rcases Nat.eq_zero_or_pos i with rfl | hpos
    · exact ⟨fun _ => ⟨[], List.nil_prefix, rfl⟩, fun _ => rfl⟩
    rcases Nat.lt_or_ge i c.utf8Size with hlt | hge
    · rw [isBoundary_inside hpos hlt]
      constructor
      · intro h
        cases h
      · rintro ⟨p, hp, hsize⟩
        rcases List.prefix_cons_iff.1 hp with rfl | ⟨q, rfl, -⟩ <;>
          rw [size] at hsize <;> omega
    · obtain ⟨k, rfl⟩ := Nat.exists_eq_add_of_le hge
      rw [isBoundary_behind, ih]
      constructor
      · rintro ⟨q, hq, rfl⟩
        exact ⟨c :: q, List.cons_prefix_cons.2 ⟨rfl, hq⟩, rfl⟩
      · rintro ⟨p, hp, hsize⟩
        rcases List.prefix_cons_iff.1 hp with rfl | ⟨q, rfl, hq⟩
        · rw [size] at hsize
          omega
        · rw [size] at hsize
          exact ⟨q, hq, by omega⟩

end Polyglot.Text.Utf8

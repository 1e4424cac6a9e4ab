/-
Reading UTF-8 undoes writing it, and reads nothing else. A character is a first byte and the bytes
that are owed after it; the first byte says how many, and in which range the next one lies. Within
these ranges the bytes hold a character that is written with just them. So bytes that are no text are
a text and a character that breaks, and reading breaks off where that one starts: behind the longest
beginning that is a text.
-/
import Polyglot.Proofs.Json.Strings
import Polyglot.Proofs.Text.Boundaries
import Mathlib.Tactic.Common

namespace Polyglot.Text.Utf8

/-! ## What spells a character -/

/-- Bytes that complete the character with the number `n`: as many as are owed, the first of them in
`low, …, high` and the others in `0x80, …, 0xBF`, with six bits each behind those in `code`. -/
inductive Completes (n : Nat) : (owed low high code : Nat) → List UInt8 → Prop where
  | last {low high code : Nat} {byte : UInt8} : low ≤ byte.toNat ∧ byte.toNat ≤ high →
    code * 64 + (byte.toNat - 0x80) = n → Completes n 1 low high code [byte]
  | more {owed low high code : Nat} {byte : UInt8} {rest : List UInt8} :
    low ≤ byte.toNat ∧ byte.toNat ≤ high → 0 < owed →
    Completes n owed 0x80 0xBF (code * 64 + (byte.toNat - 0x80)) rest →
    Completes n (owed + 1) low high code (byte :: rest)

/-- Bytes that spell the character with the number `n`. -/
inductive Spells (n : Nat) : List UInt8 → Prop where
  | one {byte : UInt8} : byte.toNat < 0x80 → byte.toNat = n → Spells n [byte]
  | several {byte : UInt8} {rest : List UInt8} {owed low high code : Nat} : 0x80 ≤ byte.toNat →
    lead byte.toNat = some (code, owed, low, high) → Completes n owed low high code rest →
    Spells n (byte :: rest)

variable {n : Nat}

theorem Completes.of_one {low high code : Nat} {bytes : List UInt8}
    (h : Completes n 1 low high code bytes) : ∃ byte : UInt8, bytes = [byte] ∧
      (low ≤ byte.toNat ∧ byte.toNat ≤ high) ∧ code * 64 + (byte.toNat - 0x80) = n := by
  cases h with
  | last hrange hcode => exact ⟨_, rfl, hrange, hcode⟩
  | more _ howed _ => cases howed

theorem Completes.of_more {owed low high code : Nat} {bytes : List UInt8}
    (h : Completes n (owed + 2) low high code bytes) : ∃ (byte : UInt8) (rest : List UInt8),
      bytes = byte :: rest ∧ (low ≤ byte.toNat ∧ byte.toNat ≤ high) ∧
      Completes n (owed + 1) 0x80 0xBF (code * 64 + (byte.toNat - 0x80)) rest := by
  cases h with
  | more hrange _ hrest => exact ⟨_, _, rfl, hrange, hrest⟩

/-! ## First bytes -/

theorem lead_two {b : Nat} (hlow : 0xC2 ≤ b) (hhigh : b < 0xE0) :
    lead b = some (b - 0xC0, 1, 0x80, 0xBF) := by
  unfold lead
  rw [if_neg (by omega), if_pos hhigh]

theorem lead_three {b : Nat} (hlow : 0xE0 ≤ b) (hhigh : b < 0xF0) :
    lead b = some (b - 0xE0, 2, if b = 0xE0 then 0xA0 else 0x80,
      if b = 0xED then 0x9F else 0xBF) := by
  unfold lead
  rw [if_neg (by omega), if_neg (by omega)]
  simp only [beq_iff_eq]
  split_ifs <;> first | omega | simp_all

theorem lead_four {b : Nat} (hlow : 0xF0 ≤ b) (hhigh : b < 0xF5) :
    lead b = some (b - 0xF0, 3, if b = 0xF0 then 0x90 else 0x80,
      if b = 0xF4 then 0x8F else 0xBF) := by
  unfold lead
  rw [if_neg (by omega), if_neg (by omega)]
  simp only [beq_iff_eq]
  split_ifs <;> first | omega | simp_all

/-- A first byte of several says that one, two or three are owed. -/
theorem lead_cases {b code owed low high : Nat} (h : lead b = some (code, owed, low, high)) :
    (0xC2 ≤ b ∧ b < 0xE0 ∧ code = b - 0xC0 ∧ owed = 1 ∧ low = 0x80 ∧ high = 0xBF) ∨
    (0xE0 ≤ b ∧ b < 0xF0 ∧ code = b - 0xE0 ∧ owed = 2 ∧ 0x80 ≤ low ∧ high ≤ 0xBF ∧
      (b = 0xE0 → low = 0xA0) ∧ (b = 0xED → high = 0x9F)) ∨
    (0xF0 ≤ b ∧ b < 0xF5 ∧ code = b - 0xF0 ∧ owed = 3 ∧ 0x80 ≤ low ∧ high ≤ 0xBF ∧
      (b = 0xF0 → low = 0x90) ∧ (b = 0xF4 → high = 0x8F)) := by
  unfold lead at h
  simp only [beq_iff_eq] at h
  split_ifs at h
  all_goals
    simp only [Option.some.injEq, Prod.mk.injEq] at h
    omega

/-! ## Characters and their bytes -/

theorem toNat_ofNat_of_lt (h : n < 256) : (UInt8.ofNat n).toNat = n := UInt8.toNat_ofNat_of_lt' h

theorem ofNat_eq {byte : UInt8} (h : byte.toNat = n) : UInt8.ofNat n = byte := by
  rw [← h, UInt8.ofNat_toNat]

theorem completes_last {low high code b : Nat} (hb : b < 256) (hrange : low ≤ b ∧ b ≤ high)
    (hcode : code * 64 + (b - 0x80) = n) : Completes n 1 low high code [UInt8.ofNat b] := by
  have hbyte := toNat_ofNat_of_lt hb
  exact .last (hbyte.symm ▸ hrange) (hbyte.symm ▸ hcode)

theorem completes_more {owed low high code b : Nat} {rest : List UInt8} (hb : b < 256)
    (hrange : low ≤ b ∧ b ≤ high) (howed : 0 < owed)
    (hrest : Completes n owed 0x80 0xBF (code * 64 + (b - 0x80)) rest) :
    Completes n (owed + 1) low high code (UInt8.ofNat b :: rest) := by
  have hbyte := toNat_ofNat_of_lt hb
  exact .more (hbyte.symm ▸ hrange) howed (hbyte.symm ▸ hrest)

/-- What a character is written with spells it. -/
theorem spells_utf8EncodeChar (c : Char) : Spells c.toNat (String.utf8EncodeChar c) := by
  have hvalid := Json.not_surrogate c
  unfold String.utf8EncodeChar
  rw [show c.val.toNat = c.toNat from rfl]
  generalize c.toNat = n at hvalid
  dsimp only
  -- one case for each number of bytes
  split_ifs with hone htwo hthree
  · have hbyte := @toNat_ofNat_of_lt n (by omega)
    exact .one (by omega) hbyte
  · have hbyte := @toNat_ofNat_of_lt (n / 64 % 32 + 192) (by omega)
    refine .several (by omega) (lead_two (by omega) (by omega)) ?_
    exact completes_last (by omega) (by omega) (by omega)
  · have hbyte := @toNat_ofNat_of_lt (n / 4096 % 16 + 224) (by omega)
    refine .several (by omega) (lead_three (by omega) (by omega)) ?_
    refine completes_more (by omega) ?_ (by decide) ?_
    · split_ifs <;> omega
    · exact completes_last (by omega) (by omega) (by omega)
  · have hbyte := @toNat_ofNat_of_lt (n / 262144 % 8 + 240) (by omega)
    refine .several (by omega) (lead_four (by omega) (by omega)) ?_
    refine completes_more (by omega) ?_ (by decide) ?_
    · split_ifs <;> omega
    · refine completes_more (by omega) (by omega) (by decide) ?_
      exact completes_last (by omega) (by omega) (by omega)

theorem exists_toNat_eq (h : n < 0xD800 ∨ 0xDFFF < n ∧ n < 0x110000) :
    ∃ c : Char, c.val.toNat = n := ⟨Char.ofNat n, Json.toNat_ofNat h⟩

/-- Only what a character is written with spells one. -/
theorem Spells.exists_char {bytes : List UInt8} (h : Spells n bytes) :
    ∃ c, String.utf8EncodeChar c = bytes := by
  cases h with
  | @one byte hlow hn =>
    obtain ⟨c, hc⟩ := @exists_toNat_eq n (by omega)
    refine ⟨c, ?_⟩
    unfold String.utf8EncodeChar
    rw [hc, if_pos (by omega), ofNat_eq hn]
  | @several byte bytes owed low high code _ hlead hrest =>
    -- the ranges of the next byte leave out longer spellings than needed and surrogates
    rcases lead_cases hlead with ⟨_, _, hcode, rfl, _, _⟩ | ⟨_, _, hcode, rfl, _, _, _, _⟩ |
      ⟨_, _, hcode, rfl, _, _, _, _⟩
    · obtain ⟨b, rfl, hb, hn⟩ := hrest.of_one
      obtain ⟨c, hc⟩ := @exists_toNat_eq n (by omega)
      refine ⟨c, ?_⟩
      unfold String.utf8EncodeChar
      rw [hc]
      dsimp only
      rw [if_neg (by omega), if_pos (by omega), @ofNat_eq _ byte (by omega),
        @ofNat_eq _ b (by omega)]
    · obtain ⟨b, rest, rfl, hb, hrest⟩ := hrest.of_more
      obtain ⟨b', rfl, hb', hn⟩ := hrest.of_one
      obtain ⟨c, hc⟩ := @exists_toNat_eq n (by omega)
      refine ⟨c, ?_⟩
      unfold String.utf8EncodeChar
      rw [hc]
      dsimp only
      rw [if_neg (by omega), if_neg (by omega), if_pos (by omega), @ofNat_eq _ byte (by omega),
        @ofNat_eq _ b (by omega), @ofNat_eq _ b' (by omega)]
    · obtain ⟨b, rest, rfl, hb, hrest⟩ := hrest.of_more
      obtain ⟨b', rest, rfl, hb', hrest⟩ := hrest.of_more
      obtain ⟨b'', rfl, hb'', hn⟩ := hrest.of_one
      obtain ⟨c, hc⟩ := @exists_toNat_eq n (by omega)
      refine ⟨c, ?_⟩
      unfold String.utf8EncodeChar
      rw [hc]
      dsimp only
      rw [if_neg (by omega), if_neg (by omega), if_neg (by omega), @ofNat_eq _ byte (by omega),
        @ofNat_eq _ b (by omega), @ofNat_eq _ b' (by omega), @ofNat_eq _ b'' (by omega)]

/-! ## Reading what was written -/

theorem decodeFrom_inside_append {owed low high code : Nat} {bytes : List UInt8}
    (h : Completes n owed low high code bytes) (index start taken : Nat) (read : List Char)
    (rest : List UInt8) :
    decodeFrom index read (.inside start taken owed low high code) (bytes ++ rest) =
      decodeFrom (index + bytes.length) (Char.ofNat n :: read) .between rest := by
  induction h generalizing index taken with
  | last hrange hcode =>
    rw [List.singleton_append, decodeFrom, if_pos hrange, if_pos (Nat.le_refl 1), hcode]
    rfl
  | more hrange howed _ ih =>
    rw [List.cons_append, decodeFrom, if_pos hrange, if_neg (by omega), Nat.add_sub_cancel, ih,
      List.length_cons, Nat.add_right_comm, Nat.add_assoc]

/-- The bytes of a character are read as that character, whatever follows. -/
theorem decodeFrom_char_append (c : Char) (index : Nat) (read : List Char) (rest : List UInt8) :
    decodeFrom index read .between (String.utf8EncodeChar c ++ rest) =
      decodeFrom (index + c.utf8Size) (c :: read) .between rest := by
  have hspells := spells_utf8EncodeChar c
  rw [← String.length_utf8EncodeChar]
  generalize String.utf8EncodeChar c = bytes at hspells
  cases hspells with
  | one hlow hn =>
    rw [List.singleton_append, decodeFrom, if_pos hlow, hn, Char.ofNat_toNat]
    rfl
  | several hbyte hlead hrest =>
    rw [List.cons_append, decodeFrom, if_neg (Nat.not_lt.2 hbyte), hlead]
    dsimp only
    rw [decodeFrom_inside_append hrest, Char.ofNat_toNat, List.length_cons, Nat.add_right_comm,
      Nat.add_assoc]

theorem decodeFrom_encode_append (text : List Char) (index : Nat) (read : List Char)
    (rest : List UInt8) : decodeFrom index read .between (encode text ++ rest) =
      decodeFrom (index + size text) (text.reverse ++ read) .between rest := by
  induction text generalizing index read with
  | nil => rfl
  | cons c text ih =>
    rw [encode_cons, List.append_assoc, decodeFrom_char_append, ih, size, Nat.add_assoc,
      List.reverse_cons, List.append_assoc, List.singleton_append]

/-- Reading gives back what was written. -/
theorem decode_encode (text : List Char) : decode (encode text) = .ok text := by
  have happend := decodeFrom_encode_append text 0 [] []
  rw [List.append_nil, List.append_nil] at happend
  rw [decode, happend, decodeFrom, List.reverse_reverse]

/-- A fault of the character that starts at an index, which breaks after one to three bytes or lacks
some at the end. -/
def Fault.IsAt (fault : Fault) (index : Nat) : Prop :=
  fault = .incomplete index ∨ ∃ length, 1 ≤ length ∧ length ≤ 3 ∧ fault = .invalid length index

theorem Fault.IsAt.index_eq {fault : Fault} {i j : Nat} (hi : fault.IsAt i) (hj : fault.IsAt j) :
    i = j := by
  rcases hi with rfl | ⟨_, _, _, rfl⟩ <;> rcases hj with hj | ⟨_, _, _, hj⟩
  · exact Fault.incomplete.inj hj
  · cases hj
  · cases hj
  · exact (Fault.invalid.inj hj).2

/-- Inside a character the bytes complete it, or reading breaks off with a fault of it. -/
theorem decodeFrom_inside_cases (read : List Char) {owed taken : Nat} (howed : 0 < owed)
    (htaken : 0 < taken) (hfour : taken + owed ≤ 4) (index start low high code : Nat)
    (bytes : List UInt8) :
    (∃ n front rest, bytes = front ++ rest ∧ Completes n owed low high code front) ∨
    ∃ fault : Fault, fault.IsAt start ∧
      decodeFrom index read (.inside start taken owed low high code) bytes = .error fault := by
  induction bytes generalizing owed taken index low high code with
  | nil => exact .inr ⟨_, .inl rfl, by rw [decodeFrom]⟩
  | cons byte bytes ih =>
    by_cases hrange : low ≤ byte.toNat ∧ byte.toNat ≤ high
    · -- a byte in range completes the character, or more are owed
      rcases Nat.lt_or_ge 1 owed with hmore | hlast
      · rcases @ih (owed - 1) (taken + 1) (by omega) (by omega) (by omega) (index + 1) 0x80 0xBF
          (code * 64 + (byte.toNat - 0x80)) with ⟨n, front, rest, rfl, hfront⟩ | ⟨fault, hat, hfault⟩
        · have hall := Completes.more hrange (by omega) hfront
          rw [Nat.sub_add_cancel howed] at hall
          exact .inl ⟨n, byte :: front, rest, rfl, hall⟩
        · refine .inr ⟨fault, hat, ?_⟩
          rw [decodeFrom, if_pos hrange, if_neg (by omega)]
          exact hfault
      · obtain rfl : owed = 1 := by omega
        exact .inl ⟨_, [byte], bytes, rfl, .last hrange rfl⟩
    · refine .inr ⟨.invalid taken start, .inr ⟨taken, htaken, by omega, rfl⟩, ?_⟩
      rw [decodeFrom, if_neg hrange]

/-- Between two characters the bytes are at their end or go on with a character, or reading breaks
off with a fault of the next one. -/
theorem decodeFrom_between_cases (index : Nat) (read : List Char) (bytes : List UInt8) :
    bytes = [] ∨ (∃ c rest, bytes = String.utf8EncodeChar c ++ rest) ∨
    ∃ fault : Fault, fault.IsAt index ∧ decodeFrom index read .between bytes = .error fault := by
  rcases bytes with _ | ⟨byte, bytes⟩
  · exact .inl rfl
  right
  by_cases hlow : byte.toNat < 0x80
  · obtain ⟨c, hc⟩ := (Spells.one hlow rfl).exists_char
    exact .inl ⟨c, bytes, by rw [hc]; rfl⟩
  cases hlead : lead byte.toNat with
  | none =>
    refine .inr ⟨.invalid 1 index, .inr ⟨1, by decide, by decide, rfl⟩, ?_⟩
    rw [decodeFrom, if_neg hlow, hlead]
  | some said =>
    obtain ⟨code, owed, low, high⟩ := said
    have howed : 0 < owed ∧ 1 + owed ≤ 4 := by
      rcases lead_cases hlead with h | h | h <;> omega
    rcases decodeFrom_inside_cases read howed.1 Nat.one_pos howed.2 (index + 1) index low high code
      bytes with ⟨n, front, rest, rfl, hfront⟩ | ⟨fault, hat, hfault⟩
    · obtain ⟨c, hc⟩ := (Spells.several (Nat.not_lt.1 hlow) hlead hfront).exists_char
      exact .inl ⟨c, rest, by rw [hc]; rfl⟩
    · refine .inr ⟨fault, hat, ?_⟩
      rw [decodeFrom, if_neg hlow, hlead]
      exact hfault

/-- Bytes are a text as it is written, or one with a character behind it that breaks. -/
theorem exists_encode_or_fault (index : Nat) (read : List Char) (bytes : List UInt8) :
    (∃ text, encode text = bytes) ∨
    ∃ text rest, ∃ fault : Fault, bytes = encode text ++ rest ∧ fault.IsAt (index + size text) ∧
      decodeFrom index read .between bytes = .error fault := by
  -- character by character, and each takes at least a byte
  induction hlength : bytes.length using Nat.strongRecOn generalizing index read bytes with
  | ind length ih =>
    subst hlength
    rcases decodeFrom_between_cases index read bytes with rfl | ⟨c, rest, rfl⟩ |
      ⟨fault, hat, hfault⟩
    · exact .inl ⟨[], rfl⟩
    · have hshorter : rest.length < (String.utf8EncodeChar c ++ rest).length := by
        have := c.utf8Size_pos
        rw [List.length_append, String.length_utf8EncodeChar]
        omega
      rcases ih _ hshorter (index + c.utf8Size) (c :: read) rest rfl with ⟨text, rfl⟩ |
        ⟨text, rest, fault, rfl, hat, hfault⟩
      · exact .inl ⟨c :: text, rfl⟩
      · refine .inr ⟨c :: text, rest, fault, ?_, ?_, ?_⟩
        · rw [encode_cons, List.append_assoc]
        · rwa [size, ← Nat.add_assoc]
        · rw [decodeFrom_char_append, hfault]
    · exact .inr ⟨[], bytes, fault, rfl, hat, hfault⟩

/-- Reading breaks off behind the longest beginning that is a text. -/
theorem decode_eq_error_of_ne {bytes : List UInt8} (h : ∀ text, encode text ≠ bytes) :
    ∃ text, ∃ fault : Fault, decode bytes = .error fault ∧ fault.IsAt (encode text).length ∧
      encode text <+: bytes ∧
      ∀ text', encode text' <+: bytes → (encode text').length ≤ (encode text).length := by
  rcases exists_encode_or_fault 0 [] bytes with ⟨text, htext⟩ | ⟨text, rest, fault, hbytes, hat, hfault⟩
  · exact absurd htext (h text)
  rw [Nat.zero_add, ← length_encode] at hat
  refine ⟨text, fault, hfault, hat, ⟨rest, hbytes.symm⟩, ?_⟩
  rintro text' ⟨rest', rfl⟩
  -- behind any other beginning that is a text the same fault is still ahead
  rw [decodeFrom_encode_append, Nat.zero_add] at hfault
  rcases exists_encode_or_fault (size text') (text'.reverse ++ []) rest' with ⟨more, rfl⟩ |
    ⟨more, _, fault', -, hat', hfault'⟩
  · exact absurd (encode_append text' more) (h (text' ++ more))
  · rw [hfault, Except.error.injEq] at hfault'
    subst hfault'
    rw [hat.index_eq hat', length_encode]
    exact Nat.le_add_right _ _

end Polyglot.Text.Utf8

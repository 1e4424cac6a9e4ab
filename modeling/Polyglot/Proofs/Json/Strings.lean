/-
Reading strings. Every spelling of a string is read as that string, and what is read was a spelling
of it: characters that need no escape, short escapes, escapes of four hexadecimal digits, and pairs
of these for the characters beyond U+FFFF. No escape of half a pair is read.
-/
import Polyglot.Proofs.Json.Grammar

namespace Polyglot.Json

/-! ## Hexadecimal digits -/

theorem hexDigit?_eq_some_iff {c : Char} {v : Nat} : hexDigit? c = some v ↔ IsHex c v := by
  -- characters are compared as numbers from here on
  have h0 : ('0' : Char).toNat = 48 := rfl
  have h9 : ('9' : Char).toNat = 57 := rfl
  have ha : ('a' : Char).toNat = 97 := rfl
  have hf : ('f' : Char).toNat = 102 := rfl
  have hA : ('A' : Char).toNat = 65 := rfl
  have hF : ('F' : Char).toNat = 70 := rfl
  have hd : c.isDigit = true ↔ '0' ≤ c ∧ c ≤ '9' := by
    simp [Char.isDigit, Char.le_def, UInt32.le_iff_toNat_le]
  have hle : ∀ a b : Char, a ≤ b ↔ a.toNat ≤ b.toNat := fun a b => by
    rw [Char.le_def, UInt32.le_iff_toNat_le]; rfl
  simp only [hle] at hd
  unfold hexDigit? IsHex
  simp only [hle]
  split
  · rename_i h
    have := hd.1 h
    rw [Option.some.injEq]
    omega
  · rename_i h
    have : ¬ (('0' : Char).toNat ≤ c.toNat ∧ c.toNat ≤ ('9' : Char).toNat) := fun h' => h (hd.2 h')
    split
    · rw [Option.some.injEq]
      omega
    · split
      · rw [Option.some.injEq]
        omega
      · simp only [reduceCtorEq, false_iff]
        omega

theorem IsHex.lt {c : Char} {v : Nat} (h : IsHex c v) : v < 16 := by
  have h9 : ('9' : Char).toNat = 57 := rfl
  have hf : ('f' : Char).toNat = 102 := rfl
  have hF : ('F' : Char).toNat = 70 := rfl
  simp only [IsHex, Char.le_def, UInt32.le_iff_toNat_le, Char.toNat_val] at h
  omega

theorem SpellsHex.lt {n : Nat} {t : List Char} (h : SpellsHex n t) : n < 0x10000 := by
  obtain ⟨ha, hb, hc, hd⟩ := h
  have := ha.lt
  have := hb.lt
  have := hc.lt
  have := hd.lt
  omega

theorem readHex_append {n : Nat} {t : List Char} (h : SpellsHex n t) (rest : List Char) :
    readHex (t ++ rest) = .ok (n, rest) := by
  obtain ⟨ha, hb, hc, hd⟩ := h
  simp only [readHex, List.cons_append, List.nil_append, hexDigit?_eq_some_iff.2 ha,
    hexDigit?_eq_some_iff.2 hb, hexDigit?_eq_some_iff.2 hc, hexDigit?_eq_some_iff.2 hd]

theorem readHex_ok {text rest : List Char} {n : Nat} (h : readHex text = .ok (n, rest)) :
    ∃ t, SpellsHex n t ∧ text = t ++ rest := by
  unfold readHex at h
  split at h
  · split at h
    · rename_i ha hb hc hd
      cases h
      exact ⟨_, .intro (hexDigit?_eq_some_iff.1 ha) (hexDigit?_eq_some_iff.1 hb)
        (hexDigit?_eq_some_iff.1 hc) (hexDigit?_eq_some_iff.1 hd), rfl⟩
    · cases h
  · cases h

/-! ## Escapes -/

theorem toNat_ofNat {n : Nat} (h : n < 0xD800 ∨ (0xDFFF < n ∧ n < 0x110000)) :
    (Char.ofNat n).toNat = n := by
  have hv : n.isValidChar := h
  rw [Char.ofNat, dif_pos hv]
  rfl

/-- The code point that the two halves of a surrogate pair make. -/
theorem toNat_ofNat_pair {lead low : Nat} (h : 0xD800 ≤ lead ∧ lead ≤ 0xDBFF)
    (h' : low < 0x400) :
    (Char.ofNat (0x10000 + (lead - 0xD800) * 0x400 + low)).toNat =
      0x10000 + (lead - 0xD800) * 0x400 + low := by
  have hlow : 0xDFFF < 0x10000 + (lead - 0xD800) * 0x400 + low := by omega
  have hhigh : 0x10000 + (lead - 0xD800) * 0x400 + low < 0x110000 := by omega
  exact toNat_ofNat (.inr ⟨hlow, hhigh⟩)

/-- No character has a code point that only halves of surrogate pairs have. -/
theorem not_surrogate (c : Char) : c.toNat < 0xD800 ∨ (0xDFFF < c.toNat ∧ c.toNat < 0x110000) :=
  c.valid

theorem readInEscape_cons (c : Char) (rest : List Char) :
    readInEscape c (c :: rest) = .ok ((), rest) := by
  rw [readInEscape, beq_self_eq_true, if_pos rfl]

theorem readInEscape_ok {due : Char} {text rest : List Char}
    (h : readInEscape due text = .ok ((), rest)) : text = due :: rest := by
  unfold readInEscape at h
  split at h
  · cases h
  · split at h
    · rename_i hc
      cases h
      rw [beq_iff_eq.1 hc]
    · cases h

theorem readTrail_append {lead low : Nat} {t : List Char} (h : SpellsHex (0xDC00 + low) t)
    (hl : low < 0x400) (rest : List Char) : readTrail lead ('\\' :: 'u' :: (t ++ rest)) =
      .ok (Char.ofNat (0x10000 + (lead - 0xD800) * 0x400 + low), rest) := by
  unfold readTrail
  simp only [readInEscape_cons, readHex_append h]
  rw [if_pos (by omega), Nat.add_sub_cancel_left]

theorem readTrail_ok {lead : Nat} {text rest : List Char} {c : Char}
    (h : readTrail lead text = .ok (c, rest)) : ∃ low t, low < 0x400 ∧
      SpellsHex (0xDC00 + low) t ∧ text = '\\' :: 'u' :: (t ++ rest) ∧
      c = Char.ofNat (0x10000 + (lead - 0xD800) * 0x400 + low) := by
  unfold readTrail at h
  split at h
  · cases h
  rename_i text1 h1
  split at h
  · cases h
  rename_i text2 h2
  split at h
  · cases h
  -- two characters that begin an escape, and four digits behind them
  rename_i trail text3 h3
  obtain ⟨t, ht, rfl⟩ := readHex_ok h3
  split at h
  · rename_i htrail
    simp only [Except.ok.injEq, Prod.mk.injEq] at h
    obtain ⟨rfl, rfl⟩ := h
    refine ⟨trail - 0xDC00, t, by omega, ?_, ?_, rfl⟩
    · rw [show 0xDC00 + (trail - 0xDC00) = trail by omega]
      exact ht
    · rw [readInEscape_ok h1, readInEscape_ok h2]
  · cases h

theorem readUnicode_append {c : Char} {t : List Char} (h : SpellsHex c.toNat t)
    (rest : List Char) : readUnicode (t ++ rest) = .ok (c, rest) := by
  have := not_surrogate c
  unfold readUnicode
  simp only [readHex_append h]
  rw [if_neg (by omega), if_neg (by omega), Char.ofNat_toNat]

theorem readUnicode_append_pair {c : Char} {high low : Nat} {t t' : List Char}
    (h : SpellsHex (0xD800 + high) t) (h' : SpellsHex (0xDC00 + low) t') (hh : high < 0x400)
    (hl : low < 0x400) (hc : c.toNat = 0x10000 + high * 0x400 + low) (rest : List Char) :
    readUnicode (t ++ ('\\' :: 'u' :: (t' ++ rest))) = .ok (c, rest) := by
  unfold readUnicode
  simp only [readHex_append h, readTrail_append h' hl]
  rw [if_neg (by omega), if_pos (by omega), Nat.add_sub_cancel_left, ← hc, Char.ofNat_toNat]

theorem readUnicode_ok {text rest : List Char} {c : Char} (h : readUnicode text = .ok (c, rest)) :
    ∃ t, SpellsChar c ('\\' :: 'u' :: t) ∧ text = t ++ rest := by
  unfold readUnicode at h
  split at h
  · cases h
  rename_i n text' hn
  obtain ⟨t, ht, rfl⟩ := readHex_ok hn
  have hlt := ht.lt
  split at h
  · cases h
  split at h
  · rename_i hlow hhigh
    obtain ⟨low, t', hlt', ht', rfl, rfl⟩ := readTrail_ok h
    have hhex : SpellsHex (0xD800 + (n - 0xD800)) t := by
      rw [show 0xD800 + (n - 0xD800) = n by omega]
      exact ht
    have hc := toNat_ofNat_pair hhigh hlt'
    exact ⟨t ++ '\\' :: 'u' :: t', .pair hhex ht' (by omega) hlt' hc, by simp⟩
  · -- what is no surrogate is the code of a character
    cases h
    exact ⟨t, .code (by rwa [toNat_ofNat (by omega)]), rfl⟩

theorem shortEscape?_eq_some_iff {c letter : Char} :
    shortEscape? letter = some c ↔ (c, letter) ∈ shortEscapes := by
  constructor
  · intro h
    unfold shortEscape? at h
    split at h
    all_goals
      cases h
    all_goals
      decide
  · intro h
    simp only [shortEscapes, List.mem_cons, Prod.mk.injEq, List.not_mem_nil, or_false] at h
    rcases h with ⟨rfl, rfl⟩ | ⟨rfl, rfl⟩ | ⟨rfl, rfl⟩ | ⟨rfl, rfl⟩ | ⟨rfl, rfl⟩ | ⟨rfl, rfl⟩ |
      ⟨rfl, rfl⟩ | ⟨rfl, rfl⟩ <;> rfl

theorem readEscape_append {c : Char} {t : List Char} (h : SpellsChar c ('\\' :: t))
    (rest : List Char) : readEscape (t ++ rest) = .ok (c, rest) := by
  cases h with
  | plain _ _ hb => exact absurd rfl hb
  | @short letter hs =>
    have hu : letter ≠ 'u' := by
      rintro rfl
      simp [shortEscapes] at hs
    simp [readEscape, hu, shortEscape?_eq_some_iff.2 hs]
  | code hc => exact readUnicode_append hc rest
  | pair ht ht' hh hl hc =>
    have := readUnicode_append_pair ht ht' hh hl hc rest
    simpa [readEscape] using this

theorem readEscape_ok {text rest : List Char} {c : Char} (h : readEscape text = .ok (c, rest)) :
    ∃ t, SpellsChar c ('\\' :: t) ∧ text = t ++ rest := by
  unfold readEscape at h
  split at h
  · cases h
  split at h
  · rename_i hu
    obtain ⟨t, ht, rfl⟩ := readUnicode_ok h
    rw [beq_iff_eq] at hu
    exact ⟨'u' :: t, ht, by rw [hu]; rfl⟩
  · split at h
    · rename_i letter _ _ _ d hd
      cases h
      exact ⟨[letter], .short (shortEscape?_eq_some_iff.1 hd), rfl⟩
    · cases h

/-! ## Strings -/

theorem readString_quote (read rest : List Char) :
    readString read ('"' :: rest) = .ok (String.ofList read.reverse, rest) := by
  rw [readString, if_pos (by rfl)]

theorem readString_escape {text rest : List Char} {c : Char} (h : readEscape text = .ok (c, rest))
    (read : List Char) : readString read ('\\' :: text) = readString (c :: read) rest := by
  rw [readString, if_neg (by decide), if_pos (by rfl)]
  split
  · simp_all
  · simp_all

theorem readString_plain {c : Char} (h : 0x20 ≤ c.toNat) (hq : c ≠ '"') (hb : c ≠ '\\')
    (read rest : List Char) : readString read (c :: rest) = readString (c :: read) rest := by
  rw [readString, if_neg (by simpa using hq), if_neg (by simpa using hb), if_neg (by omega)]

/-- One character is read, however it is spelled. -/
theorem readString_char {c : Char} {t : List Char} (h : SpellsChar c t) (read rest : List Char) :
    readString read (t ++ rest) = readString (c :: read) rest := by
  cases h with
  | plain h hq hb => exact readString_plain h hq hb read rest
  | short h => exact readString_escape (readEscape_append (.short h) rest) read
  | code h => exact readString_escape (readEscape_append (.code h) rest) read
  | pair ht ht' hh hl hc =>
    exact readString_escape (readEscape_append (.pair ht ht' hh hl hc) rest) read

theorem readString_append {s t : List Char} (h : SpellsChars s t) (read rest : List Char) :
    readString read (t ++ '"' :: rest) = .ok (String.ofList (read.reverse ++ s), rest) := by
  induction h generalizing read with
  | nil => rw [List.nil_append, readString_quote, List.append_nil]
  | cons hc _ ih => rw [List.append_assoc, readString_char hc, ih]; simp

theorem readString_ok {read text rest : List Char} {s : String}
    (h : readString read text = .ok (s, rest)) :
    ∃ cs t, SpellsChars cs t ∧ text = t ++ '"' :: rest ∧
      s = String.ofList (read.reverse ++ cs) := by
  -- what has been read already stays in front, so the induction goes along the reader
  fun_induction readString read text with
  | case1 => cases h
  | case2 read c text hc =>
    cases h
    exact ⟨[], [], .nil, by rw [beq_iff_eq.1 hc]; rfl, by rw [List.append_nil]⟩
  | case3 => cases h
  | case4 read c text hq hb d behind hd ih =>
    obtain ⟨cs, t, ht, rfl, rfl⟩ := ih h
    obtain ⟨t', ht', rfl⟩ := readEscape_ok hd
    refine ⟨d :: cs, _, .cons ht' ht, ?_, by simp⟩
    simp [beq_iff_eq.1 hb]
  | case5 => cases h
  | case6 read c text hq hb hc ih =>
    obtain ⟨cs, t, ht, rfl, rfl⟩ := ih h
    rw [beq_iff_eq] at hq hb
    exact ⟨c :: cs, _, .cons (.plain (by omega) hq hb) ht, rfl, by simp⟩

/-- Every spelling of a string is read as the string. -/
theorem readString_of_spells {s : String} {t : List Char} (h : SpellsString s t)
    (rest : List Char) : ∃ t', t = '"' :: t' ∧ readString [] (t' ++ rest) = .ok (s, rest) := by
  obtain ⟨h⟩ := h
  refine ⟨_, rfl, ?_⟩
  rw [List.append_assoc]
  simpa using readString_append h [] rest

/-- What is read as a string is a spelling of it. -/
theorem spells_of_readString {s : String} {text rest : List Char}
    (h : readString [] text = .ok (s, rest)) :
    ∃ t, SpellsString s t ∧ '"' :: text = t ++ rest := by
  obtain ⟨cs, t, ht, rfl, rfl⟩ := readString_ok h
  refine ⟨'"' :: (t ++ ['"']), .intro (by simpa using ht), by simp⟩

end Polyglot.Json

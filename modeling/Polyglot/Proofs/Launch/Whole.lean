/-
Which texts are whole numbers on the command line. A count is written with an optional plus and at
least one digit, of any number of leading zeros, if the number is not too large. A port is written
in the same way; beside that, zero may also be written with a minus.
-/
import Polyglot.Launch.Options
import Polyglot.Proofs.Json.Numbers

namespace Polyglot.Launch

/-! ## Digits -/

/-- Reading digits on from a number gives what the digits write behind it, if that is not too large. -/
theorem readDigits_eq_ok_iff {bound n m : Nat} {overflow : WholeFault} {text : List Char}
    (hn : n ≤ bound) : readDigits bound overflow n text = .ok m ↔
      ∃ ds : List Digit, text = ds.map Digit.toChar ∧ m = Digit.valueBehind n ds ∧ m ≤ bound := by
  induction text generalizing n with
  | nil =>
    rw [readDigits]
    constructor
    · rintro ⟨⟩
      exact ⟨[], rfl, rfl, hn⟩
    · rintro ⟨ds, hds, rfl, -⟩
      rw [List.map_eq_nil_iff.1 hds.symm]
      rfl
  | cons c rest ih =>
    rw [readDigits]
    constructor
    · intro h
      split at h
      · cases h
      rename_i d hd
      split at h
      · cases h
      rename_i hle
      obtain ⟨ds, rfl, hm, hbound⟩ := (ih (by omega)).1 h
      exact ⟨d :: ds, by rw [List.map_cons, Digit.toChar_of_ofChar? hd], hm, hbound⟩
    · rintro ⟨ds, hds, hm, hbound⟩
      cases ds with
      | nil => cases hds
      | cons d ds =>
        rw [List.map_cons, List.cons.injEq] at hds
        obtain ⟨rfl, rfl⟩ := hds
        -- more digits make it no smaller, so the bound holds here already
        have hle := Digit.le_valueBehind (10 * n + d.val) ds
        rw [Digit.valueBehind_cons] at hm
        rw [Digit.ofChar?_toChar]
        dsimp only
        rw [if_neg (by omega)]
        exact (ih (by omega)).2 ⟨ds, rfl, hm, hbound⟩

/-! ## Whole numbers -/

/-- The text writes the number: an optional plus and digits, one at least. -/
def Writes (text : String) (n : Nat) : Prop :=
  ∃ sign ds, (sign = [] ∨ sign = ['+']) ∧ ds ≠ [] ∧ text.toList = sign ++ ds.map Digit.toChar ∧
    n = Digit.value ds

/-- A number without minus is read from what writes it, and from nothing else. -/
theorem readNatural_eq_ok_iff {bound n : Nat} {text : String} :
    readNatural bound text.toList = .ok n ↔ Writes text n ∧ n ≤ bound := by
  constructor
  · intro h
    unfold readNatural at h
    split at h
    · cases h
    · cases h
    · rename_i rest hrest htext
      obtain ⟨ds, rfl, rfl, hbound⟩ := (readDigits_eq_ok_iff (Nat.zero_le bound)).1 h
      refine ⟨⟨['+'], ds, .inr rfl, ?_, htext, rfl⟩, hbound⟩
      rintro rfl
      exact hrest rfl
    · rename_i hempty _ _
      obtain ⟨ds, hds, rfl, hbound⟩ := (readDigits_eq_ok_iff (Nat.zero_le bound)).1 h
      refine ⟨⟨[], ds, .inl rfl, ?_, hds, rfl⟩, hbound⟩
      rintro rfl
      exact hempty hds
  · rintro ⟨⟨sign, ds, hsign, hds, htext, rfl⟩, hbound⟩
    have hread : readDigits bound .tooLarge 0 (ds.map Digit.toChar) = .ok (Digit.value ds) :=
      (readDigits_eq_ok_iff (Nat.zero_le bound)).2 ⟨ds, rfl, rfl, hbound⟩
    obtain ⟨d, ds, rfl⟩ := List.exists_cons_of_ne_nil hds
    rw [htext]
    rcases hsign with rfl | rfl
    · rw [← hread]
      -- a digit is no sign, so the text without one is read at once
      have hplus := Digit.toChar_ne_of_isDigit (c := '+') (by decide) d
      simp [readNatural, hplus]
    · exact hread

/-! ## Counts and ports -/

/-- The text writes a count. -/
def WritesCount (text : String) (n : Nat) : Prop := Writes text n ∧ n ≤ 0xFFFFFFFFFFFFFFFF

theorem readCount_eq_ok_iff {text : String} {n : Nat} :
    Draft.readCount text = .ok n ↔ WritesCount text n := by
  rw [WritesCount, ← readNatural_eq_ok_iff, Draft.readCount]
  cases readNatural 0xFFFFFFFFFFFFFFFF text.toList <;> simp

/-- The text is a minus and zeros, one at least. -/
def IsMinusZero (text : String) : Prop :=
  ∃ zeros, text.toList = '-' :: List.replicate (zeros + 1) '0'

/-- The text writes a port: a number in the range of ports, or zero behind a minus. -/
def WritesPort (text : String) (n : Nat) : Prop :=
  Writes text n ∧ n ≤ 65535 ∨ IsMinusZero text ∧ n = 0

theorem value_eq_zero_iff {ds : List Digit} :
    Digit.value ds = 0 ↔ ds = List.replicate ds.length Digit.zero := by
  have hbehind (n : Nat) : Digit.valueBehind n ds = 0 ↔
      n = 0 ∧ ds = List.replicate ds.length Digit.zero := by
    induction ds generalizing n with
    | nil => simp [Digit.valueBehind]
    | cons d ds ih =>
      have hd : d = Digit.zero ↔ d.val = 0 := Fin.ext_iff
      have hsum : 10 * n + d.val = 0 ↔ n = 0 ∧ d.val = 0 := by omega
      rw [Digit.valueBehind_cons, ih, List.length_cons, List.replicate_succ, List.cons.injEq, hd,
        hsum, and_assoc]
  exact (hbehind 0).trans (and_iff_right rfl)

theorem readInteger_of_ne {text : List Char} (h : ∀ rest, text ≠ '-' :: rest) :
    readInteger text = (readNatural 0x7FFFFFFFFFFFFFFF text).map fun n => (n : Int) := by
  unfold readInteger
  split
  · exact absurd rfl (h [])
  · exact absurd rfl (h _)
  · rfl

/-- Behind a minus digits are read, one at least. -/
theorem readInteger_minus_eq_ok_iff {rest : List Char} {z : Int} :
    readInteger ('-' :: rest) = .ok z ↔ ∃ ds : List Digit, ds ≠ [] ∧
      rest = ds.map Digit.toChar ∧ Digit.value ds ≤ 0x8000000000000000 ∧
      z = -(Digit.value ds : Int) := by
  cases rest with
  | nil =>
    rw [readInteger]
    constructor
    · rintro ⟨⟩
    · rintro ⟨ds, hne, hds, -⟩
      exact absurd (List.map_eq_nil_iff.1 hds.symm) hne
  | cons c rest =>
    have hread : readInteger ('-' :: c :: rest) =
        (readDigits 0x8000000000000000 .tooSmall 0 (c :: rest)).map fun n => -(n : Int) := rfl
    rw [hread]
    constructor
    · intro h
      cases hdigits : readDigits 0x8000000000000000 .tooSmall 0 (c :: rest) with
      | error f =>
        rw [hdigits] at h
        cases h
      | ok n =>
        rw [hdigits] at h
        cases h
        obtain ⟨ds, hds, rfl, hbound⟩ := (readDigits_eq_ok_iff (Nat.zero_le _)).1 hdigits
        refine ⟨ds, ?_, hds, hbound, rfl⟩
        rintro rfl
        cases hds
    · rintro ⟨ds, -, hds, hbound, rfl⟩
      rw [(readDigits_eq_ok_iff (Nat.zero_le _)).2 ⟨ds, hds, rfl, hbound⟩]
      rfl

theorem Writes.ne_minus {text : String} {n : Nat} (h : Writes text n) (rest : List Char) :
    text.toList ≠ '-' :: rest := by
  obtain ⟨sign, ds, hsign, hds, htext, -⟩ := h
  obtain ⟨d, ds, rfl⟩ := List.exists_cons_of_ne_nil hds
  have hminus := Digit.toChar_ne_of_isDigit (c := '-') (by decide) d
  rw [htext]
  rcases hsign with rfl | rfl <;> simp [hminus]

/-- Behind a minus nothing but zeros writes a port. -/
theorem exists_readInteger_minus_iff {rest : List Char} :
    (∃ z : Int, readInteger ('-' :: rest) = .ok z ∧ 0 ≤ z) ↔
      ∃ zeros, rest = List.replicate (zeros + 1) '0' := by
  constructor
  · rintro ⟨z, hz, hle⟩
    obtain ⟨ds, hne, rfl, -, rfl⟩ := readInteger_minus_eq_ok_iff.1 hz
    have hzero := value_eq_zero_iff.1 (show Digit.value ds = 0 by omega)
    obtain ⟨zeros, hlength⟩ := Nat.exists_eq_succ_of_ne_zero
      (fun h => hne (List.length_eq_zero_iff.1 h))
    rw [hlength] at hzero
    exact ⟨zeros, by rw [hzero, List.map_replicate]; rfl⟩
  · rintro ⟨zeros, rfl⟩
    have hvalue : Digit.value (List.replicate (zeros + 1) Digit.zero) = 0 :=
      value_eq_zero_iff.2 (by rw [List.length_replicate])
    refine ⟨0, readInteger_minus_eq_ok_iff.2 ⟨List.replicate (zeros + 1) Digit.zero, ?_, ?_, ?_, ?_⟩,
      Int.le_refl 0⟩
    · simp
    · rw [List.map_replicate]
      rfl
    · omega
    · omega

/-- A port is read from what writes it, and from nothing else. -/
theorem readPort_eq_ok_iff {text : String} {n : Nat} :
    Draft.readPort text = .ok n ↔ WritesPort text n := by
  have hport : Draft.readPort text = .ok n ↔
      ∃ z : Int, readInteger text.toList = .ok z ∧ 0 ≤ z ∧ z ≤ 65535 ∧ z.toNat = n := by
    rw [Draft.readPort]
    cases readInteger text.toList with
    | error f => simp
    | ok z => by_cases hrange : 0 ≤ z ∧ z ≤ 65535 <;> simp [← and_assoc, hrange]
  rw [hport, WritesPort]
  -- behind a minus only zeros are in range
  by_cases hminus : ∃ rest, text.toList = '-' :: rest
  · obtain ⟨rest, hrest⟩ := hminus
    have hzeros := @exists_readInteger_minus_iff rest
    rw [IsMinusZero, hrest]
    constructor
    · rintro ⟨z, hz, hle, -, rfl⟩
      obtain ⟨ds, -, -, -, rfl⟩ := readInteger_minus_eq_ok_iff.1 hz
      obtain ⟨zeros, rfl⟩ := hzeros.1 ⟨_, hz, hle⟩
      exact .inr ⟨⟨zeros, rfl⟩, by omega⟩
    · rintro (⟨hwrites, -⟩ | ⟨⟨zeros, hsame⟩, rfl⟩)
      · exact absurd hrest (hwrites.ne_minus rest)
      · rw [List.cons.injEq] at hsame
        obtain ⟨z, hz, hle⟩ := hzeros.2 ⟨zeros, hsame.2⟩
        obtain ⟨ds, -, -, -, rfl⟩ := readInteger_minus_eq_ok_iff.1 hz
        exact ⟨_, hz, hle, by omega, by omega⟩
  · have hno : ¬ IsMinusZero text := fun ⟨zeros, h⟩ => hminus ⟨_, h⟩
    rw [readInteger_of_ne (fun rest h => hminus ⟨rest, h⟩)]
    constructor
    · rintro ⟨z, hz, hle, hhigh, rfl⟩
      cases hread : readNatural 0x7FFFFFFFFFFFFFFF text.toList with
      | error f =>
        rw [hread] at hz
        cases hz
      | ok m =>
        rw [hread] at hz
        cases hz
        exact .inl ⟨(readNatural_eq_ok_iff.1 hread).1, by omega⟩
    · rintro (⟨hwrites, hle⟩ | ⟨hzero, -⟩)
      · rw [readNatural_eq_ok_iff.2 ⟨hwrites, by omega⟩]
        exact ⟨n, rfl, by omega, by omega, by omega⟩
      · exact absurd hzero hno

end Polyglot.Launch

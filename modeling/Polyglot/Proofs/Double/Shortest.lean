/-
The shortest decimal is a decimal: seventeen digits always suffice, so the search for one that reads
back comes to an end with one, and since a decimal that reads back as a positive number of steps is
not zero, its digits begin with another digit than zero. Laid out in any layout it is a well-formed
numeral.

Around a number of steps the doubles lie `spacing` steps apart, and there are fewer than 2^53 of
these distances below it. The decimals of seventeen digits lie closer than that, as 2^53 < 10^16.
-/
import Polyglot.Double.Layout
import Mathlib.Algebra.Order.Ring.Nat

namespace Polyglot.Double

theorem one_pos : 0 < one := by
  have h : ∀ n, 0 < Nat.pow 2 n := Nat.two_pow_pos
  unfold one
  exact h 1074

/-! ## Spacing -/

theorem spacing_le {steps : Nat} (h : 0 < steps) : spacing steps ≤ steps := by
  unfold spacing
  split
  · exact h
  · calc 2 ^ (steps.log2 - 52) ≤ 2 ^ steps.log2 := Nat.pow_le_pow_right (by decide) (by omega)
      _ ≤ steps := Nat.log2_self_le (by omega)

/-- Fewer than 2^53 distances between doubles lie below a number of steps. -/
theorem lt_mul_spacing (steps : Nat) : steps < 2 ^ 53 * spacing steps := by
  unfold spacing
  split
  · rename_i h
    simpa using h
  · rename_i h
    rw [Nat.pow_eq] at h ⊢
    have hlog : 53 ≤ steps.log2 := (Nat.le_log2 (by omega)).2 (by omega)
    calc steps < 2 ^ (steps.log2 + 1) := Nat.lt_log2_self
      _ = 2 ^ 53 * 2 ^ (steps.log2 - 52) := by
        rw [← Nat.pow_add]
        congr 1
        omega

/-! ## The leading place -/

theorem pow_width_le {n : Nat} (h : n ≠ 0) : 10 ^ (width n - 1) ≤ n := by
  rw [width, if_neg h]
  by_cases hw : (Nat.toDigits 10 n).length - 1 = 0
  · rw [hw]
    omega
  · have := Nat.length_toDigits_le_iff (n := n) (b := 10) (by decide) (Nat.pos_of_ne_zero hw)
    omega

theorem lt_pow_width (n : Nat) : n < 10 ^ width n := by
  unfold width
  split
  · rename_i h
    rw [h]
    decide
  · exact (Nat.length_toDigits_le_iff (by decide) Nat.length_toDigits_pos).1 (Nat.le_refl _)

/-- A digit in the leading place is worth no more than the number of steps. -/
theorem pow_leadingPlace_le {steps : Nat} (h : 0 < steps) :
    one * 10 ^ (leadingPlace steps).toNat ≤ steps * 10 ^ (-leadingPlace steps).toNat := by
  unfold leadingPlace
  split
  · rename_i hone
    have hq : steps / one ≠ 0 := by
      have := Nat.div_pos hone one_pos
      omega
    have hwidth : 0 < width (steps / one) := by
      rw [width, if_neg hq]
      exact Nat.length_toDigits_pos
    rw [show ((width (steps / one) : Int) - 1).toNat = width (steps / one) - 1 by omega,
      show (-((width (steps / one) : Int) - 1)).toNat = 0 by omega, Nat.pow_zero, Nat.mul_one]
    exact Nat.le_trans (Nat.mul_le_mul_left one (pow_width_le hq)) (Nat.mul_div_le steps one)
  · -- below one the place is negative, and the powers of ten are tried one after the other
    have hlt : one < 10 ^ width (one / steps) * steps :=
      (Nat.div_lt_iff_lt_mul h).1 (lt_pow_width _)
    generalize width (one / steps) = scale at hlt
    have hplace : ∀ place : Nat, one ≤ 10 ^ place * steps →
        one * 10 ^ (-(place : Int)).toNat ≤ steps * 10 ^ (- -(place : Int)).toNat := by
      intro place hle
      rw [show (-(place : Int)).toNat = 0 by omega, show (- -(place : Int)).toNat = place by omega,
        Nat.pow_zero, Nat.mul_one, Nat.mul_comm]
      exact hle
    dsimp only
    split
    · rename_i hle
      rw [Nat.pow_eq] at hle
      omega
    · split
      · exact hplace scale (Nat.le_of_lt hlt)
      · rename_i hle
        rw [Nat.pow_eq, Nat.not_lt] at hle
        have hscale : scale ≠ 0 := by
          rintro rfl
          omega
        have := hplace (scale - 1) hle
        rwa [show -((scale - 1 : Nat) : Int) = -(scale : Int) + 1 by omega] at this

/-! ## Reading back -/

/-- What a place is scaled by to be a whole number. -/
def scaleOf (place : Int) : Nat := 10 ^ (-place).toNat

/-- The steps of a one in the given place, scaled. -/
def unitOf (place : Int) : Nat := one * 10 ^ place.toNat

/-- What the lower midpoint is off, in quarters of a step. -/
def below (steps : Nat) : Nat :=
  if steps == Nat.pow 2 53 * (spacing steps / 2) ∧ 1 < spacing steps then spacing steps
  else 2 * spacing steps

theorem readsBack_eq (steps digits : Nat) (place : Int) :
    readsBack steps ⟨digits, place⟩ =
      if steps / spacing steps % 2 == 0 then
        (4 * steps - below steps) * scaleOf place ≤ 4 * digits * unitOf place &&
          4 * digits * unitOf place ≤ (4 * steps + 2 * spacing steps) * scaleOf place
      else
        (4 * steps - below steps) * scaleOf place < 4 * digits * unitOf place &&
          4 * digits * unitOf place < (4 * steps + 2 * spacing steps) * scaleOf place := by
  unfold readsBack scaleOf unitOf below
  generalize one = step
  dsimp only
  by_cases hplace : 0 ≤ place
  · have hvalue : digits * Nat.pow 10 place.toNat * 4 * step =
        4 * digits * (step * 10 ^ place.toNat) := by
      rw [Nat.pow_eq]
      ac_rfl
    have hscale : (-place).toNat = 0 := by omega
    simp only [hplace, if_true, hvalue, hscale, Nat.pow_zero]
  · have hvalue : digits * 4 * step = 4 * digits * (step * 10 ^ place.toNat) := by
      rw [show place.toNat = 0 by omega]
      ac_rfl
    simp only [hplace, if_false, hvalue, Nat.pow_eq]

theorem scaleOf_pos (place : Int) : 0 < scaleOf place := Nat.pow_pos (by decide)

theorem unitOf_pos (place : Int) : 0 < unitOf place :=
  Nat.mul_pos one_pos (Nat.pow_pos (by decide))

theorem below_le (steps : Nat) : below steps ≤ 2 * spacing steps := by
  unfold below
  split <;> omega

/-- A decimal reads back if it lies strictly between the midpoints. -/
theorem readsBack_of_lt {steps digits : Nat} {place : Int} (h : 0 < steps)
    (hlow : 4 * (steps * scaleOf place) < 4 * (digits * unitOf place) + below steps * scaleOf place)
    (hhigh : 4 * (digits * unitOf place) < 4 * (steps * scaleOf place) +
      2 * (spacing steps * scaleOf place)) :
    readsBack steps ⟨digits, place⟩ = true := by
  have hbelow := Nat.mul_le_mul_right (scaleOf place) (below_le steps)
  have hspacing := Nat.mul_le_mul_right (scaleOf place) (spacing_le h)
  have hpos := Nat.mul_pos h (scaleOf_pos place)
  have h1 : (4 * steps - below steps) * scaleOf place < 4 * digits * unitOf place := by
    rw [Nat.sub_mul, Nat.mul_assoc, Nat.mul_assoc]
    rw [Nat.mul_assoc] at hbelow
    omega
  have h2 : 4 * digits * unitOf place < (4 * steps + 2 * spacing steps) * scaleOf place := by
    rw [Nat.add_mul, Nat.mul_assoc, Nat.mul_assoc, Nat.mul_assoc]
    exact hhigh
  rw [readsBack_eq]
  split
  · simp [Nat.le_of_lt h1, Nat.le_of_lt h2]
  · simp [h1, h2]

/-- Zero does not read back as a positive number. -/
theorem digits_ne_zero_of_readsBack {steps : Nat} {d : Decimal} (h : 0 < steps)
    (hread : readsBack steps d = true) : d.digits ≠ 0 := by
  obtain ⟨digits, place⟩ := d
  rintro rfl
  have hbelow := below_le steps
  have hspacing := spacing_le h
  have hlow : 0 < (4 * steps - below steps) * scaleOf place :=
    Nat.mul_pos (by omega) (scaleOf_pos place)
  rw [readsBack_eq, Nat.mul_zero, Nat.zero_mul] at hread
  split at hread <;> rw [Bool.and_eq_true, decide_eq_true_eq] at hread
  · exact absurd hread.1 (by omega)
  · exact absurd hread.1 (by omega)

/-! ## Seventeen digits -/

/-- Where ones are worth less than a part in 10^16 of the value, half of one is less than the
distance to either midpoint. -/
theorem unitOf_lt {steps : Nat} {place : Int}
    (h : unitOf place * 10 ^ 16 ≤ steps * scaleOf place) :
    2 * unitOf place < below steps * scaleOf place := by
  have hunit := unitOf_pos place
  have hspacing := Nat.mul_le_mul_right (scaleOf place) (Nat.le_of_lt (lt_mul_spacing steps))
  rw [Nat.mul_assoc] at hspacing
  unfold below
  split
  · -- just below a power of two the doubles lie closer, and there are 2^52 distances only
    rename_i hpower
    obtain ⟨hpower, -⟩ := hpower
    rw [beq_iff_eq, Nat.pow_eq] at hpower
    have hhalf : steps ≤ 2 ^ 52 * spacing steps := by omega
    have hhalf' := Nat.mul_le_mul_right (scaleOf place) hhalf
    rw [Nat.mul_assoc] at hhalf'
    omega
  · rw [Nat.mul_assoc]
    omega

/-- Of the two decimals around the value the nearer one is tried first. -/
theorem atPlace_eq (tie : Tie) (steps : Nat) (place : Int) :
    ∃ first second, 2 * (first * unitOf place) ≤ 2 * (steps * scaleOf place) + unitOf place ∧
      2 * (steps * scaleOf place) ≤ 2 * (first * unitOf place) + unitOf place ∧
      atPlace tie steps place =
        if readsBack steps ⟨first, place⟩ then some ⟨first, place⟩
        else if readsBack steps ⟨second, place⟩ then some ⟨second, place⟩
        else none := by
  have hratio : (if 0 ≤ place then (steps, one * Nat.pow 10 place.toNat)
      else (steps * Nat.pow 10 (-place).toNat, one)) =
        (steps * scaleOf place, unitOf place) := by
    unfold scaleOf unitOf
    split
    · rw [show (-place).toNat = 0 by omega, Nat.pow_zero, Nat.mul_one, Nat.pow_eq]
    · rw [show place.toNat = 0 by omega, Nat.pow_zero, Nat.mul_one, Nat.pow_eq]
  unfold atPlace
  rw [hratio]
  dsimp only
  -- what matters of the two is only that the first one is a nearest
  have hdiv := Nat.div_add_mod (steps * scaleOf place) (unitOf place)
  have hmod := Nat.mod_lt (steps * scaleOf place) (unitOf_pos place)
  generalize steps * scaleOf place = value at *
  generalize value / unitOf place = lower at *
  generalize value % unitOf place = remainder at *
  have hupper : (lower + 1) * unitOf place = unitOf place * lower + unitOf place := by
    rw [Nat.add_mul, Nat.one_mul, Nat.mul_comm]
  have hlower : lower * unitOf place = unitOf place * lower := Nat.mul_comm _ _
  split
  · exact ⟨lower, lower + 1, by omega, by omega, rfl⟩
  · split
    · exact ⟨lower + 1, lower, by omega, by omega, rfl⟩
    · cases tie with
      | toEven =>
        dsimp only
        split
        · exact ⟨lower, lower + 1, by omega, by omega, rfl⟩
        · exact ⟨lower + 1, lower, by omega, by omega, rfl⟩
      | away => exact ⟨lower + 1, lower, by omega, by omega, rfl⟩

theorem readsBack_of_atPlace {tie : Tie} {steps : Nat} {place : Int} {d : Decimal}
    (h : atPlace tie steps place = some d) : readsBack steps d = true := by
  obtain ⟨first, second, -, -, e⟩ := atPlace_eq tie steps place
  rw [e] at h
  split at h
  · cases h
    assumption
  · split at h
    · cases h
      assumption
    · cases h

/-- In the seventeenth place the nearest decimal reads back. -/
theorem exists_atPlace {tie : Tie} {steps : Nat} {place : Int} (hpos : 0 < steps)
    (h : unitOf place * 10 ^ 16 ≤ steps * scaleOf place) :
    ∃ d, atPlace tie steps place = some d := by
  obtain ⟨first, second, hhigh, hlow, e⟩ := atPlace_eq tie steps place
  have hunit := unitOf_lt h
  have hbelow := Nat.mul_le_mul_right (scaleOf place) (below_le steps)
  rw [Nat.mul_assoc] at hbelow
  have hread : readsBack steps ⟨first, place⟩ = true :=
    readsBack_of_lt hpos (by omega) (by omega)
  exact ⟨_, by rw [e, if_pos hread]⟩

/-- The search ends at one of the places that it tries if it comes to one that has a decimal. -/
theorem atPlace_shortestFrom {tie : Tie} {steps : Nat} {more : Nat} {place : Int}
    (h : ∃ k < more, ∃ d, atPlace tie steps (place - k) = some d) :
    ∃ k < more, atPlace tie steps (place - k) = some (shortestFrom tie steps more place) := by
  induction more generalizing place with
  | zero =>
    obtain ⟨k, hk, -⟩ := h
    omega
  | succ more ih =>
    have hback (k : Nat) : place - 1 - (k : Int) = place - (k + 1 : Nat) := by omega
    rw [shortestFrom]
    split
    · rename_i d hd
      exact ⟨0, by omega, by rwa [show place - (0 : Nat) = place by omega]⟩
    · rename_i hnone
      obtain ⟨k, hk, d, hd⟩ := h
      -- the place that has one is still ahead, one nearer
      cases k with
      | zero =>
        rw [show place - (0 : Nat) = place by omega, hnone] at hd
        cases hd
      | succ k =>
        obtain ⟨k', hk', hfound⟩ := ih ⟨k, by omega, d, hback k ▸ hd⟩
        exact ⟨k' + 1, by omega, hback k' ▸ hfound⟩

/-- What it ends with reads back. -/
theorem readsBack_shortestFrom {tie : Tie} {steps : Nat} {more : Nat} {place : Int}
    (h : ∃ k < more, ∃ d, atPlace tie steps (place - k) = some d) :
    readsBack steps (shortestFrom tie steps more place) = true := by
  obtain ⟨k, -, hfound⟩ := atPlace_shortestFrom h
  exact readsBack_of_atPlace hfound

theorem digits_stripped_ne_zero {limit : Nat} {d : Decimal} (h : d.digits ≠ 0) :
    (d.stripped limit).digits ≠ 0 := by
  induction limit generalizing d with
  | zero => exact h
  | succ limit ih =>
    rw [Decimal.stripped]
    split
    · exact ih (by dsimp only; omega)
    · exact h

/-- The seventeenth place is fine enough. -/
theorem unitOf_mul_le {steps : Nat} (h : 0 < steps) :
    unitOf (leadingPlace steps - (16 : Nat)) * 10 ^ 16 ≤
      steps * scaleOf (leadingPlace steps - (16 : Nat)) := by
  have hlead := pow_leadingPlace_le h
  unfold unitOf scaleOf
  generalize leadingPlace steps = place at *
  obtain ⟨k, hup, hdown⟩ : ∃ k, (place - (16 : Nat)).toNat + 16 = place.toNat + k ∧
      (-(place - (16 : Nat))).toNat = (-place).toNat + k :=
    ⟨(-(place - (16 : Nat))).toNat - (-place).toNat, by omega, by omega⟩
  calc one * 10 ^ (place - (16 : Nat)).toNat * 10 ^ 16
      = one * 10 ^ place.toNat * 10 ^ k := by
        rw [Nat.mul_assoc, ← Nat.pow_add, hup, Nat.pow_add, Nat.mul_assoc]
    _ ≤ steps * 10 ^ (-place).toNat * 10 ^ k := Nat.mul_le_mul_right _ hlead
    _ = steps * 10 ^ (-(place - (16 : Nat))).toNat := by
        rw [Nat.mul_assoc, ← Nat.pow_add, hdown]

/-- The shortest decimal of a positive number is not zero. -/
theorem digits_shortest_ne_zero (tie : Tie) {steps : Nat} (h : 0 < steps) :
    (shortest tie steps).digits ≠ 0 := by
  have hread : readsBack steps (shortestFrom tie steps 17 (leadingPlace steps)) = true := by
    refine readsBack_shortestFrom ⟨16, by omega, ?_⟩
    exact exists_atPlace h (unitOf_mul_le h)
  exact digits_stripped_ne_zero (digits_ne_zero_of_readsBack h hread)

/-! ## Layouts -/

theorem ofChar?_digitChar {n : Nat} (h : n < 10) : Digit.ofChar? n.digitChar = some ⟨n, h⟩ := by
  revert n
  decide

theorem digitsOf_of_lt {n : Nat} (h : n < 10) : digitsOf n = [⟨n, h⟩] := by
  rw [digitsOf, Nat.toDigits_of_lt_base h, List.filterMap_cons, ofChar?_digitChar h]
  rfl

theorem digitsOf_of_le {n : Nat} (h : 10 ≤ n) :
    digitsOf n = digitsOf (n / 10) ++ [⟨n % 10, Nat.mod_lt n (by decide)⟩] := by
  rw [digitsOf, Nat.toDigits_of_base_le (by decide) h, List.filterMap_append,
    List.filterMap_cons, ofChar?_digitChar (Nat.mod_lt n (by decide))]
  rfl

theorem digitsOf_ne_nil (n : Nat) : digitsOf n ≠ [] := by
  by_cases h : n < 10
  · rw [digitsOf_of_lt h]
    exact List.cons_ne_nil _ _
  · rw [digitsOf_of_le (by omega)]
    simp

/-- The digits begin with another one than zero. -/
def Leads (ds : List Digit) : Prop := ∃ d rest, ds = d :: rest ∧ d ≠ Digit.zero

theorem Leads.isWhole {ds : List Digit} (h : Leads ds) : Digit.IsWhole ds := by
  obtain ⟨d, rest, rfl, hd⟩ := h
  refine ⟨List.cons_ne_nil _ _, fun hzero => ?_⟩
  rw [List.head?_cons, Option.some.injEq] at hzero
  exact absurd hzero hd

theorem Leads.append {ds : List Digit} (h : Leads ds) (ds' : List Digit) : Leads (ds ++ ds') := by
  obtain ⟨d, rest, rfl, hd⟩ := h
  exact ⟨d, rest ++ ds', rfl, hd⟩

theorem Leads.take {ds : List Digit} (h : Leads ds) {k : Nat} (hk : 0 < k) :
    Leads (ds.take k) := by
  obtain ⟨d, rest, rfl, hd⟩ := h
  obtain ⟨k, rfl⟩ : ∃ k', k = k' + 1 := ⟨k - 1, by omega⟩
  exact ⟨d, rest.take k, rfl, hd⟩

theorem isWhole_zero : Digit.IsWhole [Digit.zero] := by decide

theorem leads_digitsOf {n : Nat} (h : n ≠ 0) : Leads (digitsOf n) := by
  induction n using Nat.strongRecOn with
  | ind n ih =>
    by_cases hn : n < 10
    · rw [digitsOf_of_lt hn]
      refine ⟨_, [], rfl, fun hzero => h ?_⟩
      exact congrArg Fin.val hzero
    · rw [digitsOf_of_le (by omega)]
      exact (ih (n / 10) (by omega) (by omega)).append _

/-- A decimal that is not zero is laid out as a well-formed numeral. -/
theorem Layout.wellFormed_arrange (layout : Layout) (negative : Bool) {d : Decimal}
    (h : d.digits ≠ 0) : (layout.arrange negative d).WellFormed := by
  have hleads := leads_digitsOf h
  unfold Layout.arrange
  dsimp only
  split
  · split
    · exact ⟨(hleads.append _).isWhole, by simp⟩
    · split
      · exact ⟨(hleads.take (by omega)).isWhole, by simp⟩
      · exact ⟨isWhole_zero, by simp⟩
  · refine ⟨(hleads.take (by decide)).isWhole, ?_⟩
    rintro e ⟨⟩
    exact digitsOf_ne_nil _

/-- A finite double is written as a well-formed numeral in any layout. -/
theorem Layout.wellFormed_numeral (layout : Layout) (negative : Bool) (steps : Nat) :
    (layout.numeral negative steps).WellFormed := by
  unfold Layout.numeral
  split
  · exact ⟨isWhole_zero, by simp⟩
  · exact layout.wellFormed_arrange negative (digits_shortest_ne_zero _ (by omega))

end Polyglot.Double

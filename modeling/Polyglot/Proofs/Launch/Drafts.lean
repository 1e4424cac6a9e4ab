/-
Drafts of options, told by the texts of their settings (`Draft.Says`). Texts for different settings are
taken up just if all can be read, and the draft that they make says what they say, in whatever order
they came. What the environment supplies is taken up in the same way, for the settings that are not
known by then.
-/
import Polyglot.Proofs.Launch.Whole

namespace Polyglot.Launch

/-! ## Values -/

/-- The value of a setting. -/
inductive Value where
  | text (text : String)
  | number (number : Nat)

/-- Reads the value of a setting. -/
def Setting.read : Setting → String → Except ValueFault Value
  | host, text => .ok (.text text)
  | port, text => (Draft.readPort text).map .number
  | defaultBackend, text => .ok (.text text)
  | maxPredictions, text => (Draft.readCount text).map .number
  | maxContentBytes, text => (Draft.readCount text).map .number

/-- The value of a setting among the options. -/
def Options.value (o : Options) : Setting → Value
  | .host => .text o.host
  | .port => .number o.port
  | .defaultBackend => .text o.defaultBackend
  | .maxPredictions => .number o.maxPredictions
  | .maxContentBytes => .number o.maxContentBytes

theorem Options.ext_value {o o' : Options} (h : ∀ s, o.value s = o'.value s) : o = o' := by
  obtain ⟨host, port, defaultBackend, maxPredictions, maxContentBytes⟩ := o
  rw [Options.mk.injEq]
  exact ⟨Value.text.inj (h .host), Value.number.inj (h .port), Value.text.inj (h .defaultBackend),
    Value.number.inj (h .maxPredictions), Value.number.inj (h .maxContentBytes)⟩

/-- The default of a setting is what its text says. -/
theorem read_defaultText (s : Setting) :
    s.read s.defaultText = .ok (Options.standard.value s) := by
  cases s <;> rfl

namespace Draft

variable {d d' : Draft} {s : Setting} {text : String} {texts : Setting → Option String}

/-- The value of a setting, if it is known. -/
def value? (d : Draft) : Setting → Option Value
  | .host => d.host.map .text
  | .port => d.port.map .number
  | .defaultBackend => d.defaultBackend.map .text
  | .maxPredictions => d.maxPredictions.map .number
  | .maxContentBytes => d.maxContentBytes.map .number

theorem has_eq (d : Draft) (s : Setting) : d.has s = (d.value? s).isSome := by
  cases s <;> simp [has, value?]

theorem ext_value? (h : ∀ s, d.value? s = d'.value? s) : d = d' := by
  have htext {a b : Option String} (hab : a.map Value.text = b.map Value.text) : a = b :=
    Option.map_injective (fun _ _ h => Value.text.inj h) hab
  have hnumber {a b : Option Nat} (hab : a.map Value.number = b.map Value.number) : a = b :=
    Option.map_injective (fun _ _ h => Value.number.inj h) hab
  obtain ⟨host, port, defaultBackend, maxPredictions, maxContentBytes⟩ := d
  rw [Draft.mk.injEq]
  exact ⟨htext (h .host), hnumber (h .port), htext (h .defaultBackend),
    hnumber (h .maxPredictions), hnumber (h .maxContentBytes)⟩

theorem value_complete (d : Draft) (s : Setting) :
    d.complete.value s = (d.value? s).getD (Options.standard.value s) := by
  obtain ⟨host, port, defaultBackend, maxPredictions, maxContentBytes⟩ := d
  cases s with
  | host => cases host <;> rfl
  | port => cases port <;> rfl
  | defaultBackend => cases defaultBackend <;> rfl
  | maxPredictions => cases maxPredictions <;> rfl
  | maxContentBytes => cases maxContentBytes <;> rfl

/-- A value is taken up if it can be read, and then nothing else changes. -/
theorem exists_put {v : Value} (h : s.read text = .ok v) (d : Draft) :
    ∃ d', d.put s text = .ok d' ∧ ∀ s', d'.value? s' = if s' = s then some v else d.value? s' := by
  have hnumber {read : Except ValueFault Nat} (hread : read.map Value.number = .ok v) :
      ∃ n, read = .ok n ∧ v = .number n := by
    cases read with
    | error f => cases hread
    | ok n => exact ⟨n, rfl, (Except.ok.inj hread).symm⟩
  cases s with
  | host | defaultBackend =>
    cases h
    refine ⟨_, rfl, fun s' => ?_⟩
    cases s' <;> rfl
  | port | maxPredictions | maxContentBytes =>
    obtain ⟨n, hn, rfl⟩ := hnumber h
    rw [put, hn]
    refine ⟨_, rfl, fun s' => ?_⟩
    cases s' <;> rfl

theorem put_eq_error {f : ValueFault} (h : s.read text = .error f) (d : Draft) :
    d.put s text = .error (.invalidValue text s f) := by
  have hnumber {read : Except ValueFault Nat} (hread : read.map Value.number = .error f) :
      read = .error f := by
    cases read with
    | error f' => rw [Except.error.inj hread]
    | ok n => cases hread
  cases s with
  | host | defaultBackend => cases h
  | port | maxPredictions | maxContentBytes =>
    rw [put, hnumber h]
    rfl

/-! ## Drafts and texts -/

/-- The draft holds what the texts say, and nothing for settings without a text. -/
def Says (d : Draft) (texts : Setting → Option String) : Prop :=
  ∀ s, (texts s).map s.read = (d.value? s).map .ok

theorem says_blank : blank.Says fun _ => none := fun s => by cases s <;> rfl

theorem Says.unique (h : d.Says texts) (h' : d'.Says texts) : d = d' :=
  ext_value? fun s =>
    Option.map_injective (fun _ _ heq => Except.ok.inj heq) ((h s).symm.trans (h' s))

theorem Says.has (h : d.Says texts) (s : Setting) : d.has s = (texts s).isSome := by
  rw [has_eq, ← Option.isSome_map (f := Except.ok (ε := ValueFault)), ← h s, Option.isSome_map]

/-- What is not known is completed by the defaults. -/
theorem Says.read_complete (h : d.Says texts) (s : Setting) :
    s.read ((texts s).getD s.defaultText) = .ok (d.complete.value s) := by
  have hs := h s
  rw [value_complete]
  cases htext : texts s with
  | none =>
    rw [htext] at hs
    rw [Option.map_eq_none_iff.1 hs.symm]
    exact read_defaultText s
  | some text =>
    rw [htext] at hs
    obtain ⟨v, hv, hread⟩ := Option.map_eq_some_iff.1 hs.symm
    rw [hv]
    exact hread.symm

theorem exists_says {o : Options}
    (h : ∀ s : Setting, s.read ((texts s).getD s.defaultText) = .ok (o.value s)) :
    ∃ d : Draft, d.Says texts := by
  refine ⟨⟨(texts .host).map fun _ => o.host, (texts .port).map fun _ => o.port,
    (texts .defaultBackend).map fun _ => o.defaultBackend,
    (texts .maxPredictions).map fun _ => o.maxPredictions,
    (texts .maxContentBytes).map fun _ => o.maxContentBytes⟩, fun s => ?_⟩
  have hs := h s
  cases htext : texts s <;> rw [htext] at hs <;> cases s <;> simp_all [value?, Options.value]

theorem exists_of_put (h : d.put s text = .ok d') : ∃ v, s.read text = .ok v ∧
    ∀ s', d'.value? s' = if s' = s then some v else d.value? s' := by
  cases hread : s.read text with
  | error f =>
    rw [put_eq_error hread] at h
    cases h
  | ok v =>
    obtain ⟨d₁, hput, hvalue⟩ := exists_put hread d
    rw [hput] at h
    cases h
    exact ⟨v, rfl, hvalue⟩

/-- Takes up texts one after the other. -/
def giveAll (d : Draft) : List (Setting × String) → Except UsageFault Draft
  | [] => .ok d
  | (s, text) :: rest => (d.give s text).bind (giveAll · rest)

theorem giveAll_append (d : Draft) (given more : List (Setting × String)) :
    d.giveAll (given ++ more) = (d.giveAll given).bind (giveAll · more) := by
  induction given generalizing d with
  | nil => rfl
  | cons g given ih =>
    obtain ⟨s, text⟩ := g
    rw [List.cons_append, giveAll, giveAll]
    cases d.give s text with
    | error f => rfl
    | ok d' => exact ih d'

/-- The given texts, and the others where none is given. -/
def merged (given : List (Setting × String)) (texts : Setting → Option String) :
    Setting → Option String :=
  fun s => (given.lookup s).or (texts s)

theorem merged_cons {given : List (Setting × String)} (h : s ∉ given.map (·.1)) :
    merged ((s, text) :: given) texts =
      merged given fun s' => if s' = s then some text else texts s' := by
  funext s'
  rw [merged, merged, List.lookup_cons]
  by_cases hs : s' = s
  · subst hs
    have hnone : given.lookup s' = none := by
      rw [List.lookup_eq_none_iff]
      intro g hg
      simp only [bne_iff_ne, ne_eq]
      rintro rfl
      exact h (List.mem_map_of_mem hg)
    simp [hnone]
  · have hbeq : (s' == s) = false := beq_false_of_ne hs
    simp [hbeq, hs]

/-- Texts for different settings of which none is known are taken up just if all can be read, and
then the draft says what they say. -/
theorem Says.giveAll_eq_ok_iff {given : List (Setting × String)} (h : d.Says texts)
    (hn : (given.map (·.1)).Nodup) (hopen : ∀ s ∈ given.map (·.1), texts s = none) :
    d.giveAll given = .ok d' ↔ d'.Says (merged given texts) := by
  induction given generalizing d texts with
  | nil =>
    rw [giveAll]
    constructor
    · rintro ⟨⟩
      exact h
    · intro h'
      rw [h.unique h']
  | cons g given ih =>
    obtain ⟨s, text⟩ := g
    rw [List.map_cons, List.nodup_cons] at hn
    rw [List.map_cons, List.forall_mem_cons] at hopen
    have hhas : d.has s = false := by rw [h.has, hopen.1]; rfl
    rw [merged_cons hn.1, giveAll, give, hhas]
    cases hread : s.read text with
    | error f =>
      rw [if_neg Bool.false_ne_true, put_eq_error hread]
      constructor
      · rintro ⟨⟩
      · intro h'
        -- a setting whose text cannot be read has no value to be said
        have hs := h' s
        rw [← merged_cons hn.1, merged, List.lookup_cons_self, Option.some_or, Option.map_some,
          hread] at hs
        cases hv : d'.value? s <;> simp [hv] at hs
    | ok v =>
      obtain ⟨d₁, hput, hvalue⟩ := exists_put hread d
      rw [if_neg Bool.false_ne_true, hput]
      refine ih (fun s' => ?_) hn.2 fun s' hs' => ?_
      · rw [hvalue s']
        by_cases hs : s' = s
        · subst hs
          simp [hread]
        · simpa [hs] using h s'
      · have hne : s' ≠ s := by
          rintro rfl
          exact hn.1 hs'
        rw [if_neg hne]
        exact hopen.2 s' hs'

/-- The texts that the environment has for settings that are not known. -/
def supplied (environment : String → Option String) (known : Setting → Bool)
    (settings : List Setting) : List (Setting × String) :=
  settings.filterMap fun s =>
    if known s then none else (environment s.environmentName).map (s, ·)

theorem fill_eq (environment : String → Option String) (d : Draft) {settings : List Setting}
    (hn : settings.Nodup) :
    d.fill environment settings = d.giveAll (supplied environment d.has settings) := by
  induction settings generalizing d with
  | nil => rfl
  | cons s settings ih =>
    rw [List.nodup_cons] at hn
    rw [fill, supplied, List.filterMap_cons, ← supplied]
    cases hhas : d.has s with
    | true => exact ih d hn.2
    | false =>
      rw [if_neg Bool.false_ne_true, if_neg Bool.false_ne_true]
      cases environment s.environmentName with
      | none => exact ih d hn.2
      | some text =>
        dsimp only [Option.map_some]
        rw [giveAll, give, hhas, if_neg Bool.false_ne_true]
        cases hput : d.put s text with
        | error f => rfl
        | ok d' =>
          obtain ⟨v, -, hvalue⟩ := exists_of_put hput
          -- what was put in is another setting, so the rest is supplied as before
          have hsame : supplied environment d'.has settings =
              supplied environment d.has settings := by
            refine List.filterMap_congr fun s' hs' => ?_
            have hne : s' ≠ s := by
              rintro rfl
              exact hn.1 hs'
            rw [has_eq, has_eq, hvalue s', if_neg hne]
          dsimp only
          rw [ih d' hn.2, hsame]
          rfl

end Draft

end Polyglot.Launch

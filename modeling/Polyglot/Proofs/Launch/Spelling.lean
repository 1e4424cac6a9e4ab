/-
How arguments give settings their values. A value may be attached to the long name of its option or
follow it as a word of its own, and for the port there are short spellings too. Whatever the spellings,
reading the arguments takes up the values one after the other.
-/
import Polyglot.Proofs.Launch.Drafts

namespace Polyglot.Launch

/-! ## Spellings -/

/-- The words give the setting the value, in one of the spellings that admit it. -/
inductive Spelled (s : Setting) (value : String) : List String → Prop
  | attached : Spelled s value ["--" ++ s.name ++ "=" ++ value]
  | apart (h : value.toList.head? ≠ some '-') : Spelled s value ["--" ++ s.name, value]
  | shortApart (hs : s = .port) (h : value.toList.head? ≠ some '-') : Spelled s value ["-p", value]
  | shortAttached (hs : s = .port) : Spelled s value ["-p=" ++ value]
  | shortGlued (hs : s = .port) (hne : value ≠ "") (h : value.toList.head? ≠ some '=') :
    Spelled s value ["-p" ++ value]

/-- The arguments give the settings the values one after the other. At the end may stand two dashes. -/
inductive Spells : List (Setting × String) → List String → Prop
  | nil : Spells [] []
  | separator : Spells [] ["--"]
  | cons {s : Setting} {value : String} {words : List String} {given : List (Setting × String)}
      {arguments : List String} (hw : Spelled s value words) (h : Spells given arguments) :
      Spells ((s, value) :: given) (words ++ arguments)

theorem ofName?_name (s : Setting) : Setting.ofName? s.name = some s := by
  cases s <;> decide +kernel

theorem name_ne_help (s : Setting) : s.name ≠ "help" := by
  cases s <;> decide +kernel

theorem all_name (s : Setting) : s.name.toList.all (· != '=') = true := by
  cases s <;> decide +kernel

/-- The value behind a name and the sign that sets it off. -/
def attached? : List Char → Option String
  | [] => none
  | _ :: value => some (String.ofList value)

theorem ofLongName_append (s : Setting) {tail : List Char} (h : ∀ c ∈ tail.head?, c = '=') :
    Argument.ofLongName (s.name.toList ++ tail) = .option s (attached? tail) := by
  have hname : ∀ c ∈ s.name.toList, (c != '=') = true := List.all_eq_true.1 (all_name s)
  have htake : (s.name.toList ++ tail).takeWhile (· != '=') = s.name.toList := by
    rw [List.takeWhile_append_of_pos hname]
    cases tail <;> simp_all
  have hdrop : (s.name.toList ++ tail).dropWhile (· != '=') = tail := by
    rw [List.dropWhile_append_of_pos hname]
    cases tail <;> simp_all
  unfold Argument.ofLongName
  rw [htake, hdrop, String.ofList_toList, if_neg (by simpa using name_ne_help s), ofName?_name]
  cases tail <;> rfl

theorem name_ne_nil (s : Setting) : s.name.toList ≠ [] := by
  cases s <;> decide +kernel

theorem ofText_long (s : Setting) {tail : String} (h : ∀ c ∈ tail.toList.head?, c = '=') :
    Argument.ofText ("--" ++ s.name ++ tail) = .option s (attached? tail.toList) := by
  rw [← ofLongName_append s h]
  obtain ⟨c, rest, hname⟩ := List.exists_cons_of_ne_nil (name_ne_nil s)
  have htext : ("--" ++ s.name ++ tail).toList = '-' :: '-' :: (s.name.toList ++ tail.toList) := by
    simp
  unfold Argument.ofText
  rw [htext, hname]
  rfl

theorem ofText_apart (s : Setting) : Argument.ofText ("--" ++ s.name) = .option s none := by
  have h : Argument.ofText ("--" ++ s.name ++ "") = .option s none := ofText_long s (by simp)
  rwa [String.append_empty] at h

theorem ofText_attached (s : Setting) (value : String) :
    Argument.ofText ("--" ++ s.name ++ "=" ++ value) = .option s (some value) := by
  have htail : ("=" ++ value).toList = '=' :: value.toList := by simp
  have hword : "--" ++ s.name ++ "=" ++ value = "--" ++ s.name ++ ("=" ++ value) :=
    String.append_assoc
  rw [hword, ofText_long s (by simp [htail]), htail, attached?, String.ofList_toList]

theorem ofText_word {value : String} (h : value.toList.head? ≠ some '-') :
    Argument.ofText value = .word := by
  unfold Argument.ofText
  split
  · rename_i hv
    simp [hv] at h
  · rename_i hv
    simp [hv] at h
  · rename_i hv
    simp [hv] at h
  · rfl

theorem ofText_shortAttached (value : String) :
    Argument.ofText ("-p=" ++ value) = .option .port (some value) := by
  have htext : ("-p=" ++ value).toList = '-' :: 'p' :: '=' :: value.toList := by simp
  unfold Argument.ofText
  rw [htext]
  show Argument.option .port (some (String.ofList value.toList)) = _
  rw [String.ofList_toList]

theorem ofText_shortGlued {value : String} (hne : value ≠ "") (h : value.toList.head? ≠ some '=') :
    Argument.ofText ("-p" ++ value) = .option .port (some value) := by
  have htext : ("-p" ++ value).toList = '-' :: 'p' :: value.toList := by simp
  have hcons : value.toList ≠ [] := by simpa using hne
  obtain ⟨c, rest, hvalue⟩ := List.exists_cons_of_ne_nil hcons
  have hc : c ≠ '=' := by
    rintro rfl
    simp [hvalue] at h
  have hofList : String.ofList (c :: rest) = value := by rw [← hvalue, String.ofList_toList]
  unfold Argument.ofText
  rw [htext, hvalue, ← hofList]
  simp [Argument.ofLetters, hc]

/-! ## Reading the command line -/

section Arguments

variable {s : Setting} {value : String} {arguments : List String}
  {given : List (Setting × String)}

/-- Wherever reading comes to the arguments, it takes up what is pending and then the values one after
the other. -/
def Gives (given : List (Setting × String)) (arguments : List String) : Prop :=
  ∀ d pending, readArguments d pending arguments =
    (settle d pending).bind fun d => (d.giveAll given).map .options

theorem gives_nil : Gives [] [] := by
  intro d pending
  unfold readArguments
  cases settle d pending <;> rfl

theorem gives_separator : Gives [] ["--"] := by
  intro d pending
  have hword : Argument.ofText "--" = .separator := rfl
  unfold readArguments
  rw [hword]
  cases settle d pending <;> rfl

theorem Gives.attached (h : Gives given arguments) {word : String}
    (hword : Argument.ofText word = .option s (some value)) :
    Gives ((s, value) :: given) (word :: arguments) := by
  intro d pending
  unfold readArguments
  rw [hword]
  cases settle d pending with
  | error f => rfl
  | ok d =>
    dsimp only [Except.bind]
    rw [Draft.giveAll]
    cases d.give s value with
    | error f => rfl
    | ok d => exact h d none

theorem Gives.apart (h : Gives given arguments) {word : String}
    (hword : Argument.ofText word = .option s none) (hvalue : value.toList.head? ≠ some '-') :
    Gives ((s, value) :: given) (word :: value :: arguments) := by
  intro d pending
  unfold readArguments
  rw [hword]
  cases settle d pending with
  | error f => rfl
  | ok d =>
    -- the value is looked at once more words show that it is complete
    have hread : readArguments d (some (s, none)) (value :: arguments) =
        readArguments d (some (s, some value)) arguments := by
      conv_lhs => unfold readArguments
      rw [ofText_word hvalue]
    dsimp only [Except.bind]
    rw [hread, h, settle, Draft.giveAll]
    cases d.give s value <;> rfl

/-- Arguments in any spelling give the values that they spell. -/
theorem Spells.gives (h : Spells given arguments) : Gives given arguments := by
  induction h with
  | nil => exact gives_nil
  | separator => exact gives_separator
  | cons hw _ ih =>
    -- one case for each way to write an option
    cases hw with
    | attached => exact ih.attached (ofText_attached _ _)
    | apart hvalue => exact ih.apart (ofText_apart _) hvalue
    | shortApart hs hvalue =>
      subst hs
      exact ih.apart rfl hvalue
    | shortAttached hs =>
      subst hs
      exact ih.attached (ofText_shortAttached _)
    | shortGlued hs hne hvalue =>
      subst hs
      exact ih.attached (ofText_shortGlued hne hvalue)

end Arguments

end Polyglot.Launch

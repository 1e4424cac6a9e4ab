/-
Where the options come from. Each has the value that the command line gives it, or else that of its
variable, or else its default, and the texts that these values come from are the only ones that are
read. In which order options stand on the command line, and how each is spelled, makes no difference
to options that are read: both the command line and the environment take up texts one after the
other, each setting once.
-/
import Polyglot.Proofs.Launch.Spelling

namespace Polyglot.Launch

section Arguments

variable {s : Setting} {value : String} {arguments : List String}
  {given : List (Setting × String)} {environment : String → Option String}

/-! ## The command line and the environment -/

/-- Whether the command line gives a setting. -/
def isGiven (given : List (Setting × String)) (s : Setting) : Bool := (given.lookup s).isSome

/-- All texts that are read: those of the command line, and those that the environment has for the
other settings. -/
def allTexts (given : List (Setting × String)) (environment : String → Option String) :
    List (Setting × String) :=
  given ++ Draft.supplied environment (isGiven given) Setting.all

theorem lookup_eq_some_iff (hn : (given.map (·.1)).Nodup) :
    given.lookup s = some value ↔ (s, value) ∈ given := by
  induction given with
  | nil => simp
  | cons g given ih =>
    obtain ⟨s', value'⟩ := g
    rw [List.map_cons, List.nodup_cons] at hn
    rw [List.lookup_cons, List.mem_cons]
    by_cases hs : s = s'
    · subst hs
      have hnot : (s, value) ∉ given := fun h => hn.1 (List.mem_map.2 ⟨_, h, rfl⟩)
      simp [hnot, eq_comm]
    · have hbeq : (s == s') = false := beq_false_of_ne hs
      simp [hbeq, hs, ih hn.2]

theorem isGiven_iff : isGiven given s = true ↔ s ∈ given.map (·.1) := by
  rw [← not_iff_not, Bool.not_eq_true, isGiven, Option.isSome_eq_false_iff, Option.isNone_iff_eq_none,
    List.lookup_eq_none_iff, List.mem_map, not_exists]
  refine forall_congr' fun g => ?_
  rw [not_and, bne_iff_ne, ne_comm]

theorem keys_supplied (environment : String → Option String) (known : Setting → Bool)
    (settings : List Setting) : (Draft.supplied environment known settings).map (·.1) =
      settings.filter fun s => !known s && (environment s.environmentName).isSome := by
  induction settings with
  | nil => rfl
  | cons s settings ih =>
    rw [Draft.supplied, List.filterMap_cons, ← Draft.supplied]
    cases hknown : known s with
    | true => simpa [hknown] using ih
    | false => cases henv : environment s.environmentName <;> simpa [hknown, henv] using ih

theorem nodup_keys_supplied (environment : String → Option String) (known : Setting → Bool) :
    ((Draft.supplied environment known Setting.all).map (·.1)).Nodup := by
  have hall : Setting.all.Nodup := by decide
  rw [keys_supplied]
  exact hall.filter _

theorem mem_supplied_iff {known : Setting → Bool} {settings : List Setting} :
    (s, value) ∈ Draft.supplied environment known settings ↔
      s ∈ settings ∧ known s = false ∧ environment s.environmentName = some value := by
  rw [Draft.supplied, List.mem_filterMap]
  constructor
  · rintro ⟨s', hs', h⟩
    split at h
    · cases h
    rename_i hknown
    obtain ⟨_, hvalue, heq⟩ := Option.map_eq_some_iff.1 h
    cases heq
    exact ⟨hs', by simpa using hknown, hvalue⟩
  · rintro ⟨hs, hknown, hvalue⟩
    exact ⟨s, hs, by simp [hknown, hvalue]⟩

theorem nodup_allTexts (hn : (given.map (·.1)).Nodup) (environment : String → Option String) :
    ((allTexts given environment).map (·.1)).Nodup := by
  rw [allTexts, List.map_append, List.nodup_append]
  refine ⟨hn, nodup_keys_supplied environment _, fun s hs s' hs' => ?_⟩
  rintro rfl
  obtain ⟨⟨s, value⟩, hmem, rfl⟩ := List.mem_map.1 hs'
  obtain ⟨-, hfresh, -⟩ := mem_supplied_iff.1 hmem
  rw [isGiven_iff.2 hs] at hfresh
  cases hfresh

/-- The command line comes first, and then the environment. -/
theorem lookup_allTexts (given : List (Setting × String)) (environment : String → Option String)
    (s : Setting) :
    (allTexts given environment).lookup s =
      (given.lookup s).or (environment s.environmentName) := by
  have hall : s ∈ Setting.all := by cases s <;> decide
  rw [allTexts, List.lookup_append]
  cases hgiven : given.lookup s with
  | some value => rfl
  | none =>
    refine Option.ext fun value => ?_
    rw [Option.none_or, Option.none_or, lookup_eq_some_iff (nodup_keys_supplied environment _),
      mem_supplied_iff]
    simp [hall, isGiven, hgiven]

/-- The command line and the environment are read as one list of texts. -/
theorem Spells.configure_eq (h : Spells given arguments) (hn : (given.map (·.1)).Nodup)
    (environment : String → Option String) :
    configure arguments environment =
      (Draft.blank.giveAll (allTexts given environment)).map fun d => .options d.complete := by
  have hread : readArguments .blank none arguments = (Draft.blank.giveAll given).map .options :=
    h.gives .blank none
  rw [configure, hread, allTexts, Draft.giveAll_append]
  cases hd : Draft.blank.giveAll given with
  | error f => rfl
  | ok d =>
    -- the variables are asked for just what the words have left out
    have hhas : d.has = isGiven given := by
      funext s
      have htold := (Draft.says_blank.giveAll_eq_ok_iff hn fun _ _ => rfl).1 hd
      rw [htold.has, Draft.merged, Option.or_none]
      rfl
    have hall : Setting.all.Nodup := by decide
    dsimp only [Except.map, Except.bind]
    rw [Draft.fill_eq environment d hall, hhas]

/-- The text that a setting has its value from. -/
def effective (given : List (Setting × String)) (environment : String → Option String)
    (s : Setting) : String :=
  ((given.lookup s).or (environment s.environmentName)).getD s.defaultText

/-- The options are those whose values the effective texts write. -/
theorem Spells.configure_eq_ok_iff (h : Spells given arguments) (hn : (given.map (·.1)).Nodup)
    (environment : String → Option String) (o : Options) :
    configure arguments environment = .ok (.options o) ↔
      ∀ s : Setting, s.read (effective given environment s) = .ok (o.value s) := by
  have htold (d : Draft) : Draft.blank.giveAll (allTexts given environment) = .ok d ↔
      d.Says (Draft.merged (allTexts given environment) fun _ => none) :=
    Draft.says_blank.giveAll_eq_ok_iff (nodup_allTexts hn environment) fun _ _ => rfl
  have htexts : Draft.merged (allTexts given environment) (fun _ => none) =
      fun s => (given.lookup s).or (environment s.environmentName) := by
    funext s
    rw [Draft.merged, Option.or_none, lookup_allTexts]
  rw [htexts] at htold
  rw [h.configure_eq hn]
  constructor
  · intro hok s
    cases hd : Draft.blank.giveAll (allTexts given environment) with
    | error f =>
      rw [hd] at hok
      cases hok
    | ok d =>
      rw [hd] at hok
      cases hok
      exact ((htold d).1 hd).read_complete s
  · intro hread
    -- a draft that says all the texts is the one that comes out
    obtain ⟨d, hd⟩ := Draft.exists_says hread
    have hcomplete : d.complete = o := by
      refine Options.ext_value fun s => ?_
      have hs : (.ok (d.complete.value s) : Except ValueFault Value) = .ok (o.value s) :=
        (hd.read_complete s).symm.trans (hread s)
      exact Except.ok.inj hs
    rw [(htold d).2 hd, ← hcomplete]
    rfl

/-- Options are all that such a command line asks for. -/
theorem Spells.exists_of_configure (h : Spells given arguments) (hn : (given.map (·.1)).Nodup)
    {environment : String → Option String} {c : Configuration}
    (hc : configure arguments environment = .ok c) : ∃ o : Options, c = .options o := by
  rw [h.configure_eq hn] at hc
  cases hd : Draft.blank.giveAll (allTexts given environment) with
  | error f =>
    rw [hd] at hc
    cases hc
  | ok d =>
    rw [hd] at hc
    cases hc
    exact ⟨_, rfl⟩

/-- The values of options are written by texts, one for each setting. -/
def Options.WrittenBy (o : Options) (texts : Setting → String) : Prop :=
  o.host = texts .host ∧ WritesPort (texts .port) o.port ∧
    o.defaultBackend = texts .defaultBackend ∧
    WritesCount (texts .maxPredictions) o.maxPredictions ∧
    WritesCount (texts .maxContentBytes) o.maxContentBytes

theorem Options.writtenBy_iff {o : Options} {texts : Setting → String} :
    o.WrittenBy texts ↔ ∀ s : Setting, s.read (texts s) = .ok (o.value s) := by
  have htext {a b : String} : (Except.ok (.text a) : Except ValueFault Value) = .ok (.text b) ↔
      b = a := by simp [eq_comm]
  have hnumber {read : Except ValueFault Nat} {n : Nat} :
      read.map Value.number = .ok (.number n) ↔ read = .ok n := by cases read <;> simp [Except.map]
  have hport : Setting.port.read (texts .port) = .ok (.number o.port) ↔
      WritesPort (texts .port) o.port := hnumber.trans readPort_eq_ok_iff
  have hpredictions : Setting.maxPredictions.read (texts .maxPredictions) =
      .ok (.number o.maxPredictions) ↔ WritesCount (texts .maxPredictions) o.maxPredictions :=
    hnumber.trans readCount_eq_ok_iff
  have hbytes : Setting.maxContentBytes.read (texts .maxContentBytes) =
      .ok (.number o.maxContentBytes) ↔ WritesCount (texts .maxContentBytes) o.maxContentBytes :=
    hnumber.trans readCount_eq_ok_iff
  constructor
  · rintro ⟨h₁, h₂, h₃, h₄, h₅⟩ s
    cases s with
    | host => exact htext.2 h₁
    | port => exact hport.2 h₂
    | defaultBackend => exact htext.2 h₃
    | maxPredictions => exact hpredictions.2 h₄
    | maxContentBytes => exact hbytes.2 h₅
  · intro h
    exact ⟨htext.1 (h .host), hport.1 (h .port), htext.1 (h .defaultBackend),
      hpredictions.1 (h .maxPredictions), hbytes.1 (h .maxContentBytes)⟩

/-- What is not looked at makes no difference. -/
theorem supplied_congr {environment environment' : String → Option String} {known : Setting → Bool}
    (h : ∀ s, known s = false → environment' s.environmentName = environment s.environmentName)
    (settings : List Setting) :
    Draft.supplied environment' known settings = Draft.supplied environment known settings := by
  refine List.filterMap_congr fun s _ => ?_
  cases hknown : known s with
  | true => rfl
  | false => rw [h s hknown]

theorem lookup_perm {given given' : List (Setting × String)} (h : given'.Perm given)
    (hn : (given.map (·.1)).Nodup) (s : Setting) : given'.lookup s = given.lookup s := by
  have hn' : (given'.map (·.1)).Nodup := (h.map _).nodup_iff.2 hn
  refine Option.ext fun value => ?_
  rw [lookup_eq_some_iff hn', lookup_eq_some_iff hn, h.mem_iff]

/-- Options on the command line in any order and spelling have the values that the command line gives,
or else those of the variables, or else the defaults; reading them succeeds just if the texts for the
three numbers write numbers in range. Variables of given options make no difference, and neither does
the arrangement of options that are read. -/
theorem configure_by_precedence (h : Spells given arguments) (hn : (given.map (·.1)).Nodup)
    (environment : String → Option String) :
    (∀ o, configure arguments environment = .ok (.options o) ↔
      o.WrittenBy (effective given environment)) ∧
    ((∃ c, configure arguments environment = .ok c) ↔
      (∃ n, WritesPort (effective given environment .port) n) ∧
      (∃ n, WritesCount (effective given environment .maxPredictions) n) ∧
      ∃ n, WritesCount (effective given environment .maxContentBytes) n) ∧
    (∀ environment' : String → Option String,
      (∀ s, s ∉ given.map (·.1) → environment' s.environmentName = environment s.environmentName) →
      configure arguments environment' = configure arguments environment) ∧
    ∀ given' arguments' c, Spells given' arguments' → given'.Perm given →
      configure arguments environment = .ok c → configure arguments' environment = .ok c := by
  have hoptions {given : List (Setting × String)} {arguments : List String}
      (h : Spells given arguments) (hn : (given.map (·.1)).Nodup) (o : Options) :
      configure arguments environment = .ok (.options o) ↔
        o.WrittenBy (effective given environment) :=
    (h.configure_eq_ok_iff hn environment o).trans Options.writtenBy_iff.symm
  refine ⟨hoptions h hn, ⟨?_, ?_⟩, ?_, ?_⟩
  · rintro ⟨c, hc⟩
    obtain ⟨o, rfl⟩ := h.exists_of_configure hn hc
    obtain ⟨-, hport, -, hpredictions, hbytes⟩ := (hoptions h hn o).1 hc
    exact ⟨⟨_, hport⟩, ⟨_, hpredictions⟩, ⟨_, hbytes⟩⟩
  · rintro ⟨⟨port, hport⟩, ⟨predictions, hpredictions⟩, ⟨bytes, hbytes⟩⟩
    exact ⟨.options ⟨_, port, _, predictions, bytes⟩,
      (hoptions h hn _).2 ⟨rfl, hport, rfl, hpredictions, hbytes⟩⟩
  · intro environment' hsame
    have hsupplied : Draft.supplied environment' (isGiven given) Setting.all =
        Draft.supplied environment (isGiven given) Setting.all := by
      refine supplied_congr (fun s hs => hsame s fun hmem => ?_) _
      rw [isGiven_iff.2 hmem] at hs
      cases hs
    rw [h.configure_eq hn, h.configure_eq hn, allTexts, allTexts, hsupplied]
  · intro given' arguments' c h' hperm hc
    obtain ⟨o, rfl⟩ := h.exists_of_configure hn hc
    -- the order of the words does not matter to the lookup
    have heffective : effective given' environment = effective given environment := by
      funext s
      rw [effective, effective, lookup_perm hperm hn]
    rw [hoptions h' ((hperm.map _).nodup_iff.2 hn), heffective]
    exact (hoptions h hn o).1 hc

end Arguments

/-- A command line with the variables `PORT=none` and `LANGDETECT_MAX_CONTENT_BYTES=5`: the port that
is given hides the variable that could not be read. -/
theorem configure_by_precedence_mixed :
    Spells [(.port, "+8"), (.host, ""), (.maxPredictions, "007")]
      ["-p=+8", "--host=", "--max-predictions", "007", "--"] ∧
    (∃ c, configure ["-p=+8", "--host=", "--max-predictions", "007", "--"]
      (fun name => if name = "PORT" then some "none"
        else if name = "LANGDETECT_MAX_CONTENT_BYTES" then some "5" else none) = .ok c) ∧
    configure ["-p=+8", "--host=", "--max-predictions", "007", "--"]
      (fun name => if name = "PORT" then some "none"
        else if name = "LANGDETECT_MAX_CONTENT_BYTES" then some "5" else none) =
      .ok (.options ⟨"", 8, "vscode-languagedetection", 7, 5⟩) := by
  have hspells : Spells [(.port, "+8"), (.host, ""), (.maxPredictions, "007")]
      ["-p=+8", "--host=", "--max-predictions", "007", "--"] :=
    .cons (.shortAttached rfl) (.cons .attached (.cons (.apart (by decide)) .separator))
  obtain ⟨hoptions, -⟩ := configure_by_precedence hspells (by decide)
    fun name => if name = "PORT" then some "none"
      else if name = "LANGDETECT_MAX_CONTENT_BYTES" then some "5" else none
  have hok := (hoptions ⟨"", 8, "vscode-languagedetection", 7, 5⟩).2
    ⟨rfl, readPort_eq_ok_iff.1 rfl, rfl, readCount_eq_ok_iff.1 rfl, readCount_eq_ok_iff.1 rfl⟩
  exact ⟨hspells, ⟨_, hok⟩, hok⟩

/-- A port of `-0` is taken for zero, though it is not written with an optional plus and digits. -/
theorem configure_minus_zero :
    Spells [(.port, "-0")] ["--port=-0"] ∧
    configure ["--port=-0"] (fun _ => none) =
      .ok (.options { Options.standard with port := 0 }) ∧
    ¬ ((∃ c, configure ["--port=-0"] (fun _ => none) = .ok c) ↔
      (∃ n, Writes (effective [(.port, "-0")] (fun _ => none) .port) n ∧ n ≤ 65535) ∧
      (∃ n, WritesCount (effective [(.port, "-0")] (fun _ => none) .maxPredictions) n) ∧
      ∃ n, WritesCount (effective [(.port, "-0")] (fun _ => none) .maxContentBytes) n) := by
  have hok : configure ["--port=-0"] (fun _ => none) =
      .ok (.options { Options.standard with port := 0 }) := by decide +kernel
  refine ⟨.cons .attached .nil, hok, fun h => ?_⟩
  obtain ⟨⟨n, hn, -⟩, -⟩ := h.1 ⟨_, hok⟩
  exact hn.ne_minus ['0'] rfl

end Polyglot.Launch

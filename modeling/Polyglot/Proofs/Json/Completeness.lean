/-
What is in the grammar is read: a text that spells a readable written value, in which containers lie
no deeper than allowed, is accepted, and the value that it stands for is returned. With soundness
this says exactly which texts are read as one value and as which.

`Reads` states it for one written value and any reader of values, whatever blanks come before and
whatever text behind that could follow a value. It goes from the values inside a container to the
container by an induction over the listing of its elements.
-/
import Polyglot.Proofs.Json.Soundness

namespace Polyglot.Json

open Keyed

/-! ## Where a value ends and begins -/

/-- The characters that may follow a value. -/
def stoppers : List Char := [' ', '\n', '\t', '\r', ',', ']', '\x7d']

/-- The text does not go on with a character that a value before it could go on with. -/
def Stops (rest : List Char) : Prop := ∀ c ∈ rest.head?, c ∈ stoppers

theorem stops_nil : Stops [] := by simp [Stops]

theorem stops_cons {c : Char} (h : c ∈ stoppers) (rest : List Char) : Stops (c :: rest) := by
  simpa [Stops] using h

theorem stops_append {b rest : List Char} (hb : Blank b) (h : Stops rest) : Stops (b ++ rest) := by
  cases b with
  | nil => exact h
  | cons c b =>
    refine stops_cons ?_ _
    rcases hb c List.mem_cons_self with rfl | rfl | rfl | rfl <;> decide

theorem Stops.ends {rest : List Char} (h : Stops rest) : Numeral.Ends rest := by
  intro c hc
  have hmem := h c hc
  simp only [stoppers, List.mem_cons, List.not_mem_nil, or_false] at hmem
  rcases hmem with rfl | rfl | rfl | rfl | rfl | rfl | rfl <;> decide

theorem notMem_stoppers_of_isDigit {c : Char} (h : c.isDigit = true) : c ∉ stoppers := by
  intro hmem
  simp only [stoppers, List.mem_cons, List.not_mem_nil, or_false] at hmem
  rcases hmem with rfl | rfl | rfl | rfl | rfl | rfl | rfl <;> revert h <;> decide

/-- The text begins with a character that could not follow a value. -/
def Begins (t : List Char) : Prop := ∃ c t', t = c :: t' ∧ c ∉ stoppers

theorem Begins.append {t : List Char} (h : Begins t) (rest : List Char) : Begins (t ++ rest) := by
  obtain ⟨c, t', rfl, hc⟩ := h
  exact ⟨c, t' ++ rest, rfl, hc⟩

theorem Begins.ne_nil {t : List Char} (h : Begins t) : t ≠ [] := by
  obtain ⟨c, t', rfl, -⟩ := h
  exact List.cons_ne_nil c t'

theorem Spells.begins {w : Written} {t : List Char} (h : Spells w t) : Begins t := by
  cases h with
  | null | true | false => exact ⟨_, _, rfl, by decide⟩
  | number h =>
    obtain ⟨c, t, ht, hc⟩ := Numeral.head_text h
    refine ⟨c, t, ht, ?_⟩
    rcases hc with rfl | hc
    · decide
    · exact notMem_stoppers_of_isDigit hc
  | string h =>
    obtain ⟨h⟩ := h
    exact ⟨_, _, rfl, by decide⟩
  | emptyArray | array | emptyObject | object => exact ⟨_, _, rfl, by decide⟩

theorem SpellsMember.begins {m : String × Written} {t : List Char} (h : SpellsMember m t) :
    Begins t := by
  obtain ⟨⟨_⟩, -, -, -⟩ := h
  exact ⟨_, _, rfl, by decide⟩

section

variable {α : Type} {Spell : α → List Char → Prop} {as : List α} {t : List Char}

theorem Listed.begins (h : Listed Spell as t) (hp : ∀ a t, Spell a t → Begins t) : Begins t := by
  cases h with
  | last h => exact (hp _ _ h).append _
  | more h => exact (hp _ _ h).append _

/-- There are no more elements than characters. -/
theorem Listed.length_le (h : Listed Spell as t) (hp : ∀ a t, Spell a t → Begins t) :
    as.length ≤ t.length := by
  induction h with
  | last h _ =>
    have := List.length_pos_of_ne_nil (hp _ _ h).ne_nil
    simp only [List.length_cons, List.length_nil, List.length_append]
    omega
  | more _ _ _ _ ih =>
    simp only [List.length_cons, List.length_append]
    omega

end

theorem skipBlanks_append {b : List Char} (hb : Blank b) (text : List Char) :
    skipBlanks (b ++ text) = skipBlanks text := by
  induction b with
  | nil => rfl
  | cons c b ih =>
    have hc := hb c List.mem_cons_self
    rw [List.cons_append, skipBlanks, if_pos (by simpa [or_assoc] using hc),
      ih fun c' hc' => hb c' (List.mem_cons_of_mem _ hc')]

theorem skipBlanks_append_cons {b : List Char} (hb : Blank b) {c : Char}
    (h : c ∉ [' ', '\n', '\t', '\r']) (rest : List Char) :
    skipBlanks (b ++ c :: rest) = c :: rest := by
  rw [skipBlanks_append hb, skipBlanks, if_neg (by simpa [or_assoc] using h)]

theorem Begins.skipBlanks_append {t : List Char} (h : Begins t) {b : List Char} (hb : Blank b)
    (rest : List Char) : skipBlanks (b ++ (t ++ rest)) = t ++ rest := by
  obtain ⟨c, t', rfl, hc⟩ := h
  refine skipBlanks_append_cons hb (fun hmem => hc ?_) _
  exact List.mem_append_left [',', ']', '\x7d'] hmem

/-! ## Arrays -/

/-- The reader reads the written value, however it is spelled within the limit. -/
def Reads (value : Reader Json) (limit : Nat) (w : Written) : Prop :=
  ∀ t b rest, Spells w t → t.length ≤ limit → Blank b → Stops rest →
    value (b ++ (t ++ rest)) = .ok (w.value, rest)

variable {value : Reader Json} {limit : Nat}

theorem readItems_last {n : Nat} {items : List Json} {item : Json} {text behind rest : List Char}
    (hv : value text = .ok (item, behind)) (hs : skipBlanks behind = ']' :: rest) :
    readItems value (n + 1) items text = .ok (.array (item :: items).reverse, rest) := by
  simp [readItems, hv, hs]

theorem readItems_more {n : Nat} {items : List Json} {item : Json}
    {text behind behind' rest : List Char} (hv : value text = .ok (item, behind))
    (hs : skipBlanks behind = ',' :: behind') (hs' : skipBlanks behind' = rest)
    (hr : Begins rest) :
    readItems value (n + 1) items text = readItems value n (item :: items) rest := by
  obtain ⟨c, rest, rfl, hc⟩ := hr
  have hne : c ≠ ']' := by
    rintro rfl
    exact hc (by decide)
  simp [readItems, hv, hs, hs', hne]

/-- Listed elements are read, if each of them is. -/
theorem readItems_append {ws : List Written} {t : List Char} (h : Listed Spells ws t)
    (hv : ∀ w ∈ ws, Reads value limit w) (ht : t.length ≤ limit) {n : Nat} (hn : ws.length ≤ n)
    (items : List Json) (rest : List Char) :
    readItems value n items (t ++ ']' :: rest) =
      .ok (.array (items.reverse ++ ws.map Written.value), rest) := by
  induction h generalizing n items with
  | last h hb =>
    obtain ⟨n, rfl⟩ : ∃ n', n = n' + 1 := ⟨n - 1, by simp at hn; omega⟩
    rw [List.length_append] at ht
    have hread := hv _ List.mem_cons_self _ [] _ h (by omega) blank_nil
      (stops_append hb (@stops_cons ']' (by decide) rest))
    rw [List.nil_append] at hread
    rw [List.append_assoc, readItems_last hread (skipBlanks_append_cons hb (by decide) rest)]
    simp
  | @more w ws t b b' r h hb hb' hr ih =>
    obtain ⟨n, rfl⟩ : ∃ n', n = n' + 1 := ⟨n - 1, by simp at hn; omega⟩
    simp only [List.length_append, List.length_cons] at ht hn
    -- the comma behind the element, with blanks before it, ends it
    have hread := hv w List.mem_cons_self t [] (b ++ ',' :: (b' ++ (r ++ ']' :: rest))) h
      (by omega) blank_nil (stops_append hb (@stops_cons ',' (by decide) _))
    have hbegins := hr.begins fun _ _ => Spells.begins
    have htail := ih (fun w hw => hv w (List.mem_cons_of_mem _ hw)) (by omega)
      (Nat.le_of_succ_le_succ hn) (w.value :: items)
    simp only [List.append_assoc, List.cons_append]
    rw [List.nil_append] at hread
    rw [readItems_more hread (skipBlanks_append_cons hb (by decide) _)
      (hbegins.skipBlanks_append hb' _) (hbegins.append _), htail]
    simp

theorem readArray_append {ws : List Written} {b t : List Char} (hb : Blank b)
    (h : Listed Spells ws t) (hv : ∀ w ∈ ws, Reads value limit w) (ht : t.length ≤ limit)
    (rest : List Char) :
    readArray value limit (b ++ (t ++ ']' :: rest)) =
      .ok (.array (ws.map Written.value), rest) := by
  have hn : ws.length ≤ limit := Nat.le_trans (h.length_le fun _ _ => Spells.begins) ht
  have hitems := readItems_append h hv ht hn [] rest
  have hbegins := h.begins fun _ _ => Spells.begins
  have hskip := hbegins.skipBlanks_append hb (']' :: rest)
  obtain ⟨c, t', rfl, hc⟩ := hbegins
  have hne : c ≠ ']' := by
    rintro rfl
    exact hc (by decide)
  simp only [List.cons_append] at hitems hskip ⊢
  simpa [readArray, hskip, hne] using hitems

/-! ## Objects -/

theorem readColon_append {b : List Char} (hb : Blank b) (rest : List Char) :
    readColon (b ++ ':' :: rest) = .ok ((), rest) := by
  unfold readColon
  rw [skipBlanks_append_cons hb (by decide)]
  rfl

theorem readKey_append {key : String} {k : List Char} (h : SpellsString key k)
    (rest : List Char) : readKey (k ++ rest) = .ok (key, rest) := by
  obtain ⟨k', rfl, hread⟩ := readString_of_spells h rest
  exact hread

/-- Where members are listed there is a key first. -/
theorem exists_readKey {members : List (String × Written)} {t : List Char}
    (h : Listed SpellsMember members t) (rest : List Char) :
    ∃ key text, readKey (t ++ rest) = .ok (key, text) := by
  cases h with
  | last h | more h =>
    obtain ⟨hk, -, -, -⟩ := h
    simp only [List.append_assoc]
    exact ⟨_, _, readKey_append hk _⟩

theorem readMembers_last {n : Nat} {done : Members} {key : String} {item : Json}
    {text text' behind rest : List Char} (hc : readColon text = .ok ((), text'))
    (hv : value text' = .ok (item, behind)) (hs : skipBlanks behind = '\x7d' :: rest) :
    readMembers value (n + 1) done key text = .ok (.object (done.put key item), rest) := by
  simp [readMembers, hc, hv, hs]

theorem readMembers_more {n : Nat} {done : Members} {key key' : String} {item : Json}
    {text text' behind behind' rest rest' : List Char} (hc : readColon text = .ok ((), text'))
    (hv : value text' = .ok (item, behind)) (hs : skipBlanks behind = ',' :: behind')
    (hs' : skipBlanks behind' = rest) (hk : readKey rest = .ok (key', rest')) :
    readMembers value (n + 1) done key text =
      readMembers value n (done.put key item) key' rest' := by
  unfold readKey at hk
  split at hk
  · simp [readMembers, readKey, hc, hv, hs, hs', hk]
  · cases hk

/-- Listed members are read from behind the first key on, if the value of each is. -/
theorem readMembers_append {members : List (String × Written)} {t : List Char}
    (h : Listed SpellsMember members t) (hv : ∀ m ∈ members, Reads value limit m.2)
    (ht : t.length ≤ limit) {n : Nat} (hn : members.length ≤ n) (done : Members) {key : String}
    {text rest : List Char} (hkey : readKey (t ++ '\x7d' :: rest) = .ok (key, text)) :
    firstKey members = some key ∧ readMembers value n done key text =
      .ok (.object ((mapValues Written.value members).foldl
        (fun done m => Members.put m.1 m.2 done) done), rest) := by
  induction h generalizing n done key text with
  | last h hb1 =>
    obtain ⟨n, rfl⟩ : ∃ n', n = n' + 1 := ⟨n - 1, by simp at hn; omega⟩
    obtain ⟨hk, hb, hb', hw⟩ := h
    simp only [List.append_assoc, List.cons_append] at hkey
    rw [readKey_append hk] at hkey
    cases hkey
    simp only [List.length_append, List.length_cons] at ht
    -- the value is followed by the brace, with blanks before it, or by a comma
    have hread := hv _ List.mem_cons_self _ _ _ hw (by omega) hb'
      (stops_append hb1 (@stops_cons '\x7d' (by decide) rest))
    refine ⟨rfl, ?_⟩
    rw [readMembers_last (readColon_append hb _) hread (skipBlanks_append_cons hb1 (by decide) _)]
    rfl
  | @more m members t b b' r h hb hb' hr ih =>
    obtain ⟨n, rfl⟩ : ∃ n', n = n' + 1 := ⟨n - 1, by simp at hn; omega⟩
    obtain ⟨hk, hb1, hb2, hw⟩ := h
    simp only [List.append_assoc, List.cons_append] at hkey
    rw [readKey_append hk] at hkey
    cases hkey
    simp only [List.length_append, List.length_cons] at ht hn
    have hread := hv _ List.mem_cons_self _ _ (b ++ ',' :: (b' ++ (r ++ '\x7d' :: rest))) hw
      (by omega) hb2 (stops_append hb (@stops_cons ',' (by decide) _))
    have hbegins := hr.begins fun _ _ => SpellsMember.begins
    obtain ⟨key', text', hkey'⟩ := exists_readKey hr ('\x7d' :: rest)
    obtain ⟨-, htail⟩ := ih (fun m hm => hv m (List.mem_cons_of_mem _ hm)) (by omega)
      (Nat.le_of_succ_le_succ hn) (done.put _ _) hkey'
    refine ⟨rfl, ?_⟩
    rw [readMembers_more (readColon_append hb1 _) hread (skipBlanks_append_cons hb (by decide) _)
      (hbegins.skipBlanks_append hb' _) hkey', htail]
    rfl

theorem readNumberObject_append {l : Literal} (hl : l.WellFormed) {b t b' : List Char}
    (hb : Blank b) (ht : SpellsString (String.ofList l.text) t) (hb' : Blank b')
    (rest : List Char) : readNumberObject (b ++ (t ++ (b' ++ '\x7d' :: rest))) =
      .ok (.number l.numeral, rest) := by
  obtain ⟨t', rfl, hread⟩ := readString_of_spells ht (b' ++ '\x7d' :: rest)
  have hq := readQuoted_eq_ok_iff.2 ⟨l, hl, rfl, rfl⟩
  unfold readNumberObject
  rw [List.cons_append, skipBlanks_append_cons hb (by decide)]
  simp [hread, hq, skipBlanks_append_cons hb' (c := '\x7d') (by decide) rest]

theorem readObject_reserved {text text' rest rest' : List Char} (hs : skipBlanks text = text')
    (hk : readKey text' = .ok (numberKey, rest)) (hc : readColon rest = .ok ((), rest')) :
    readObject value limit text = readNumberObject rest' := by
  unfold readKey at hk
  split at hk
  · simp [readObject, readKey, hs, hk, hc]
  · cases hk

theorem readObject_members {text text' rest : List Char} {key : String}
    (hs : skipBlanks text = text') (hk : readKey text' = .ok (key, rest))
    (hne : key ≠ numberKey) :
    readObject value limit text = readMembers value limit [] key rest := by
  unfold readKey at hk
  split at hk
  · simp [readObject, readKey, hs, hk, hne]
  · cases hk

/-- Members that are listed in braces are read as what they stand for: a number, if one is quoted
under the reserved key, and else an object. -/
theorem readObject_append {members : List (String × Written)} {b t : List Char} (hb : Blank b)
    (h : Listed SpellsMember members t)
    (hq : firstKey members = some numberKey → IsQuoted members)
    (hv : ∀ m ∈ members, Reads value limit m.2) (ht : t.length ≤ limit) (rest : List Char) :
    readObject value limit (b ++ (t ++ '\x7d' :: rest)) =
      .ok ((Written.object members).value, rest) := by
  have hbegins := h.begins fun _ _ => SpellsMember.begins
  have hskip := hbegins.skipBlanks_append hb ('\x7d' :: rest)
  by_cases hfirst : firstKey members = some numberKey
  · -- the reserved key stands first, so there is no other member
    obtain ⟨l, hl, rfl⟩ := hq hfirst
    rw [Written.value_quoted hl]
    cases h with
    | more _ _ _ hr => cases hr
    | last h hb' =>
      obtain ⟨hk, hb1, hb2, hw⟩ := h
      cases hw with
      | string hs =>
        simp only [List.append_assoc, List.cons_append] at hskip ⊢
        rw [readObject_reserved hskip (readKey_append hk _) (readColon_append hb1 _)]
        exact readNumberObject_append hl hb2 hs hb' rest
  · have hn := Nat.le_trans (h.length_le fun _ _ => SpellsMember.begins) ht
    obtain ⟨key, text, hkey⟩ := exists_readKey h ('\x7d' :: rest)
    obtain ⟨hkey', hread⟩ := readMembers_append h hv ht hn [] hkey
    have hne : key ≠ numberKey := by
      rintro rfl
      exact hfirst hkey'
    have hsettle := Members.foldl_put [] (mapValues Written.value members)
    rw [List.nil_append, settle_mapValues] at hsettle
    rw [readObject_members hskip hkey hne, hread, Written.value_object hfirst, ← hsettle]
    rfl

/-! ## Values -/

theorem readValue_append {b : List Char} (hb : Blank b) (limit depth : Nat) (text : List Char) :
    readValue limit depth (b ++ text) = readValue limit depth text := by
  unfold readValue
  rw [skipBlanks_append hb]

theorem readValue_number {limit depth : Nat} {c : Char} {t rest : List Char} {n : Numeral}
    (hc : c = '-' ∨ c.isDigit = true) (h : Numeral.read (c :: t) = .ok (n, rest)) :
    readValue limit depth (c :: t) = .ok (.number n, rest) := by
  rcases hc with rfl | hc
  · simp [readValue, skipBlanks, h]
  · have hne : ∀ x : Char, x.isDigit = false → c ≠ x := by
      rintro x hx rfl
      simp [hx] at hc
    simp [readValue, skipBlanks, h, hc, hne ' ' rfl, hne '\n' rfl, hne '\t' rfl, hne '\r' rfl,
      hne 'n' rfl, hne 't' rfl, hne 'f' rfl, hne '"' rfl]

/-- The reader of values reads every readable value that lies no deeper than allowed. -/
theorem readValue_reads {w : Written} {depth : Nat} (hf : w.Fits depth) (hr : w.Readable)
    (limit : Nat) : Reads (readValue limit depth) limit w := by
  intro t b rest hw ht hb hrest
  rw [readValue_append hb]
  clear hb
  -- a container is read by the reader that goes one less deep, which reads what lies in it
  induction w generalizing depth t b rest with
  | null =>
    cases hw
    simp [readValue, skipBlanks, readLiteral, readWord, Written.value]
  | bool v =>
    cases hw <;> simp [readValue, skipBlanks, readLiteral, readWord, Written.value]
  | number l =>
    cases hw with
    | number hl =>
      have hread := Numeral.read_append hl hrest.ends
      obtain ⟨c, t, e, hc⟩ := Numeral.head_text hl
      rw [e, List.cons_append] at hread
      rw [e, List.cons_append, readValue_number hc hread, Written.value]
  | string s =>
    cases hw with
    | string hs =>
      obtain ⟨t', rfl, hread⟩ := readString_of_spells hs rest
      simp [readValue, skipBlanks, hread, Written.value]
  | array items ih =>
    cases depth with
    | zero => exact hf.elim
    | succ depth =>
      cases hr with
      | array hr =>
        have hv : ∀ w ∈ items, Reads (readValue limit depth) limit w := by
          intro w hw t b rest h hl hb hrest
          rw [readValue_append hb]
          exact ih w hw (hf w hw) (hr w hw) t b rest h hl hrest
        cases hw with
        | emptyArray hb =>
          simp [readValue, skipBlanks, readArray, skipBlanks_append_cons hb]
        | array hb h =>
          simp only [List.length_append, List.length_cons] at ht
          have hread := readArray_append hb h hv (by omega) rest
          simp [readValue, skipBlanks, hread]
  | object members ih =>
    cases depth with
    | zero => exact hf.elim
    | succ depth =>
      cases hr with
      | object hq hr =>
        have hv : ∀ m ∈ members, Reads (readValue limit depth) limit m.2 := by
          intro m hm t b rest h hl hb hrest
          rw [readValue_append hb]
          exact ih m hm (hf m hm) (hr m hm) t b rest h hl hrest
        cases hw with
        | emptyObject hb =>
          have hvalue : (Written.object []).value = .object [] := rfl
          simp [readValue, skipBlanks, readObject, skipBlanks_append_cons hb, hvalue]
        | object hb h =>
          simp only [List.length_append, List.length_cons] at ht
          have hread := readObject_append hb h hq hv (by omega) rest
          simp [readValue, skipBlanks, hread]

/-- A text is read as one value just if it is a document of the grammar that is readable and in
which containers lie no deeper than allowed, and it is read as what the document stands for. -/
theorem parse_eq_ok_iff {text : List Char} {v : Json} :
    parse text = .ok v ↔
      ∃ w, Document w text ∧ w.Fits maxDepth ∧ w.Readable ∧ w.value = v := by
  refine ⟨parse_ok, ?_⟩
  rintro ⟨w, ⟨b, t, b', hb, hw, hb', rfl⟩, hf, hr, rfl⟩
  have hread := readValue_reads hf hr (b ++ (t ++ b')).length t b b' hw
    (by simp only [List.length_append]; omega) hb
    (by simpa using stops_append hb' stops_nil)
  have hskip := skipBlanks_append hb' []
  rw [List.append_nil] at hskip
  unfold parse
  rw [hread]
  simp [hskip, skipBlanks]

end Polyglot.Json

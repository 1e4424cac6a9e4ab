/-
What the reader accepts is in the grammar: the text that it has passed over spells a readable
written value in which containers lie no deeper than allowed, and the value that it returns is what
this stands for.

The readers of containers take the reader of the values inside, so each is shown sound for any sound
one. An induction on the depth, which the reader of values goes down by, ties them together.
-/
import Polyglot.Proofs.Json.Meaning
import Polyglot.Proofs.Json.Strings

namespace Polyglot.Json

open Keyed

/-! ## Blanks and words -/

theorem blank_nil : Blank [] := by simp [Blank]

theorem Blank.append {b b' : List Char} (hb : Blank b) (hb' : Blank b') : Blank (b ++ b') := by
  intro c hc
  rcases List.mem_append.1 hc with hc | hc
  · exact hb c hc
  · exact hb' c hc

/-- What is dropped is blank. -/
theorem exists_blank_skipBlanks (text : List Char) :
    ∃ b, Blank b ∧ text = b ++ skipBlanks text := by
  induction text with
  | nil => exact ⟨[], blank_nil, rfl⟩
  | cons c rest ih =>
    rw [skipBlanks]
    split
    · rename_i hc
      obtain ⟨b, hb, e⟩ := ih
      refine ⟨c :: b, ?_, by rw [List.cons_append, ← e]⟩
      intro c' hc'
      rcases List.mem_cons.1 hc' with rfl | hc'
      · simpa [or_assoc] using hc
      · exact hb c' hc'
    · exact ⟨[], blank_nil, rfl⟩

theorem eq_of_skipBlanks {text rest : List Char} (h : skipBlanks text = rest) :
    ∃ b, Blank b ∧ text = b ++ rest := h ▸ exists_blank_skipBlanks text

theorem readWord_ok {word text rest : List Char} (h : readWord word text = .ok ((), rest)) :
    text = word ++ rest := by
  induction word generalizing text with
  | nil =>
    cases h
    rfl
  | cons w word ih =>
    cases text with
    | nil => cases h
    | cons c text =>
      rw [readWord] at h
      split at h
      · rename_i hc
        rw [ih h, beq_iff_eq.1 hc, List.cons_append]
      · cases h

theorem readLiteral_ok {word text rest : List Char} {value v : Json}
    (h : readLiteral word value text = .ok (v, rest)) : v = value ∧ text = word ++ rest := by
  unfold readLiteral at h
  split at h
  · cases h
  · rename_i hw
    cases h
    exact ⟨rfl, readWord_ok hw⟩

/-! ## Containers -/

/-- What the reader accepts is blanks and a spelling of what it returns. -/
def Sound (value : Reader Json) (depth : Nat) : Prop :=
  ∀ text v rest, value text = .ok (v, rest) → ∃ b w t, Blank b ∧ Spells w t ∧
    text = b ++ (t ++ rest) ∧ w.Fits depth ∧ w.Readable ∧ w.value = v

theorem readItems_ok {value : Reader Json} {depth limit : Nat} (hv : Sound value depth)
    {items : List Json} {text rest : List Char} {v : Json}
    (h : readItems value limit items text = .ok (v, rest)) :
    ∃ ws b t, Blank b ∧ Listed Spells ws t ∧ text = b ++ (t ++ ']' :: rest) ∧
      (∀ w ∈ ws, w.Fits depth ∧ w.Readable) ∧
      v = .array (items.reverse ++ ws.map Written.value) := by
  -- the bound goes down with every element, and the elements before stay in front
  induction limit generalizing items text with
  | zero => cases h
  | succ limit ih =>
    unfold readItems at h
    split at h
    · cases h
    rename_i item rest1 hitem
    obtain ⟨b, w, t, hb, hw, rfl, hfits, hread, rfl⟩ := hv _ _ _ hitem
    split at h
    · cases h
    rename_i c behind hskip
    obtain ⟨b1, hb1, rfl⟩ := eq_of_skipBlanks hskip
    split at h
    · rename_i hc
      cases h
      exact ⟨[w], b, _, hb, .last hw hb1, by simp [beq_iff_eq.1 hc], by simp [hfits, hread],
        by simp⟩
    split at h
    · rename_i hc
      obtain ⟨b2, hb2, hbehind⟩ := exists_blank_skipBlanks behind
      split at h
      · cases h
      · cases h
      · obtain ⟨ws, b3, t', hb3, hws, e, hall, rfl⟩ := ih h
        refine ⟨w :: ws, b, _, hb, .more hw hb1 (hb2.append hb3) hws, ?_, ?_, by simp⟩
        · rw [hbehind, e, beq_iff_eq.1 hc]
          simp
        · exact List.forall_mem_cons.2 ⟨⟨hfits, hread⟩, hall⟩
    · cases h

theorem readArray_ok {value : Reader Json} {depth limit : Nat} (hv : Sound value depth)
    {text rest : List Char} {v : Json} (h : readArray value limit text = .ok (v, rest)) :
    ∃ w t, Spells w t ∧ '[' :: text = t ++ rest ∧ w.Fits (depth + 1) ∧ w.Readable ∧
      w.value = v := by
  unfold readArray at h
  obtain ⟨b, hb, e⟩ := exists_blank_skipBlanks text
  -- the text ends there, the array is empty, or its first element comes
  split at h
  · cases h
  · rename_i hskip
    cases h
    refine ⟨.array [], _, .emptyArray hb, ?_, by simp [Written.Fits], .array (by simp), rfl⟩
    rw [e, hskip]
    simp
  · obtain ⟨ws, b', t, hb', hws, e', hall, rfl⟩ := readItems_ok hv h
    refine ⟨.array ws, _, .array (hb.append hb') hws, ?_, fun w hw => (hall w hw).1,
      .array fun w hw => (hall w hw).2, by simp⟩
    rw [e, e']
    simp

theorem readColon_ok {text rest : List Char} (h : readColon text = .ok ((), rest)) :
    ∃ b, Blank b ∧ text = b ++ ':' :: rest := by
  unfold readColon at h
  split at h
  · cases h
  · rename_i hskip
    split at h
    · rename_i hc
      cases h
      rw [beq_iff_eq.1 hc] at hskip
      exact eq_of_skipBlanks hskip
    · cases h

theorem readKey_ok {text rest : List Char} {key : String} (h : readKey text = .ok (key, rest)) :
    ∃ k, SpellsString key k ∧ text = k ++ rest := by
  unfold readKey at h
  split at h
  · exact spells_of_readString h
  · cases h

/-- The members read from a key on are listed in the text from that key on. -/
theorem readMembers_ok {value : Reader Json} {depth limit : Nat} (hv : Sound value depth)
    {done : Members} {key : String} {k text rest : List Char} {v : Json}
    (hk : SpellsString key k) (h : readMembers value limit done key text = .ok (v, rest)) :
    ∃ w ms t, Listed SpellsMember ((key, w) :: ms) t ∧ k ++ text = t ++ '\x7d' :: rest ∧
      (∀ m ∈ (key, w) :: ms, m.2.Fits depth ∧ m.2.Readable) ∧
      v = .object ((mapValues Written.value ((key, w) :: ms)).foldl
        (fun done m => Members.put m.1 m.2 done) done) := by
  -- the key stands before the text that is read, so its spelling is carried along
  induction limit generalizing done key k text with
  | zero => cases h
  | succ limit ih =>
    unfold readMembers at h
    split at h
    · cases h
    rename_i text1 hcolon
    obtain ⟨b, hb, rfl⟩ := readColon_ok hcolon
    split at h
    · cases h
    rename_i item rest1 hitem
    obtain ⟨b', w, t, hb', hw, rfl, hfits, hread, rfl⟩ := hv _ _ _ hitem
    have hm : SpellsMember (key, w) (k ++ (b ++ ':' :: (b' ++ t))) := .intro hk hb hb' hw
    dsimp only at h
    split at h
    · cases h
    rename_i c behind hskip
    obtain ⟨b1, hb1, rfl⟩ := eq_of_skipBlanks hskip
    split at h
    · rename_i hc
      cases h
      exact ⟨w, [], _, .last hm hb1, by simp [beq_iff_eq.1 hc], by simp [hfits, hread], rfl⟩
    split at h
    · rename_i hc
      obtain ⟨b2, hb2, hbehind⟩ := exists_blank_skipBlanks behind
      split at h
      · cases h
      · cases h
      split at h
      · cases h
      rename_i key' text2 hkey
      obtain ⟨k', hk', e⟩ := readKey_ok hkey
      obtain ⟨w', ms, t', hms, e', hall, rfl⟩ := ih hk' h
      refine ⟨w, (key', w') :: ms, _, .more hm hb1 hb2 hms, ?_, ?_, rfl⟩
      · rw [hbehind, e, e', beq_iff_eq.1 hc]
        simp
      · exact List.forall_mem_cons.2 ⟨⟨hfits, hread⟩, hall⟩
    · cases h

/-- Behind the reserved key only a quoted number and the end of the object are read. -/
theorem readNumberObject_ok {text rest : List Char} {v : Json}
    (h : readNumberObject text = .ok (v, rest)) :
    ∃ (l : Literal) (b t b' : List Char), l.WellFormed ∧ Blank b ∧
      SpellsString (String.ofList l.text) t ∧ Blank b' ∧
      text = b ++ (t ++ (b' ++ '\x7d' :: rest)) ∧ v = .number l.numeral := by
  unfold readNumberObject at h
  split at h
  · rename_i rest1 hskip
    obtain ⟨b, hb, rfl⟩ := eq_of_skipBlanks hskip
    split at h
    · cases h
    rename_i s rest2 hs
    obtain ⟨t, ht, e⟩ := spells_of_readString hs
    split at h
    · cases h
    rename_i n hn
    obtain ⟨l, hl, hlt, rfl⟩ := readQuoted_eq_ok_iff.1 hn
    split at h
    · cases h
    rename_i c behind hskip'
    obtain ⟨b', hb', rfl⟩ := eq_of_skipBlanks hskip'
    split at h
    · rename_i hc
      cases h
      refine ⟨l, b, t, b', hl, hb, ?_, hb', ?_, rfl⟩
      · rwa [hlt, String.ofList_toList]
      · rw [e, beq_iff_eq.1 hc]
    · split at h <;> cases h
  · split at h <;> cases h

theorem readObject_ok {value : Reader Json} {depth limit : Nat} (hv : Sound value depth)
    {text rest : List Char} {v : Json} (h : readObject value limit text = .ok (v, rest)) :
    ∃ w t, Spells w t ∧ '\x7b' :: text = t ++ rest ∧ w.Fits (depth + 1) ∧ w.Readable ∧
      w.value = v := by
  unfold readObject at h
  obtain ⟨b, hb, e⟩ := exists_blank_skipBlanks text
  split at h
  · cases h
  · rename_i hskip
    cases h
    refine ⟨.object [], _, .emptyObject hb, ?_, by simp [Written.Fits],
      .object (by simp [firstKey]) (by simp), rfl⟩
    rw [e, hskip]
    simp
  split at h
  · cases h
  rename_i key text1 hkey
  obtain ⟨k, hk, e1⟩ := readKey_ok hkey
  split at h
  · -- behind the reserved key: what is read is the one member of an object that says a number
    rename_i hreserved
    rw [beq_iff_eq] at hreserved
    subst hreserved
    split at h
    · cases h
    rename_i text2 hcolon
    obtain ⟨b1, hb1, rfl⟩ := readColon_ok hcolon
    obtain ⟨l, b2, t, b3, hl, hb2, ht, hb3, rfl, rfl⟩ := readNumberObject_ok h
    refine ⟨.object [(numberKey, .string (String.ofList l.text))], _,
      .object hb (.last (.intro hk hb1 hb2 (.string ht)) hb3), ?_, ?_, ?_, Written.value_quoted hl⟩
    · rw [e, e1]
      simp
    · cases depth <;> simp [Written.Fits]
    · exact .object (fun _ => ⟨l, hl, rfl⟩) (by simpa using Written.Throughout.string _)
  · rename_i hreserved
    rw [beq_iff_eq] at hreserved
    obtain ⟨w, ms, t, hms, e2, hall, rfl⟩ := readMembers_ok hv hk h
    have hfirst : firstKey ((key, w) :: ms) ≠ some numberKey := by simpa [firstKey] using hreserved
    -- any other first key is written down as it is
    refine ⟨.object ((key, w) :: ms), _, .object hb hms, ?_, fun m hm => (hall m hm).1,
      .object (fun h => absurd h hfirst) fun m hm => (hall m hm).2, ?_⟩
    · rw [e, e1, e2]
      simp
    · -- the reader has put the members into an object one by one, which settles them
      rw [Written.value_object hfirst, ← settle_mapValues]
      congr 1
      exact (Members.foldl_put [] _).symm

/-! ## Values -/

/-- Behind blanks, the reader of values has read a value that is no container, or it has read a
container with the reader that goes one less deep. -/
theorem readValue_ok {limit depth : Nat} {text rest : List Char} {v : Json}
    (h : readValue limit depth text = .ok (v, rest)) :
    ∃ b text', Blank b ∧ text = b ++ text' ∧
      ((∃ w t, Spells w t ∧ text' = t ++ rest ∧ (∀ depth, w.Fits depth) ∧ w.Readable ∧
          w.value = v) ∨
        (∃ d behind, depth = d + 1 ∧ text' = '[' :: behind ∧
          readArray (readValue limit d) limit behind = .ok (v, rest)) ∨
        ∃ d behind, depth = d + 1 ∧ text' = '\x7b' :: behind ∧
          readObject (readValue limit d) limit behind = .ok (v, rest)) := by
  unfold readValue at h
  obtain ⟨b, hb, e⟩ := exists_blank_skipBlanks text
  refine ⟨b, skipBlanks text, hb, e, ?_⟩
  -- after the blanks, one case for each character that a value can begin with
  split at h
  · cases h
  rename_i c text1 hskip
  rw [hskip]
  split at h
  · rename_i hc
    obtain ⟨rfl, rfl⟩ := readLiteral_ok h
    rw [beq_iff_eq.1 hc]
    exact .inl ⟨.null, _, .null, rfl, fun depth => by cases depth <;> trivial, .null, rfl⟩
  split at h
  · rename_i hc
    obtain ⟨rfl, rfl⟩ := readLiteral_ok h
    rw [beq_iff_eq.1 hc]
    exact .inl ⟨.bool true, _, .true, rfl, fun depth => by cases depth <;> trivial, .bool _, rfl⟩
  split at h
  · rename_i hc
    obtain ⟨rfl, rfl⟩ := readLiteral_ok h
    rw [beq_iff_eq.1 hc]
    exact .inl ⟨.bool false, _, .false, rfl, fun depth => by cases depth <;> trivial, .bool _, rfl⟩
  split at h
  · rename_i hc
    split at h
    · cases h
    rename_i s behind hs
    cases h
    obtain ⟨t, ht, e⟩ := spells_of_readString hs
    rw [beq_iff_eq.1 hc, e]
    exact .inl ⟨.string s, t, .string ht, rfl, fun depth => by cases depth <;> trivial, .string _,
      rfl⟩
  split at h
  · split at h
    · cases h
    rename_i n behind hn
    cases h
    obtain ⟨l, hl, rfl, e⟩ := Numeral.read_ok hn
    rw [e]
    exact .inl ⟨.number l, l.text, .number hl, rfl, fun depth => by cases depth <;> trivial,
      .number trivial, rfl⟩
  split at h
  · rename_i hc
    rw [beq_iff_eq.1 hc]
    split at h
    · cases h
    · exact .inr (.inl ⟨_, text1, rfl, rfl, h⟩)
  split at h
  · rename_i hc
    rw [beq_iff_eq.1 hc]
    split at h
    · cases h
    · exact .inr (.inr ⟨_, text1, rfl, rfl, h⟩)
  · cases h

/-- The reader of values accepts only texts of the grammar, and returns what they stand for. -/
theorem readValue_sound (limit depth : Nat) : Sound (readValue limit depth) depth := by
  induction depth with
  | zero =>
    intro text v rest h
    obtain ⟨b, text', hb, rfl, hread⟩ := readValue_ok h
    rcases hread with ⟨w, t, hw, rfl, hfits, hread, hv⟩ | ⟨d, _, hd, _⟩ | ⟨d, _, hd, _⟩
    · exact ⟨b, w, t, hb, hw, rfl, hfits _, hread, hv⟩
    · -- nothing is left to go deeper
      cases hd
    · cases hd
  | succ depth ih =>
    intro text v rest h
    obtain ⟨b, text', hb, rfl, hread⟩ := readValue_ok h
    rcases hread with ⟨w, t, hw, rfl, hfits, hread, hv⟩ | ⟨d, behind, hd, rfl, hread⟩ |
      ⟨d, behind, hd, rfl, hread⟩
    · exact ⟨b, w, t, hb, hw, rfl, hfits _, hread, hv⟩
    · cases hd
      obtain ⟨w, t, hw, e, hfits, hread, hv⟩ := readArray_ok ih hread
      exact ⟨b, w, t, hb, hw, by rw [e], hfits, hread, hv⟩
    · cases hd
      obtain ⟨w, t, hw, e, hfits, hread, hv⟩ := readObject_ok ih hread
      exact ⟨b, w, t, hb, hw, by rw [e], hfits, hread, hv⟩

/-- What is read as one value is a text of the grammar. -/
theorem parse_ok {text : List Char} {v : Json} (h : parse text = .ok v) :
    ∃ w, Document w text ∧ w.Fits maxDepth ∧ w.Readable ∧ w.value = v := by
  unfold parse at h
  split at h
  · cases h
  rename_i v' rest hv
  split at h
  · rename_i hskip
    cases h
    obtain ⟨b, w, t, hb, hw, rfl, hfits, hread, rfl⟩ := readValue_sound _ _ _ _ _ hv
    obtain ⟨b', hb', rfl⟩ := eq_of_skipBlanks hskip
    exact ⟨w, ⟨b, t, b', hb, hw, hb', by simp⟩, hfits, hread, rfl⟩
  · cases h

end Polyglot.Json

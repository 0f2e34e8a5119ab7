import MediaRemote.Text.Blank

namespace MediaRemote.Text

def IsWord (w : String) : Prop := w.toList ≠ [] ∧ ∀ c ∈ w.toList, isBlank c = false

-- the characters of the word are gone through, not all characters that there are
instance (w : String) : Decidable (IsWord w) :=
  @instDecidableAnd _ _ inferInstance (List.decidableBAll _ _)

/-- The text shows these words: white space, a word that ends where the text does or before white
space, and so on. -/
inductive Layout : List String → List Char → Prop
  | blank {b} (blanks : ∀ c ∈ b, isBlank c = true) : Layout [] b
  | word {b w ws s} (blanks : ∀ c ∈ b, isBlank c = true) (word : IsWord w) (rest : Layout ws s)
    (apart : ∀ c ∈ s.head?, isBlank c = true) : Layout (w :: ws) (b ++ (w.toList ++ s))

theorem Layout.isWord {ws : List String} {s : List Char} (h : Layout ws s) :
    ∀ w ∈ ws, IsWord w := by
  induction h with
  | blank => simp
  | word _ hw _ _ ih => simpa using ⟨hw, ih⟩

theorem Layout.after_blank {ws : List String} {s : List Char} (h : Layout ws s) {c : Char}
    (hc : isBlank c = true) : Layout ws (c :: s) := by
  cases h with
  | blank hb => exact .blank (by simpa using ⟨hc, hb⟩)
  | @word b w ws s hb hw hrest hapart =>
    exact .word (b := c :: b) (by simpa using ⟨hc, hb⟩) hw hrest hapart

/-- Any words can be laid out. -/
theorem exists_layout {ws : List String} (hws : ∀ w ∈ ws, IsWord w) : ∃ s, Layout ws s := by
  induction ws with
  | nil => exact ⟨[], .blank (by simp)⟩
  | cons w ws ih =>
    obtain ⟨s, hs⟩ := ih fun v hv => hws v (by simp [hv])
    have hspace : isBlank ' ' = true := by decide
    exact ⟨_, .word (b := []) (by simp) (hws w (by simp)) (hs.after_blank hspace)
      (by simpa using hspace)⟩

theorem wordsFrom_blanks {b : List Char} (hb : ∀ c ∈ b, isBlank c = true) (s : List Char) :
    wordsFrom [] (b ++ s) = wordsFrom [] s := by
  induction b with
  | nil => rfl
  | cons c b ih =>
    have hc : isBlank c = true := hb c (by simp)
    simp [wordsFrom, hc, ih fun d hd => hb d (by simp [hd])]

theorem wordsFrom_word {w : List Char} (hw : ∀ c ∈ w, isBlank c = false) (current s : List Char) :
    wordsFrom current (w ++ s) = wordsFrom (w.reverse ++ current) s := by
  induction w generalizing current with
  | nil => rfl
  | cons c w ih =>
    have hc : isBlank c = false := hw c (by simp)
    simp [wordsFrom, hc, ih fun d hd => hw d (by simp [hd])]

/-- A word is complete where the text ends or white space follows. -/
theorem wordsFrom_complete {current s : List Char} (hcurrent : current ≠ [])
    (hs : ∀ c ∈ s.head?, isBlank c = true) :
    wordsFrom current s = current.reverse :: wordsFrom [] s := by
  cases s with
  | nil => simp [wordsFrom, hcurrent]
  | cons c s =>
    have hc : isBlank c = true := hs c rfl
    simp [wordsFrom, hc, hcurrent]

theorem Layout.words_eq {ws : List String} {s : List Char} (h : Layout ws s) :
    (wordsFrom [] s).map String.ofList = ws := by
  induction h with
  | @blank b hb =>
    have hread := wordsFrom_blanks hb []
    rw [List.append_nil] at hread
    rw [hread]
    rfl
  | @word b w ws s hb hw hrest hapart ih =>
    have hnonempty : w.toList.reverse ≠ [] := by simpa using hw.1
    rw [wordsFrom_blanks hb, wordsFrom_word hw.2, List.append_nil,
      wordsFrom_complete hnonempty hapart, List.map_cons, ih, List.reverse_reverse,
      String.ofList_toList]

theorem isWord_reverse {current : List Char} (hne : current ≠ [])
    (hc : ∀ c ∈ current, isBlank c = false) : IsWord (String.ofList current.reverse) := by
  simpa [IsWord] using ⟨hne, hc⟩

/-- Also when part of a word was read before. -/
theorem layout_wordsFrom {current : List Char} (hc : ∀ c ∈ current, isBlank c = false)
    (s : List Char) : Layout ((wordsFrom current s).map String.ofList) (current.reverse ++ s) := by
  induction s generalizing current with
  | nil =>
    by_cases hne : current = []
    · subst hne
      exact .blank (by simp)
    · have hlast : Layout [String.ofList current.reverse] _ :=
        .word (b := []) (by simp) (isWord_reverse hne hc) (.blank (b := []) (by simp)) (by simp)
      simpa [wordsFrom, hne] using hlast
  | cons c s ih =>
    cases hblank : isBlank c with
    | true =>
      have hrest : Layout ((wordsFrom [] s).map String.ofList) (c :: s) :=
        (@ih [] (by simp)).after_blank hblank
      by_cases hne : current = []
      · subst hne
        simpa [wordsFrom, hblank] using hrest
      · have hfirst := Layout.word (b := []) (by simp) (isWord_reverse hne hc) hrest
          (by simpa using hblank)
        simpa [wordsFrom, hblank, hne] using hfirst
    | false =>
      have hlonger : ∀ d ∈ c :: current, isBlank d = false := by simpa using ⟨hblank, hc⟩
      have hrest := ih hlonger
      simpa [wordsFrom, hblank] using hrest

/-- The words of a text are those that it lays out. -/
theorem words_eq_iff {s : String} {ws : List String} : words s = ws ↔ Layout ws s.toList := by
  constructor
  · rintro rfl
    simpa [words] using @layout_wordsFrom [] (by simp) s.toList
  · exact Layout.words_eq

end MediaRemote.Text

namespace MediaRemote.Dictionary

variable {α : Type}

/-- The entries with one more; it replaces an earlier entry of its key. -/
def insert (key : String) (a : α) : List (String × α) → List (String × α)
  | [] => [(key, a)]
  | (k, b) :: rest =>
    if key < k then (key, a) :: (k, b) :: rest
    else if key = k then (key, a) :: rest
    else (k, b) :: insert key a rest

def find? (key : String) (entries : List (String × α)) : Option α :=
  (entries.find? (·.1 == key)).map (·.2)

theorem find?_cons (key k : String) (a : α) (rest : List (String × α)) :
    find? key ((k, a) :: rest) = if k = key then some a else find? key rest := by
  unfold find?
  by_cases h : k = key <;> simp [h]

theorem find?_insert (k key : String) (a : α) (entries : List (String × α)) :
    find? k (insert key a entries) = if k = key then some a else find? k entries := by
  induction entries with
  | nil => simp [insert, find?_cons, eq_comm]
  | cons e rest ih =>
    obtain ⟨l, b⟩ := e
    simp only [insert]
    split
    · simp [find?_cons, eq_comm]
    · split
      · rename_i h
        subst h
        by_cases hk : k = key <;> simp [find?_cons, hk, eq_comm]
      · rename_i h
        rw [find?_cons, find?_cons, ih]
        by_cases hl : l = k
        · subst hl
          simp [Ne.symm h]
        · simp [hl]

theorem mem_of_find? {key : String} {a : α} {entries : List (String × α)}
    (h : find? key entries = some a) : (key, a) ∈ entries := by
  obtain ⟨⟨k, b⟩, hfind, rfl⟩ := Option.map_eq_some_iff.mp h
  have hk : k = key := by simpa using List.find?_some hfind
  exact hk ▸ List.mem_of_find?_eq_some hfind

/-- Entries are kept like this, so that two dictionaries with the same contents are the same list.
-/
def Increasing (entries : List (String × α)) : Prop := (entries.map (·.1)).Pairwise (· < ·)

theorem mem_insert {e : String × α} {key : String} {a : α} {entries : List (String × α)}
    (h : e ∈ insert key a entries) : e = (key, a) ∨ e ∈ entries := by
  induction entries with
  | nil => simpa [insert] using h
  | cons f rest ih =>
    obtain ⟨k, b⟩ := f
    simp only [insert] at h
    split at h
    · simpa using h
    · split at h
      · rcases List.mem_cons.mp h with h | h
        · exact .inl h
        · exact .inr (.tail _ h)
      · rcases List.mem_cons.mp h with h | h
        · exact .inr (h ▸ .head _)
        · exact (ih h).imp_right (.tail _)

theorem increasing_insert {entries : List (String × α)} (h : Increasing entries) (key : String)
    (a : α) : Increasing (insert key a entries) := by
  induction entries with
  | nil => simp [insert, Increasing]
  | cons f rest ih =>
    obtain ⟨k, b⟩ := f
    simp only [Increasing, List.map_cons, List.pairwise_cons] at h ih
    simp only [insert]
    split
    · rename_i hlt
      simp only [Increasing, List.map_cons, List.pairwise_cons, List.mem_cons]
      refine ⟨?_, h⟩
      rintro l (rfl | hl)
      · exact hlt
      · exact String.lt_trans hlt (h.1 l hl)
    · split
      · rename_i he
        subst he
        simpa [Increasing] using h
      · rename_i hn he
        simp only [Increasing, List.map_cons, List.pairwise_cons]
        refine ⟨?_, ih h.2⟩
        intro l hl
        obtain ⟨e, hm, rfl⟩ := List.mem_map.mp hl
        rcases mem_insert hm with rfl | hm
        · exact String.not_le.mp fun hle => he (String.le_antisymm hle (String.not_lt.mp hn))
        · exact h.1 _ (List.mem_map_of_mem hm)

/-- A key behind all others is inserted at the end. -/
theorem insert_greatest {key : String} {entries : List (String × α)}
    (h : ∀ e ∈ entries, e.1 < key) (a : α) : insert key a entries = entries ++ [(key, a)] := by
  induction entries with
  | nil => rfl
  | cons e rest ih =>
    obtain ⟨k, b⟩ := e
    have hk : k < key := h (k, b) (by simp)
    have hne : key ≠ k := fun he => String.lt_irrefl k (he ▸ hk)
    rw [insert, if_neg (String.lt_asymm hk), if_neg hne, ih fun e he => h e (.tail _ he)]
    rfl

/-- Inserting entries that are in order gives them back. -/
theorem foldl_insert {acc entries : List (String × α)} (h : Increasing (acc ++ entries)) :
    entries.foldl (fun acc e => insert e.1 e.2 acc) acc = acc ++ entries := by
  induction entries generalizing acc with
  | nil => simp
  | cons e rest ih =>
    have hlast : ∀ f ∈ acc, f.1 < e.1 := by
      intro f hf
      simp only [Increasing, List.map_append, List.pairwise_append] at h
      exact h.2.2 f.1 (List.mem_map_of_mem hf) e.1 (by simp)
    rw [List.foldl_cons, insert_greatest hlast, ih (by simpa using h)]
    simp

theorem find?_of_lt {key : String} {entries : List (String × α)} (h : ∀ e ∈ entries, key < e.1) :
    find? key entries = none := by
  cases hfind : find? key entries with
  | none => rfl
  | some a => exact absurd (h _ (mem_of_find? hfind)) (String.lt_irrefl key)

/-- What is made of two keys only is made of what these hold, in their order. -/
theorem filterMap_of_two {β : Type} {f : String × α → Option β} {k l : String} (hkl : k < l)
    (hf : ∀ key a, key ≠ k → key ≠ l → f (key, a) = none) {entries : List (String × α)}
    (h : Increasing entries) :
    entries.filterMap f = ((find? k entries).bind fun a => f (k, a)).toList ++
      ((find? l entries).bind fun a => f (l, a)).toList := by
  induction entries with
  | nil => rfl
  | cons e rest ih =>
    obtain ⟨key, a⟩ := e
    simp only [Increasing, List.map_cons, List.pairwise_cons, List.mem_map] at h
    have hbehind : ∀ e ∈ rest, key < e.1 := fun e he => h.1 e.1 ⟨e, he, rfl⟩
    have hcons : ((key, a) :: rest).filterMap f = (f (key, a)).toList ++ rest.filterMap f := by
      cases hfirst : f (key, a) <;> simp [hfirst]
    rw [hcons, ih h.2]
    by_cases hk : key = k
    · subst hk
      rw [find?_of_lt hbehind, find?_cons, find?_cons, if_pos rfl, if_neg (String.ne_of_lt hkl)]
      rfl
    · rw [find?_cons, find?_cons, if_neg hk]
      by_cases hl : key = l
      · subst hl
        have hfirst : ∀ e ∈ rest, k < e.1 := fun e he => String.lt_trans hkl (hbehind e he)
        rw [find?_of_lt hbehind, find?_of_lt hfirst, if_pos rfl]
        simp
      · rw [if_neg hl, hf key a hk hl]
        rfl

end MediaRemote.Dictionary

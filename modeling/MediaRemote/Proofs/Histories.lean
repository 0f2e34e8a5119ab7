import Mathlib.Data.List.Induction
import Mathlib.Data.List.Nodup

namespace MediaRemote.History

variable {α : Type} {h more before after : List α} {e x : α}

/-- A split of a longer history is at an old place or at a new one. -/
theorem split_append (hs : h ++ more = before ++ e :: after) :
    (∃ rest, h = before ++ e :: rest ∧ after = rest ++ more) ∨
      ∃ rest, before = h ++ rest ∧ more = rest ++ e :: after := by
  rcases List.append_eq_append_iff.mp hs with ⟨rest, hb, hm⟩ | ⟨rest, hh, ha⟩
  · exact .inr ⟨rest, hb, hm⟩
  · cases rest with
    | nil => exact .inr ⟨[], by simpa using hh.symm, by simpa using ha.symm⟩
    | cons y rest =>
      simp only [List.cons_append, List.cons.injEq] at ha
      obtain ⟨rfl, rfl⟩ := ha
      exact .inl ⟨rest, hh, rfl⟩

/-- With one entry more there is one place more, the last. -/
theorem split_concat (hs : h ++ [x] = before ++ e :: after) :
    (∃ rest, h = before ++ e :: rest ∧ after = rest ++ [x]) ∨
      (before = h ∧ e = x ∧ after = []) := by
  rcases split_append hs with hold | ⟨rest, hb, hm⟩
  · exact .inl hold
  · right
    obtain ⟨rfl, hx⟩ | ⟨_, -, hx⟩ := List.cons_eq_append_iff.mp hm
    · simp only [List.cons.injEq] at hx
      exact ⟨by simpa using hb, hx.1, hx.2⟩
    · simp at hx

variable {p q : α → Prop}

/-- Somewhere `p`, and `q` ever since. -/
def Since (p q : α → Prop) (h : List α) : Prop :=
  ∃ before e after, h = before ++ e :: after ∧ p e ∧ ∀ x ∈ after, q x

theorem not_since_nil : ¬ Since p q [] := by
  rintro ⟨before, e, after, hs, -⟩
  simp at hs

theorem since_concat : Since p q (h ++ [x]) ↔ p x ∨ (Since p q h ∧ q x) := by
  constructor
  · rintro ⟨before, e, after, hs, hp, hq⟩
    rcases split_concat hs with ⟨rest, rfl, rfl⟩ | ⟨-, rfl, -⟩
    · refine .inr ⟨⟨before, e, rest, rfl, hp, ?_⟩, hq x (by simp)⟩
      intro y hy
      exact hq y (List.mem_append_left _ hy)
    · exact .inl hp
  · rintro (hp | ⟨⟨before, e, after, rfl, hp, hq⟩, hx⟩)
    · exact ⟨h, x, [], rfl, hp, by simp⟩
    · refine ⟨before, e, after ++ [x], by simp, hp, ?_⟩
      intro y hy
      rcases List.mem_append.mp hy with hy | hy
      · exact hq y hy
      · rw [List.mem_singleton.mp hy]
        exact hx

theorem Since.imp {p' q' : α → Prop} (hs : Since p q h) (hp : ∀ x, p x → p' x)
    (hq : ∀ x, q x → q' x) : Since p' q' h := by
  obtain ⟨before, e, after, rfl, he, ha⟩ := hs
  exact ⟨before, e, after, rfl, hp e he, fun x hx => hq x (ha x hx)⟩

/-- What has happened since has a last time. -/
theorem Since.last (hs : Since p q h) : Since p (fun x => q x ∧ ¬ p x) h := by
  induction h using List.reverseRecOn with
  | nil => exact absurd hs not_since_nil
  | append_singleton h x ih =>
    rw [since_concat] at hs ⊢
    by_cases hx : p x
    · exact .inl hx
    · obtain ⟨hold, hq⟩ := hs.resolve_left hx
      exact .inr ⟨ih hold, hq, hx⟩

/-- What happened at one place only has happened since if nothing after that place undid it. -/
theorem Since.at_place (hs : Since p q h) (hh : h = before ++ e :: after)
    (hp : ∀ x ∈ before ++ after, ¬ p x) : p e ∧ ∀ x ∈ after, q x := by
  obtain ⟨front, x, back, hx, hpx, hq⟩ := hs
  rw [hh] at hx
  rcases split_append hx with ⟨rest, rfl, -⟩ | ⟨rest, rfl, hback⟩
  · exact absurd hpx (hp x (by simp))
  · cases rest with
    | nil =>
      obtain ⟨rfl, rfl⟩ : e = x ∧ after = back := by simpa using hback
      exact ⟨hpx, hq⟩
    | cons y rest =>
      obtain ⟨rfl, rfl⟩ : e = y ∧ after = rest ++ x :: back := by simpa using hback
      exact absurd hpx (hp x (by simp))

structure Moment (σ ι : Type) where
  before : σ
  now : Nat
  input : ι

variable {σ ι : Type}

def stateAfter (step : Nat → ι → σ → σ) (s : σ) (inputs : List (Nat × ι)) : σ :=
  inputs.foldl (fun s i => step i.1 i.2 s) s

def moments (step : Nat → ι → σ → σ) : σ → List (Nat × ι) → List (Moment σ ι)
  | _, [] => []
  | s, (now, i) :: rest => ⟨s, now, i⟩ :: moments step (step now i s) rest

theorem stateAfter_concat (step : Nat → ι → σ → σ) (s : σ) (inputs : List (Nat × ι)) (now : Nat)
    (i : ι) : stateAfter step s (inputs ++ [(now, i)]) = step now i (stateAfter step s inputs) := by
  simp [stateAfter]

theorem stateAfter_append (step : Nat → ι → σ → σ) (s : σ) (inputs more : List (Nat × ι)) :
    stateAfter step s (inputs ++ more) = stateAfter step (stateAfter step s inputs) more := by
  simp [stateAfter]

theorem moments_append (step : Nat → ι → σ → σ) (s : σ) (inputs more : List (Nat × ι)) :
    moments step s (inputs ++ more) =
      moments step s inputs ++ moments step (stateAfter step s inputs) more := by
  induction inputs generalizing s with
  | nil => rfl
  | cons first rest ih => simp [moments, ih, stateAfter]

theorem moments_now (step : Nat → ι → σ → σ) (s : σ) (inputs : List (Nat × ι)) :
    (moments step s inputs).map (·.now) = inputs.map (·.1) := by
  induction inputs generalizing s with
  | nil => rfl
  | cons first rest ih => simp [moments, ih]

theorem moments_inputs (step : Nat → ι → σ → σ) (s : σ) (inputs : List (Nat × ι)) :
    (moments step s inputs).map (fun m => (m.now, m.input)) = inputs := by
  induction inputs generalizing s with
  | nil => rfl
  | cons first rest ih => simp [moments, ih]

/-- What holds at first and is kept holds at every moment. -/
theorem before_of_moments {step : Nat → ι → σ → σ} {I : σ → Prop}
    (hstep : ∀ s now i, I s → I (step now i s)) {s : σ} (hs : I s) (inputs : List (Nat × ι)) :
    ∀ m ∈ moments step s inputs, I m.before := by
  induction inputs generalizing s with
  | nil => simp [moments]
  | cons first rest ih =>
    simp only [moments, List.forall_mem_cons]
    exact ⟨hs, ih (hstep s first.1 first.2 hs)⟩

theorem moments_eq_cons {step : Nat → ι → σ → σ} {s : σ} {inputs : List (Nat × ι)}
    {m : Moment σ ι} {rest : List (Moment σ ι)} (h : moments step s inputs = m :: rest) :
    ∃ more, inputs = (m.now, m.input) :: more ∧ m.before = s ∧
      moments step (step m.now m.input s) more = rest := by
  cases inputs with
  | nil => cases h
  | cons first more =>
    simp only [moments, List.cons.injEq] at h
    obtain ⟨rfl, rfl⟩ := h
    exact ⟨more, rfl, rfl, rfl⟩

/-- From any place on, the moments are those of the state at that place. -/
theorem moments_split {step : Nat → ι → σ → σ} {s : σ} {inputs : List (Nat × ι)}
    {before rest : List (Moment σ ι)} (h : moments step s inputs = before ++ rest) :
    ∃ t more, moments step t more = rest ∧ stateAfter step t more = stateAfter step s inputs := by
  induction before generalizing s inputs with
  | nil => exact ⟨s, inputs, h, rfl⟩
  | cons m before ih =>
    obtain ⟨more, rfl, rfl, hrest⟩ := moments_eq_cons h
    obtain ⟨t, later, hlater, hend⟩ := ih hrest
    exact ⟨t, later, hlater, hend⟩

theorem moments_concat (step : Nat → ι → σ → σ) (s : σ) (inputs : List (Nat × ι)) (now : Nat)
    (i : ι) :
    moments step s (inputs ++ [(now, i)]) =
      moments step s inputs ++ [⟨stateAfter step s inputs, now, i⟩] :=
  moments_append step s inputs [(now, i)]

end MediaRemote.History

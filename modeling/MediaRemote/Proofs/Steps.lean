import MediaRemote.Step

namespace MediaRemote.Step

variable {σ ε : Type}

/-- Doing nothing is lawful, and so is one lawful step after another. -/
class Law (R : σ → List ε → σ → Prop) : Prop where
  nothing : ∀ s, R s [] s
  inTurn : ∀ {s t u before after}, R s before t → R t after u → R s (before ++ after) u

def Keeps (R : σ → List ε → σ → Prop) (f : Step σ ε) : Prop := ∀ s, R s (f s).2 (f s).1

variable {R : σ → List ε → σ → Prop}

theorem Keeps.modify {f : σ → σ} (h : ∀ s, R s [] (f s)) : Keeps R (modify f) := by
  intro s
  exact h s

theorem Keeps.give {e : ε} (h : ∀ s, R s [e] s) : Keeps R (give e) := by
  intro s
  exact h s

variable [Law R]

theorem Keeps.skip : Keeps R (skip : Step σ ε) := by
  intro s
  exact Law.nothing s

theorem Keeps.andThen {f g : Step σ ε} (hf : Keeps R f) (hg : Keeps R g) :
    Keeps R (f.andThen g) := by
  intro s
  exact Law.inTurn (hf s) (hg (f s).1)

theorem Keeps.nil : Keeps R (inOrder ([] : List (Step σ ε))) := Keeps.skip

theorem Keeps.cons {f : Step σ ε} {fs : List (Step σ ε)} (hf : Keeps R f)
    (hfs : Keeps R (inOrder fs)) : Keeps R (inOrder (f :: fs)) :=
  hf.andThen hfs

theorem Keeps.inOrder {fs : List (Step σ ε)} (h : ∀ f ∈ fs, Keeps R f) :
    Keeps R (inOrder fs) := by
  induction fs with
  | nil => exact .nil
  | cons f fs ih =>
    refine .cons (h f List.mem_cons_self) (ih ?_)
    intro g hg
    exact h g (List.mem_cons_of_mem _ hg)

theorem Keeps.forSome {α : Type} {f : α → Step σ ε} (h : ∀ a, Keeps R (f a)) (a : Option α) :
    Keeps R (forSome a f) := by
  cases a with
  | none => exact .skip
  | some a => exact h a

theorem Keeps.onlyIf {f : Step σ ε} (h : Keeps R f) (c : Bool) : Keeps R (onlyIf c f) := by
  cases c with
  | false => exact .skip
  | true => exact h

/-- Effects match if what is given out first matches and then what is given out next. -/
class Parallel (E : List ε → List ε → Prop) : Prop where
  nothing : E [] []
  inTurn : ∀ {before before' after after'}, E before before' → E after after' →
    E (before ++ after) (before' ++ after')

def Matches (S : σ → σ → Prop) (E : List ε → List ε → Prop) (f : Step σ ε) : Prop :=
  ∀ s t, S s t → S (f s).1 (f t).1 ∧ E (f s).2 (f t).2

section Matches

variable {S : σ → σ → Prop} {E : List ε → List ε → Prop} [Parallel E]

theorem Matches.skip : Matches S E (skip : Step σ ε) := by
  intro s t h
  exact ⟨h, Parallel.nothing⟩

theorem Matches.andThen {f g : Step σ ε} (hf : Matches S E f) (hg : Matches S E g) :
    Matches S E (f.andThen g) := by
  intro s t h
  obtain ⟨hstate, hbefore⟩ := hf s t h
  obtain ⟨hend, hafter⟩ := hg (f s).1 (f t).1 hstate
  exact ⟨hend, Parallel.inTurn hbefore hafter⟩

theorem Matches.nil : Matches S E (inOrder ([] : List (Step σ ε))) := Matches.skip

theorem Matches.cons {f : Step σ ε} {fs : List (Step σ ε)} (hf : Matches S E f)
    (hfs : Matches S E (inOrder fs)) : Matches S E (inOrder (f :: fs)) :=
  hf.andThen hfs

theorem Matches.forSome {α : Type} {f : α → Step σ ε} (h : ∀ a, Matches S E (f a))
    (a : Option α) : Matches S E (forSome a f) := by
  cases a with
  | none => exact .skip
  | some a => exact h a

theorem Matches.onlyIf {f : Step σ ε} (h : Matches S E f) (c : Bool) :
    Matches S E (onlyIf c f) := by
  cases c with
  | false => exact .skip
  | true => exact h

end Matches

end MediaRemote.Step

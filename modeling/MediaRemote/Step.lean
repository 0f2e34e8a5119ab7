namespace MediaRemote

/-- The next state, and effects in order. -/
abbrev Step (σ ε : Type) := σ → σ × List ε

namespace Step

variable {σ ε : Type}

def skip : Step σ ε := fun s => (s, [])

def andThen (f g : Step σ ε) : Step σ ε := fun s =>
  let (s, before) := f s
  let (s, after) := g s
  (s, before ++ after)

def inOrder : List (Step σ ε) → Step σ ε
  | [] => skip
  | f :: rest => f.andThen (inOrder rest)

def forSome {α : Type} (a : Option α) (f : α → Step σ ε) : Step σ ε :=
  match a with
  | some a => f a
  | none => skip

def onlyIf (c : Bool) (f : Step σ ε) : Step σ ε := if c then f else skip

def modify (f : σ → σ) : Step σ ε := fun s => (f s, [])

def give (e : ε) : Step σ ε := fun s => (s, [e])

end Step
end MediaRemote

import ArtifactResolver.Failure
import ArtifactResolver.Panic

/-!
# Outcomes

The outcome of a lookup is written once. Until then it is open, which says that the one who was
asked has nothing to say; a second write is refused and changes nothing. Refusal comes in two
forms: as an error that the writer can look at, and as a panic for writers that rely on being the
first.
-/

namespace ArtifactResolver

/-- An answer to a lookup. -/
inductive Resolution (α : Type) where
  /-- The lookup found this value. -/
  | resolved (value : α)
  /-- The lookup failed. -/
  | failed (failure : Failure)
  /-- There is no such thing. -/
  | missing

namespace Resolution

variable {α β : Type}

/-- The name of the state that an answer leaves an outcome in. -/
def stateName : Resolution α → String
  | resolved _ => "resolved"
  | failed _ => "failed"
  | missing => "missing"

/-- The answer with its value replaced. -/
def map (f : α → β) : Resolution α → Resolution β
  | resolved value => resolved (f value)
  | failed failure => failed failure
  | missing => missing

end Resolution

/-- The refusal of a second write. -/
structure AlreadySet where
  /-- The name of the state that the first write left. -/
  state : String
deriving DecidableEq, Repr

/-- The wording of a refusal. -/
def AlreadySet.message (e : AlreadySet) : String :=
  s!"Resolve result has already been set to {e.state}"

/-- The outcome of a lookup. -/
structure Outcome (α : Type) where
  /-- The answer, none as long as the outcome is open. -/
  resolution : Option (Resolution α) := none

namespace Outcome

variable {α β : Type}

/-- The outcome that nothing was written to. -/
def unset : Outcome α := ⟨none⟩

/-- The outcome with a value. -/
def resolved (value : α) : Outcome α := ⟨some (.resolved value)⟩

/-- The outcome with a failure. -/
def failed (failure : Failure) : Outcome α := ⟨some (.failed failure)⟩

/-- The outcome of a lookup of what does not exist. -/
def missing : Outcome α := ⟨some .missing⟩

/-- Writes an answer to an open outcome. -/
def trySet (o : Outcome α) (r : Resolution α) : Except AlreadySet (Outcome α) :=
  match o.resolution with
  | some first => .error ⟨first.stateName⟩
  | none => .ok ⟨some r⟩

/-- Writes an answer, or panics if there is one already. -/
def set (o : Outcome α) (r : Resolution α) : Except Panic (Outcome α) :=
  (o.trySet r).mapError fun refusal => ⟨refusal.message⟩

/-- The outcome with its value replaced. -/
def map (f : α → β) (o : Outcome α) : Outcome β := ⟨o.resolution.map (Resolution.map f)⟩

/-- Whether an answer was written. -/
def isSet (o : Outcome α) : Bool := o.resolution.isSome

/-- Whether the answer is a value. -/
def isResolved : Outcome α → Bool
  | ⟨some (.resolved _)⟩ => true
  | _ => false

/-- Whether the answer is a failure. -/
def isFailed : Outcome α → Bool
  | ⟨some (.failed _)⟩ => true
  | _ => false

/-- Whether the answer is that there is no such thing. -/
def isMissing : Outcome α → Bool
  | ⟨some .missing⟩ => true
  | _ => false

/-- The value, if the answer is one. -/
def value? : Outcome α → Option α
  | ⟨some (.resolved value)⟩ => some value
  | _ => none

/-- The failure, if the answer is one. -/
def failure? : Outcome α → Option Failure
  | ⟨some (.failed failure)⟩ => some failure
  | _ => none

/-- The first write succeeds. -/
@[simp] theorem set_unset (r : Resolution α) : (unset : Outcome α).set r = .ok ⟨some r⟩ := rfl

end Outcome
end ArtifactResolver

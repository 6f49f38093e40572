import Mathlib.Logic.Basic

/-!
# Computations with a trace of their memory accesses

A `Traced` computation records every access it makes to memory, and has no value when one of them
went wrong: what a C program does after an access outside an array is not defined. `Yields` is the
condition that all accesses are allowed and the computation ends with a value that meets a
postcondition; its rules compute the weakest precondition of a program from its parts.
-/

namespace FoosballTable.Library

universe u v

variable {ε : Type u} {α β : Type v}

/-- The accesses made, in order, and the value unless one of them went wrong. -/
structure Traced (ε : Type u) (α : Type v) where
  trace : List ε
  value : Option α

namespace Traced

/-- Sequencing: the accesses of both parts, as far as the first one has a value. -/
def andThen (first : Traced ε α) (next : α → Traced ε β) : Traced ε β :=
  match first.value with
  | some a => ⟨first.trace ++ (next a).trace, (next a).value⟩
  | none => ⟨first.trace, none⟩

instance : Monad (Traced ε) where
  pure a := ⟨[], some a⟩
  bind := andThen

/-- An access to a cell that is there, with what it finds. -/
def access (event : ε) (a : α) : Traced ε α :=
  ⟨[event], some a⟩

/-- An access to a cell that is not there. -/
def fault (event : ε) : Traced ε α :=
  ⟨[event], none⟩

/-- Every access is allowed, and the computation ends with a value that meets `post`. -/
def Yields (allowed : ε → Prop) (post : α → Prop) (computation : Traced ε α) : Prop :=
  (∀ event ∈ computation.trace, allowed event) ∧ ∃ a, computation.value = some a ∧ post a

/-- `Yields` is decidable by evaluation. -/
instance (allowed : ε → Prop) [DecidablePred allowed] (post : α → Prop) [DecidablePred post] :
    DecidablePred (Yields allowed post : Traced ε α → Prop)
  | ⟨trace, some a⟩ =>
      decidable_of_iff ((∀ event ∈ trace, allowed event) ∧ post a)
        (and_congr_right fun _ => by simp)
  | ⟨_, none⟩ => .isFalse fun ⟨_, _, ha, _⟩ => by cases ha

@[simp] theorem value_pure (a : α) : (pure a : Traced ε α).value = some a := rfl

@[simp] theorem value_access (event : ε) (a : α) : (access event a).value = some a := rfl

@[simp] theorem value_fault (event : ε) : (fault event : Traced ε α).value = none := rfl

/-- The value of two parts. -/
@[simp] theorem value_bind (first : Traced ε α) (next : α → Traced ε β) :
    (first >>= next).value = first.value.bind fun a => (next a).value := by
  obtain ⟨trace, value⟩ := first
  show (andThen ⟨trace, value⟩ next).value = _
  cases value <;> rfl

variable {allowed : ε → Prop} {post : α → Prop}

@[simp] theorem yields_pure (a : α) : Yields allowed post (pure a : Traced ε α) ↔ post a := by
  constructor
  · intro h
    obtain ⟨-, b, hb, hpost⟩ := h
    cases hb
    exact hpost
  · exact fun h => ⟨fun _ hevent => (by cases hevent), a, rfl, h⟩

@[simp] theorem yields_access (event : ε) (a : α) :
    Yields allowed post (access event a) ↔ allowed event ∧ post a := by
  simp [Yields, access]

@[simp] theorem yields_fault (event : ε) : ¬ Yields allowed post (fault event : Traced ε α) := by
  intro h
  obtain ⟨-, a, ha, -⟩ := h
  cases ha

/-- The weakest precondition of two parts. -/
@[simp] theorem yields_bind {post : β → Prop} (first : Traced ε α) (next : α → Traced ε β) :
    Yields allowed post (first >>= next) ↔
      Yields allowed (fun a => Yields allowed post (next a)) first := by
  obtain ⟨trace, value⟩ := first
  show Yields allowed post (andThen ⟨trace, value⟩ next) ↔ _
  cases value with
  | none => simp [Yields, andThen]
  | some a => simp [Yields, andThen, or_imp, forall_and, and_assoc]

end Traced

end FoosballTable.Library

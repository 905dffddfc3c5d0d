import MessageScript.Error

/-!
# Edits

What an operation on a thing answers, and the thing it leaves behind.  An operation that is refused
leaves something behind as well, so that it can be said what.
-/

namespace MessageScript

/-- The answer of an operation, and what it is performed on as it is afterwards. -/
structure Edit (σ α : Type) where
  answer : Except Error α
  after : σ

namespace Edit

variable {σ τ α β : Type}

/-- The operation is done. -/
def done (answer : α) (after : σ) : Edit σ α := ⟨.ok answer, after⟩

/-- The operation is refused. -/
def refused (e : Error) (after : σ) : Edit σ α := ⟨.error e, after⟩

/-- The same operation, seen on something that contains what it is performed on. -/
def inside (edit : Edit σ α) (place : σ → τ) : Edit τ α := ⟨edit.answer, place edit.after⟩

/-- Whether the operation is done. -/
def isDone (edit : Edit σ α) : Bool :=
  match edit.answer with
  | .ok _ => true
  | .error _ => false

/-! ## Lemmas -/

@[simp] theorem answer_done (a : α) (s : σ) : (done a s).answer = .ok a := rfl

@[simp] theorem after_done (a : α) (s : σ) : (done a s).after = s := rfl

@[simp] theorem answer_refused (e : Error) (s : σ) : (refused e s : Edit σ α).answer = .error e := rfl

@[simp] theorem after_refused (e : Error) (s : σ) : (refused e s : Edit σ α).after = s := rfl

@[simp] theorem answer_inside (edit : Edit σ α) (place : σ → τ) :
    (edit.inside place).answer = edit.answer := rfl

@[simp] theorem after_inside (edit : Edit σ α) (place : σ → τ) :
    (edit.inside place).after = place edit.after := rfl

end Edit

end MessageScript

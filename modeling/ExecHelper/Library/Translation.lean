import ExecHelper.Library.Program

/-!
# Programs with other operations

A program keeps its shape when each of its operations is replaced by another one whose
answer can be read as an answer to the first.  Interpreting the changed program is then
interpreting the original one with a handler that replaces and reads.

Computations can be related without being the same.  Where one goes on the image of a
state as the other one goes on the state, they differ in what the image forgets.  Two
computations that do the same until something is lost are related by a simulation as
well, so a difference between two systems that a run does not come across has no effect
on it.
-/

namespace ExecHelper.Library

/-- Operations that stand for others, with how their answers are read. -/
structure Translation (interface : Interface) where
  op : interface.Op → interface.Op
  answer : (own : interface.Op) → interface.Answer (op own) → interface.Answer own

namespace Program

variable {ε : Type} {interface : Interface} {α β : Type}

/-- Perform the operations that stand for those of the program. -/
def translate (translation : Translation interface) : Program ε interface α → Program ε interface α
  | .pure value => .pure value
  | .stop reason => .stop reason
  | .call op next => .call (translation.op op) fun answer =>
      (next (translation.answer op answer)).translate translation

variable {translation : Translation interface}

@[simp] theorem translate_pure (value : α) :
    (Pure.pure value : Program ε interface α).translate translation = Pure.pure value := rfl

@[simp] theorem translate_stop (reason : ε) :
    (stop reason : Program ε interface α).translate translation = stop reason := rfl

@[simp] theorem translate_bind (program : Program ε interface α)
    (continuation : α → Program ε interface β) :
    (program >>= continuation).translate translation =
      program.translate translation >>= fun value =>
        (continuation value).translate translation := by
  induction program with
  | pure value => rfl
  | stop reason => rfl
  | call op next inductionHypothesis =>
      exact congrArg (Program.call (translation.op op)) (funext fun answer => inductionHypothesis _)

theorem translate_mapM (body : α → Program ε interface β) (inputs : List α) :
    (inputs.mapM body).translate translation =
      inputs.mapM fun input => (body input).translate translation := by
  induction inputs with
  | nil => rfl
  | cons input rest inductionHypothesis =>
      simp only [List.mapM_cons, translate_bind, inductionHypothesis, translate_pure]

theorem interpret_translate {σ : Type}
    (handler : (op : interface.Op) → EStateM ε σ (interface.Answer op))
    (program : Program ε interface α) :
    (program.translate translation).interpret handler =
      program.interpret fun op => translation.answer op <$> handler (translation.op op) := by
  induction program with
  | pure value => rfl
  | stop reason => rfl
  | call op next inductionHypothesis =>
      rw [translate, interpret, interpret, bind_map_left]
      congr 1
      funext answer
      exact inductionHypothesis _

end Program

/-! ## Computations that do the same -/

section Same

variable {ε σ α : Type}

/-- The computations are equal. -/
def identical : Simulation ε σ σ where
  Related left right := left = right
  pure _ := rfl
  bind := by
    rintro α β left _ leftNext rightNext rfl next
    rw [funext next]

/-- The state is not lost where the first computation ends, nor where it starts, and the
second one does the same. -/
def SameAsKept (lost : σ → Prop) (left right : EStateM ε σ α) (start : σ) : Prop :=
  match left start with
  | .ok value final => ¬lost final → ¬lost start ∧ right start = .ok value final
  | .error reason final => ¬lost final → ¬lost start ∧ right start = .error reason final

/-- As long as nothing is lost, the same happens. -/
def sameUnless (lost : σ → Prop) : Simulation ε σ σ where
  Related left right := ∀ start, SameAsKept lost left right start
  pure _ _ := fun kept => ⟨kept, rfl⟩
  bind := by
    intro α β left right leftNext rightNext first second start
    have firstSame := first start
    rw [SameAsKept] at firstSame ⊢
    cases ran : left start with
    | error reason middle =>
        rw [ran] at firstSame
        rw [bind_of_eq_error ran]
        intro kept
        obtain ⟨before, same⟩ := firstSame kept
        exact ⟨before, bind_of_eq_error same⟩
    | ok value middle =>
        rw [ran] at firstSame
        rw [bind_of_eq_ok ran]
        have secondSame := second value middle
        rw [SameAsKept] at secondSame
        cases continued : leftNext value middle with
        | ok result final =>
            rw [continued] at secondSame
            intro kept
            obtain ⟨between, same⟩ := secondSame kept
            obtain ⟨before, sameFirst⟩ := firstSame between
            exact ⟨before, (bind_of_eq_ok sameFirst).trans same⟩
        | error reason final =>
            rw [continued] at secondSame
            intro kept
            obtain ⟨between, same⟩ := secondSame kept
            obtain ⟨before, sameFirst⟩ := firstSame between
            exact ⟨before, (bind_of_eq_ok sameFirst).trans same⟩

end Same

/-! ## Computations on images of states -/

section Along

variable {ε σ τ α : Type}

/-- The outcome with the image of its state. -/
def mapState (image : σ → τ) : EStateM.Result ε σ α → EStateM.Result ε τ α
  | .ok value final => .ok value (image final)
  | .error reason final => .error reason (image final)

/-- The second computation goes on the image of a state as the first one on the state. -/
def along (image : σ → τ) : Simulation ε σ τ where
  Related left right := ∀ start, right (image start) = mapState image (left start)
  pure _ _ := rfl
  bind := by
    intro α β left right leftNext rightNext first second start
    cases ran : left start with
    | ok value middle =>
        have imageRan : right (image start) = .ok value (image middle) := by
          rw [first, ran, mapState]
        rw [bind_of_eq_ok ran, bind_of_eq_ok imageRan]
        exact second value middle
    | error reason middle =>
        have imageRan : right (image start) = .error reason (image middle) := by
          rw [first, ran, mapState]
        rw [bind_of_eq_error ran, bind_of_eq_error imageRan, mapState]

end Along

end ExecHelper.Library

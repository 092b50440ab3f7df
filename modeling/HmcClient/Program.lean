/-!
# Programs with effects

An operation of the client is a `Program`: a tree that at each node asks for one effect and goes on
with its answer. The tree says what is asked for and in which order, and nothing about who answers.
The same operation can therefore be run against scripted answers, alone against a console, or step
by step among others, and what is true of its tree is true of all these runs.

A `Signature` lists the effects and, for each, the type of its answer. Every branch of a program is
finite, so a run needs no fuel.
-/

namespace HmcClient

/-- Effects and the types of their answers. -/
structure Signature where
  Effect : Type
  Answer : Effect → Type

/-- A computation that asks for effects one after the other. -/
inductive Program (S : Signature) (α : Type) where
  | done (value : α)
  | perform (effect : S.Effect) (next : S.Answer effect → Program S α)

namespace Program

variable {S T : Signature} {α β σ : Type}

/-- The program that asks for one effect and gives its answer. -/
def ask (effect : S.Effect) : Program S (S.Answer effect) := .perform effect .done

/-- The first program followed by the second, which may depend on its value. -/
def bind : Program S α → (α → Program S β) → Program S β
  | .done a, f => f a
  | .perform effect next, f => .perform effect fun answer => bind (next answer) f

instance : Monad (Program S) where
  pure := .done
  bind := bind

/-- The value of a program and the state it ends in, if `handle` answers every effect. -/
def run (handle : (effect : S.Effect) → σ → S.Answer effect × σ) : Program S α → σ → α × σ
  | .done a, s => (a, s)
  | .perform effect next, s =>
    let (answer, s) := handle effect s
    run handle (next answer) s

/-- The program in which every effect is replaced by a program that gives its answer. -/
def interpret (meaning : (effect : S.Effect) → Program T (S.Answer effect)) :
    Program S α → Program T α
  | .done a => .done a
  | .perform effect next => bind (meaning effect) fun answer => interpret meaning (next answer)

/-! ## Laws

A program is put together in any grouping, and to run or interpret it is to run or interpret its
parts one after the other.
-/

@[simp]
theorem bind_done_right (p : Program S α) : bind p .done = p := by
  induction p with
  | done a => rfl
  | perform effect next ih => simp only [bind, ih]

theorem bind_assoc {γ : Type} (p : Program S α) (f : α → Program S β) (g : β → Program S γ) :
    bind (bind p f) g = bind p fun a => bind (f a) g := by
  induction p with
  | done a => rfl
  | perform effect next ih => simp only [bind, ih]

instance : LawfulMonad (Program S) :=
  LawfulMonad.mk' (Program S)
    (fun p => bind_done_right p)
    (fun _ _ => rfl)
    (fun p f g => bind_assoc p f g)

/-- To run a program that is followed by another is to run one after the other. -/
theorem run_bind (handle : (effect : S.Effect) → σ → S.Answer effect × σ) (p : Program S α)
    (f : α → Program S β) (s : σ) :
    run handle (bind p f) s = run handle (f (run handle p s).1) (run handle p s).2 := by
  induction p generalizing s with
  | done a => rfl
  | perform effect next ih => simp only [bind, run, ih]

/-- To interpret a program that is followed by another is to interpret both. -/
theorem interpret_bind (meaning : (effect : S.Effect) → Program T (S.Answer effect))
    (p : Program S α) (f : α → Program S β) :
    interpret meaning (bind p f) = bind (interpret meaning p) fun a => interpret meaning (f a) := by
  induction p with
  | done a => rfl
  | perform effect next ih => simp only [bind, interpret, ih, bind_assoc]

end Program

end HmcClient

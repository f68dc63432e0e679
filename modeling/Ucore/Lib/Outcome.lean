import Mathlib.Logic.Basic

-- Computations over a state that end in a value, in an error code or in a
-- failed assert. An error keeps the state reached so far; a fault keeps none.
namespace Outcomes

inductive Outcome (ε φ σ α : Type) where
  | ok (a : α) (s : σ)
  | err (e : ε) (s : σ)
  | fault (f : φ)

def Action (ε φ σ α : Type) := σ → Outcome ε φ σ α

section Actions
variable {ε φ σ α β : Type}

def Outcome.next : Outcome ε φ σ α → (α → Action ε φ σ β) → Outcome ε φ σ β
  | .ok a s,f => f a s
  | .err e s,_ => .err e s
  | .fault f,_ => .fault f

instance : Monad (Action ε φ σ) where
  pure a := fun s => .ok a s
  bind m f := fun s => (m s).next f

def fail (e : ε) : Action ε φ σ α := fun s => .err e s
def stop (f : φ) : Action ε φ σ α := fun _ => .fault f
def check (c : Bool) (f : φ) : Action ε φ σ Unit := fun s => if c then .ok () s else .fault f
def state : Action ε φ σ σ := fun s => .ok s s
def modify (f : σ → σ) : Action ε φ σ Unit := fun s => .ok () (f s)

def when (c : Bool) (m : Action ε φ σ Unit) : Action ε φ σ Unit := if c then m else fun s => .ok () s

def attempt (m : Action ε φ σ α) : Action ε φ σ (Except ε α) := fun s =>
  match m s with
  | .ok a t => .ok (.ok a) t
  | .err e t => .ok (.error e) t
  | .fault f => .fault f

@[simp] lemma next_ok {a : α} {s : σ} {f : α → Action ε φ σ β} : (Outcome.ok a s).next f = f a s := rfl
@[simp] lemma next_err {e : ε} {s : σ} {f : α → Action ε φ σ β} : (Outcome.err e s).next f = .err e s := rfl
@[simp] lemma next_fault {x : φ} {f : α → Action ε φ σ β} : (Outcome.fault x : Outcome ε φ σ α).next f = .fault x := rfl
@[simp] lemma pure_run {a : α} {s : σ} : (pure a : Action ε φ σ α) s = .ok a s := rfl
@[simp] lemma bind_run {m : Action ε φ σ α} {f : α → Action ε φ σ β} {s : σ} : (m >>= f) s = (m s).next f := rfl
@[simp] lemma map_run {m : Action ε φ σ α} {f : α → β} {s : σ} : (f <$> m) s = (m s).next (fun a => pure (f a)) := rfl
@[simp] lemma fail_run {e : ε} {s : σ} : (fail e : Action ε φ σ α) s = .err e s := rfl
@[simp] lemma stop_run {x : φ} {s : σ} : (stop x : Action ε φ σ α) s = .fault x := rfl
@[simp] lemma state_run {s : σ} : (state : Action ε φ σ σ) s = .ok s s := rfl
@[simp] lemma modify_run {f : σ → σ} {s : σ} : (modify f : Action ε φ σ Unit) s = .ok () (f s) := rfl
@[simp] lemma check_run {c : Bool} {x : φ} {s : σ} : (check c x : Action ε φ σ Unit) s = if c then .ok () s else .fault x := rfl
@[simp] lemma when_true {m : Action ε φ σ Unit} {s : σ} : when true m s = m s := rfl
@[simp] lemma when_false {m : Action ε φ σ Unit} {s : σ} : when false m s = .ok () s := rfl
@[simp] lemma ite_run {c : Prop} [Decidable c] {m n : Action ε φ σ α} {s : σ} : (if c then m else n) s = if c then m s else n s := by split <;> rfl

-- The rules by which a run is computed, as one simp set.
lemma rules : type_of% @bind_run ∧ type_of% @next_ok ∧ type_of% @next_err ∧ type_of% @next_fault ∧ type_of% @pure_run ∧ type_of% @state_run ∧
    type_of% @modify_run ∧ type_of% @check_run ∧ type_of% @fail_run ∧ type_of% @stop_run ∧ type_of% @if_true.{1} ∧ type_of% @if_false.{1} ∧
    type_of% @decide_true ∧ type_of% Bool.false_eq_true ∧ type_of% not_true_eq_false ∧ type_of% not_false_eq_true :=
  ⟨@bind_run,@next_ok,@next_err,@next_fault,@pure_run,@state_run,@modify_run,@check_run,@fail_run,@stop_run,@if_true.{1},@if_false.{1},
    @decide_true,Bool.false_eq_true,not_true_eq_false,not_false_eq_true⟩

lemma next_inv {o : Outcome ε φ σ α} {f : α → Action ε φ σ β} {b : β} {t : σ} (ran : o.next f = .ok b t) : ∃ a u,o = .ok a u ∧ f a u = .ok b t := by
  cases o with
  | ok a u => exact ⟨a,u,rfl,ran⟩
  | err e u => cases ran
  | fault x => cases ran

lemma attempt_ok {m : Action ε φ σ α} {s t : σ} {a : α} (ran : m s = .ok a t) : attempt m s = .ok (.ok a) t := by simp only [attempt,ran]

lemma attempt_err {m : Action ε φ σ α} {s t : σ} {e : ε} (ran : m s = .err e t) : attempt m s = .ok (.error e) t := by simp only [attempt,ran]

lemma attempt_fault {m : Action ε φ σ α} {s : σ} {x : φ} (ran : m s = .fault x) : attempt m s = .fault x := by simp only [attempt,ran]

-- What an outcome promises: ok for a value, err for an error code, and which
-- asserts may have failed.
def Outcome.Meets (o : Outcome ε φ σ α) (ok : α → σ → Prop) (err : ε → σ → Prop) (fault : φ → Prop) : Prop :=
  match o with
  | .ok a s => ok a s
  | .err e s => err e s
  | .fault f => fault f

section Meets
variable {ok ok' : α → σ → Prop} {err err' : ε → σ → Prop} {fault fault' : φ → Prop}

lemma Outcome.Meets.mono {o : Outcome ε φ σ α} (met : o.Meets ok err fault) (good : ∀ a s,ok a s → ok' a s) (bad : ∀ e s,err e s → err' e s)
    (broken : ∀ x,fault x → fault' x) : o.Meets ok' err' fault' := by
  cases o with
  | ok a s => exact good a s met
  | err e s => exact bad e s met
  | fault x => exact broken x met

lemma Outcome.Meets.ite {c : Prop} [Decidable c] {o p : Outcome ε φ σ α} (yes : c → o.Meets ok err fault) (no : ¬ c → p.Meets ok err fault) :
    (if c then o else p).Meets ok err fault := by
  split
  next holds => exact yes holds
  next fails => exact no fails

lemma Outcome.Meets.next {o : Outcome ε φ σ α} {f : α → Action ε φ σ β} {after : β → σ → Prop} (met : o.Meets ok err' fault')
    (good : ∀ a s,ok a s → (f a s).Meets after err fault) (bad : ∀ e s,err' e s → err e s) (broken : ∀ x,fault' x → fault x) :
    (o.next f).Meets after err fault := by
  cases o with
  | ok a s => exact good a s met
  | err e s => exact bad e s met
  | fault x => exact broken x met

lemma Outcome.Meets.attempt {m : Action ε φ σ α} {s : σ} (met : (m s).Meets ok err fault) :
    (attempt m s).Meets (fun r t => match r with | .ok a => ok a t | .error e => err e t) (fun _ _ => False) fault := by
  cases ran : m s with
  | ok a t => rw [ran] at met; rw [attempt_ok ran]; exact met
  | err e t => rw [ran] at met; rw [attempt_err ran]; exact met
  | fault x => rw [ran] at met; rw [attempt_fault ran]; exact met

end Meets
end Actions
end Outcomes

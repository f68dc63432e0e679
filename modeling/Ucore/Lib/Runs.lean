import Mathlib.Tactic

-- Finite runs of a labelled step relation and the invariant rule for them.
namespace Runs

inductive Path (move : σ → α → σ → Prop) : σ → List α → σ → Prop where
  | nil : Path move s [] s
  | step : Path move s labels t → move t a u → Path move s (labels ++ [a]) u

def Reached (init : σ → Prop) (move : σ → α → σ → Prop) (t : σ) : Prop :=
  ∃ s labels,init s ∧ Path move s labels t

lemma Path.invariant {good : σ → Prop} (keeps : ∀ t a u,good t → move t a u → good u) (path : Path move s labels t) (first : good s) : good t := by
  induction path with
  | nil => exact first
  | step _ next ih => exact keeps _ _ _ ih next

lemma Reached.invariant {good : σ → Prop} (base : ∀ s,init s → good s)
    (keeps : ∀ t a u,good t → move t a u → good u) (reached : Reached init move t) : good t := by
  obtain ⟨s,_,one,path⟩ := reached
  exact path.invariant keeps (base s one)

lemma Reached.step (reached : Reached init move t) (next : move t a u) : Reached init move u := by
  obtain ⟨s,_,one,path⟩ := reached
  exact ⟨s,_,one,.step path next⟩

lemma Path.append (first : Path move s pre t) (two : Path move t after u) : Path move s (pre ++ after) u := by
  induction two with
  | nil => simpa using first
  | step _ next ih =>
    rw [← List.append_assoc]
    exact .step ih next

lemma Path.mono {wider : σ → α → σ → Prop} (path : Path move s labels t) (more : ∀ s a t,move s a t → wider s a t) : Path wider s labels t := by
  induction path with
  | nil => exact .nil
  | step _ next ih => exact .step ih (more _ _ _ next)

lemma Path.reached (path : Path move s labels t) (reached : Reached init move s) : Reached init move t := by
  induction path with
  | nil => exact reached
  | step _ next ih => exact ih.step next

lemma path_of_run (run : σ → List α → Option σ) (empty : ∀ s,run s [] = some s)
    (more : ∀ s a rest t,run s (a :: rest) = some t → ∃ u,move s a u ∧ run u rest = some t) (ran : run s labels = some t) :
    Path move s labels t := by
  induction labels generalizing s with
  | nil =>
    cases (empty s).symm.trans ran
    exact .nil
  | cons a rest ih =>
    obtain ⟨u,moved,later⟩ := more s a rest t ran
    have one : Path move s [a] u := .step .nil moved
    exact one.append (ih later)

-- Runs of a function that acts where it is enabled.
section Exec
variable (enabled : σ → α → Prop) [∀ s a,Decidable (enabled s a)] (act : σ → α → σ)

def exec (s : σ) : List α → Option σ
  | [] => some s
  | a :: rest => if enabled s a then exec (act s a) rest else none

variable {enabled act}

lemma exec_path (ran : exec enabled act s labels = some t) : Path (fun s a t => enabled s a ∧ t = act s a) s labels t := by
  refine path_of_run (exec enabled act) (fun _ => rfl) (fun s a rest t ran => ?_) ran
  unfold exec at ran
  split at ran
  · next ready => exact ⟨_,⟨ready,rfl⟩,ran⟩
  cases ran

-- The same for a step that may fail.
def runs (enabled : σ → α → Prop) [∀ s a,Decidable (enabled s a)] (step : σ → α → Option σ) (s : σ) : List α → Option σ
  | [] => some s
  | a :: rest => if enabled s a then (step s a).bind fun t => runs enabled step t rest else none

lemma runs_path {step : σ → α → Option σ} (ran : runs enabled step s labels = some t) : Path (fun s a t => enabled s a ∧ step s a = some t) s labels t := by
  refine path_of_run (runs enabled step) (fun _ => rfl) (fun s a rest t ran => ?_) ran
  unfold runs at ran
  split at ran
  · next ready =>
    obtain ⟨u,moved,later⟩ := Option.bind_eq_some_iff.mp ran
    exact ⟨u,⟨ready,moved⟩,later⟩
  cases ran

lemma runs_path_ok {step : σ → α → Except ε σ} (ran : runs enabled (fun s a => (step s a).toOption) s labels = some t) :
    Path (fun s a t => enabled s a ∧ step s a = .ok t) s labels t := by
  refine (runs_path ran).mono fun s a t moved => ⟨moved.1,?_⟩
  cases went : step s a with
  | ok u =>
    rw [went] at moved
    exact congrArg Except.ok (Option.some.inj moved.2)
  | error x =>
    rw [went] at moved
    cases moved.2

end Exec
end Runs

import Mathlib.Tactic

-- A line of sleepers who are called one at a time. role: who has joined and not left
-- again; told: who has been called; due: how many calls are still to be answered.
namespace Lines
open List

structure Law (line : List θ) (role told asleep : θ → Prop) (due : Nat) : Prop where
  once : line.Nodup
  member : ∀ t ∈ line,role t ∧ ¬ told t
  slept : ∀ t,role t → asleep t → t ∈ line
  roused : line ≠ [] → ∃ woken : List θ,woken.Nodup ∧ due ≤ woken.length ∧ ∀ t ∈ woken,role t ∧ told t

section
variable {line : List θ} {role told asleep role' told' asleep' : θ → Prop}

lemma Law.empty (due : Nat) (awake : ∀ t,role t → ¬ asleep t) : Law [] role told asleep due :=
  ⟨nodup_nil,by simp,fun t joined sleeps => absurd sleeps (awake t joined),fun some => absurd rfl some⟩

lemma Law.any (law : Law [] role told asleep due) (due' : Nat) : Law [] role told asleep due' :=
  ⟨law.once,law.member,law.slept,fun waiting => absurd rfl waiting⟩

section
variable (law : Law line role told asleep due)
include law

lemma Law.woken (waiting : line ≠ []) : ∃ woken : List θ,woken.Nodup ∧ due ≤ woken.length ∧ ∀ t ∈ woken,role t ∧ told t ∧ t ∉ line ∧ ¬ asleep t := by
  obtain ⟨woken,once,enough,called⟩ := law.roused waiting
  refine ⟨woken,once,enough,fun t inside => ?_⟩
  obtain ⟨joined,heard⟩ := called t inside
  have gone : t ∉ line := fun inLine => (law.member t inLine).2 heard
  exact ⟨joined,heard,gone,fun sleeps => gone (law.slept t joined sleeps)⟩

lemma Law.less (fewer : due' ≤ due) : Law line role told asleep due' := by
  refine ⟨law.once,law.member,law.slept,fun waiting => ?_⟩
  obtain ⟨woken,once,enough,called⟩ := law.roused waiting
  exact ⟨woken,once,fewer.trans enough,called⟩

lemma Law.frame (eq : ∀ t,role' t ↔ role t)
    (heard : ∀ t,role t → (told' t ↔ told t)) (woke : ∀ t,role t → asleep' t → asleep t) : Law line role' told' asleep' due := by
  refine ⟨law.once,fun t inLine => ?_,fun t joined sleeps => ?_,fun waiting => ?_⟩
  · obtain ⟨joined,unheard⟩ := law.member t inLine
    exact ⟨(eq t).mpr joined,fun calls => unheard ((heard t joined).mp calls)⟩
  · have pre := (eq t).mp joined
    exact law.slept t pre (woke t pre sleeps)
  obtain ⟨woken,once,enough,called⟩ := law.roused waiting
  refine ⟨woken,once,enough,fun t inside => ?_⟩
  obtain ⟨joined,calls⟩ := called t inside
  exact ⟨(eq t).mpr joined,(heard t joined).mpr calls⟩

lemma Law.recast (eq : ∀ t,role' t ↔ role t) : Law line role' told asleep due := law.frame eq (fun _ _ => .rfl) fun _ _ => id

end

lemma Law.call {first : θ} (law : Law (first :: line) role told asleep due) (called : told' first) (awake : ¬ asleep' first)
    (heard : ∀ t,role t → t ≠ first → (told' t ↔ told t)) (woke : ∀ t,role t → t ≠ first → asleep' t → asleep t) :
    Law line role told' asleep' (due + 1) := by
  have parts := nodup_cons.mp law.once
  have ne (t : θ) (inLine : t ∈ line) : t ≠ first := by
    rintro rfl
    exact parts.1 inLine
  refine ⟨parts.2,fun t inLine => ?_,fun t joined sleeps => ?_,fun _ => ?_⟩
  · obtain ⟨joined,unheard⟩ := law.member t (mem_cons_of_mem _ inLine)
    exact ⟨joined,fun calls => unheard ((heard t joined (ne t inLine)).mp calls)⟩
  · by_cases eq : t = first
    · subst eq
      exact absurd sleeps awake
    have pre := law.slept t joined (woke t joined eq sleeps)
    exact (mem_cons.mp pre).resolve_left eq
  obtain ⟨woken,once,enough,pre⟩ := law.roused (cons_ne_nil _ _)
  have joined := law.member first (mem_cons_self ..)
  have new : first ∉ woken := fun inside => joined.2 (pre first inside).2
  refine ⟨first :: woken,nodup_cons.mpr ⟨new,once⟩,by simpa using enough,fun t inside => ?_⟩
  rcases mem_cons.mp inside with rfl | earlier
  · exact ⟨joined.1,called⟩
  obtain ⟨had,calls⟩ := pre t earlier
  have eq : t ≠ first := by
    rintro rfl
    exact new earlier
  exact ⟨had,(heard t had eq).mpr calls⟩

lemma Law.join (law : Law line role told asleep due) (new : ¬ role t) (same : ∀ u,role' u ↔ role u ∨ u = t)
    (unheard : ¬ told' t) (heard : ∀ u,role u → (told' u ↔ told u)) (woke : ∀ u,role u → asleep' u → asleep u) :
    Law (line ++ [t]) role' told' asleep' 0 := by
  have gone : t ∉ line := fun inLine => new (law.member t inLine).1
  refine ⟨?_,fun u inLine => ?_,fun u joined sleeps => ?_,fun _ => ⟨[],nodup_nil,le_rfl,by simp⟩⟩
  · exact nodup_append.mpr ⟨law.once,nodup_singleton t,fun a left b right => by
      rintro rfl
      exact gone (mem_singleton.mp right ▸ left)⟩
  · rcases mem_append.mp inLine with earlier | last
    · obtain ⟨had,quiet⟩ := law.member u earlier
      exact ⟨(same u).mpr (.inl had),fun calls => quiet ((heard u had).mp calls)⟩
    have eq := mem_singleton.mp last
    subst eq
    exact ⟨(same u).mpr (.inr rfl),unheard⟩
  rcases (same u).mp joined with had | rfl
  · exact mem_append_left _ (law.slept u had (woke u had sleeps))
  exact mem_append_right _ (mem_singleton_self u)

variable [DecidableEq θ]

lemma Law.depart (law : Law line role told asleep due) (t : θ) (eq : ∀ u,role' u ↔ u ≠ t ∧ role u) :
    Law (line.erase t) role' told asleep (due - 1) := by
  refine ⟨law.once.erase t,fun u inLine => ?_,fun u joined sleeps => ?_,fun waiting => ?_⟩
  · obtain ⟨ne,pre⟩ := (List.Nodup.mem_erase_iff law.once).mp inLine
    obtain ⟨had,quiet⟩ := law.member u pre
    exact ⟨(eq u).mpr ⟨ne,had⟩,quiet⟩
  · obtain ⟨ne,had⟩ := (eq u).mp joined
    exact (List.Nodup.mem_erase_iff law.once).mpr ⟨ne,law.slept u had sleeps⟩
  obtain ⟨woken,once,_,called⟩ := law.roused (ne_nil_of_mem (mem_of_mem_erase (head_mem waiting)))
  refine ⟨woken.erase t,once.erase t,?_,fun u inside => ?_⟩
  · rw [length_erase]
    split <;> omega
  obtain ⟨ne,earlier⟩ := (List.Nodup.mem_erase_iff once).mp inside
  obtain ⟨had,calls⟩ := called u earlier
  exact ⟨(eq u).mpr ⟨ne,had⟩,calls⟩

lemma Law.quit (law : Law line role told asleep due) (quiet : ¬ told t) (eq : ∀ u,role' u ↔ u ≠ t ∧ role u) :
    Law (line.erase t) role' told asleep due := by
  refine {law.depart t eq with roused:=fun waiting => ?_}
  obtain ⟨woken,once,enough,called⟩ := law.roused (ne_nil_of_mem (mem_of_mem_erase (head_mem waiting)))
  refine ⟨woken,once,enough,fun u inside => ?_⟩
  obtain ⟨had,calls⟩ := called u inside
  have ne : u ≠ t := by
    rintro rfl
    exact quiet calls
  exact ⟨(eq u).mpr ⟨ne,had⟩,calls⟩

end

end Lines

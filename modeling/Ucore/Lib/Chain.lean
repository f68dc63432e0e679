import Mathlib.Tactic

-- Doubly linked lists and rings, as functions from a node to its neighbours.
namespace Links
open Function
open List (mem_cons mem_cons_of_mem mem_cons_self nodup_cons)
variable {α : Type}

-- From head on, next spells list and prev leads back; the first node's prev is before.
def Chain (next prev : α → Option α) : Option α → Option α → List α → Prop
  | _,head,[] => head = none
  | before,head,x :: list => head = some x ∧ prev x = before ∧ Chain next prev (some x) (next x) list

section Chain
variable {next prev next' prev' : α → Option α} {before head : Option α} {list : List α} {x y : α}

namespace Chain

section
variable (chain : Chain next prev before head list)
include chain

lemma head_mem (one : head = some x) : x ∈ list := by
  cases list with
  | nil => cases one.symm.trans chain
  | cons y _ =>
    cases one.symm.trans chain.1
    exact mem_cons_self

lemma frame (eq : ∀ x ∈ list,next' x = next x ∧ prev' x = prev x) :
    Chain next' prev' before head list := by
  induction list generalizing before head with
  | nil => exact chain
  | cons x _ ih =>
    obtain ⟨one,back,rest⟩ := chain
    obtain ⟨forth,back'⟩ := eq x mem_cons_self
    refine ⟨one,back'.trans back,?_⟩
    rw [forth]
    exact ih rest fun y mem => eq y (mem_cons_of_mem x mem)

lemma next_mem (mem : x ∈ list) (leads : next x = some y) : y ∈ list := by
  induction list generalizing before head with
  | nil => cases mem
  | cons z list ih =>
    obtain ⟨_,_,rest⟩ := chain
    rcases mem_cons.mp mem with rfl | later
    · cases list with
      | nil => rw [show next x = none from rest] at leads; cases leads
      | cons w _ =>
        rw [rest.1] at leads
        cases leads
        simp
    exact mem_cons_of_mem z (ih rest later)

lemma prev_mem (mem : x ∈ list) (leads : prev x = some y) : y ∈ list ∨ before = some y := by
  induction list generalizing before head with
  | nil => cases mem
  | cons z _ ih =>
    obtain ⟨_,back,rest⟩ := chain
    rcases mem_cons.mp mem with rfl | later
    · exact .inr (back ▸ leads)
    rcases ih rest later with low | first
    · exact .inl (mem_cons_of_mem z low)
    cases first
    simp

lemma inverse (once : list.Nodup) (out : ∀ z ∈ list,before ≠ some z)
    (mem : x ∈ list) (also : y ∈ list) : next x = some y ↔ prev y = some x := by
  induction list generalizing before head with
  | nil => cases mem
  | cons z list ih =>
    obtain ⟨_,back,rest⟩ := chain
    obtain ⟨new,others⟩ := nodup_cons.mp once
    have ne : ∀ w ∈ list,some z ≠ some w := fun w low eq => new (Option.some.inj eq ▸ low)
    rcases mem_cons.mp mem with rfl | later <;> rcases mem_cons.mp also with rfl | later'
    · refine ⟨fun leads => ?_,fun leads => ?_⟩
      · cases list with
        | nil => rw [show next y = none from rest] at leads; cases leads
        | cons w list =>
          rw [rest.1] at leads
          cases leads
          simp at new
      exact absurd (back.symm.trans leads) (out y mem_cons_self)
    · refine ⟨fun leads => ?_,fun leads => ?_⟩
      · cases list with
        | nil => cases later'
        | cons w list =>
          rw [rest.1] at leads
          cases leads
          exact rest.2.1
      cases list with
      | nil => cases later'
      | cons w _ =>
        rcases mem_cons.mp later' with rfl | deeper
        · exact rest.1
        have deep := rest.2.2
        rcases deep.prev_mem deeper leads with low | first
        · exact absurd (mem_cons_of_mem w low) new
        cases first
        simp at new
    · refine ⟨fun leads => ?_,fun leads => ?_⟩
      · exact absurd (rest.next_mem later leads) new
      exact absurd (back.symm.trans leads) (out x (mem_cons_of_mem y later))
    exact ih rest others ne later later'

end

lemma rebase (chain : Chain next prev before head (x :: list)) (eq : ∀ y ∈ x :: list,next' y = next y)
    (backs : ∀ y ∈ list,prev' y = prev y) : Chain next' prev' (prev' x) head (x :: list) := by
  obtain ⟨one,_,rest⟩ := chain
  refine ⟨one,rfl,?_⟩
  rw [eq x mem_cons_self]
  exact rest.frame fun y mem => ⟨eq y (mem_cons_of_mem x mem),backs y mem⟩

lemma prev_some (chain : Chain next prev (some y) head list) (mem : x ∈ list) : ∃ w ∈ y :: list,prev x = some w := by
  induction list generalizing y head with
  | nil => cases mem
  | cons z _ ih =>
    obtain ⟨_,back,rest⟩ := chain
    rcases mem_cons.mp mem with rfl | later
    · exact ⟨y,mem_cons_self,back⟩
    obtain ⟨w,low,leads⟩ := ih rest later
    exact ⟨w,mem_cons_of_mem y low,leads⟩

lemma first_iff (chain : Chain next prev none head list) (once : list.Nodup) (mem : x ∈ list) : prev x = none ↔ head = some x := by
  cases list with
  | nil => cases mem
  | cons z _ =>
    obtain ⟨start,back,rest⟩ := chain
    rcases mem_cons.mp mem with rfl | later
    · exact iff_of_true back start
    obtain ⟨w,_,leads⟩ := rest.prev_some later
    refine iff_of_false (by simp [leads]) ?_
    rw [start]
    intro eq
    exact (nodup_cons.mp once).1 (Option.some.inj eq ▸ later)

lemma push (chain : Chain next prev before head list) (ahead : next' x = head) (one : prev' x = none)
    (forth : ∀ y ∈ list,next' y = next y) (back : ∀ y,head = some y → prev' y = some x) (backs : ∀ y ∈ list,head ≠ some y → prev' y = prev y)
    (once : list.Nodup) : Chain next' prev' none (some x) (x :: list) := by
  refine ⟨rfl,one,?_⟩
  rw [ahead]
  cases list with
  | nil => exact chain
  | cons y _ =>
    have start := chain.1
    have new := (nodup_cons.mp once).1
    rw [← back y start]
    refine chain.rebase forth fun z mem => backs z (mem_cons_of_mem y mem) fun eq => ?_
    rw [start] at eq
    exact new (Option.some.inj eq ▸ mem)

lemma remove [DecidableEq α] (chain : Chain next prev before head list) (once : list.Nodup) (out : ∀ z ∈ list,before ≠ some z) (mem : x ∈ list)
    (forth : ∀ y,next' y = if prev x = some y then next x else next y) (back : ∀ y,prev' y = if next x = some y then prev x else prev y) :
    Chain next' prev' before (if head = some x then next x else head) (list.erase x) := by
  induction list generalizing before head with
  | nil => cases mem
  | cons z list ih =>
    have inverse := fun {a b} => chain.inverse (x := a) (y := b) once out
    obtain ⟨start,one,rest⟩ := chain
    obtain ⟨new,others⟩ := nodup_cons.mp once
    rcases eq_or_ne z x with rfl | ne
    · rw [List.erase_cons_head,if_pos start]
      have far : ∀ w ∈ list,next' w = next w := by
        intro w low
        rw [forth,if_neg]
        rw [one]
        exact out w (mem_cons_of_mem z low)
      cases list with
      | nil => exact rest
      | cons w list =>
        have tied : prev' w = before := by rw [back,if_pos rest.1,one]
        rw [← tied]
        refine rest.rebase far fun v low => ?_
        rw [back,if_neg]
        rw [rest.1]
        intro eq
        exact (nodup_cons.mp others).1 (Option.some.inj eq ▸ low)
    have later : x ∈ list := (mem_cons.mp mem).resolve_left (Ne.symm ne)
    have apart : ∀ w ∈ list,some z ≠ some w := fun w low eq => new (Option.some.inj eq ▸ low)
    rw [List.erase_cons_tail (by simpa using ne),if_neg (by rw [start]; simpa using ne)]
    refine ⟨start,?_,?_⟩
    · rw [back,if_neg,one]
      intro eq
      exact new (rest.next_mem later eq)
    have tail := ih rest others apart later
    rw [forth]
    have same := inverse mem_cons_self mem
    by_cases leads : next z = some x
    · rw [if_pos leads] at tail
      rwa [if_pos (same.mp leads)]
    rw [if_neg leads] at tail
    rwa [if_neg fun backs => leads (same.mpr backs)]

end Chain

-- for (x = head; x != NULL; x = next x)
def walk (next : α → Option α) : Nat → Option α → List α
  | 0,_ => []
  | _ + 1,none => []
  | fuel + 1,some x => x :: walk next fuel (next x)

lemma Chain.walk (chain : Chain next prev before head list) (enough : list.length ≤ fuel) : walk next fuel head = list := by
  induction list generalizing before head fuel with
  | nil =>
    rw [show head = none from chain]
    cases fuel <;> rfl
  | cons x _ ih =>
    obtain ⟨one,_,rest⟩ := chain
    cases fuel with
    | zero => simp at enough
    | succ _ =>
      rw [one]
      exact congrArg (x :: ·) (ih rest (by simpa using enough))

end Chain

structure Wheel (next prev : α → α) : Prop where
  back : ∀ x,prev (next x) = x
  forth : ∀ x,next (prev x) = x

def Together (next : α → α) (x y : α) : Prop := ∃ steps,next^[steps] x = y

section Wheel
variable {next prev next' prev' : α → α} {x y c : α}

lemma Wheel.single (wheel : Wheel next prev) (lone : next x = x) : prev x = x := by
  have eq := wheel.back x
  rwa [lone] at eq

lemma Wheel.next_inj (wheel : Wheel next prev) (eq : next x = next y) : x = y := by rw [← wheel.back x,← wheel.back y,eq]

lemma Wheel.insert [DecidableEq α] (wheel : Wheel next prev) (alone : next x = x) (ne : x ≠ c)
    (forth : ∀ y,next' y = if y = x then c else if y = prev c then x else next y)
    (back : ∀ y,prev' y = if y = c then x else if y = x then prev c else prev y) : Wheel next' prev' := by
  have lone : prev x = x := by
    have same := wheel.back x
    rwa [alone] at same
  have far : prev c ≠ x := by
    intro eq
    have same := wheel.forth c
    rw [eq,alone] at same
    exact ne same
  constructor
  · intro y
    rw [forth]
    split
    · next eq => rw [back,if_pos rfl,eq]
    next notX =>
    split
    · next eq => rw [back,if_neg ne,if_pos rfl,eq]
    next notLast =>
    have past : next y ≠ c := fun eq => notLast (by rw [← eq,wheel.back])
    have past' : next y ≠ x := fun eq => notX (by rw [← wheel.back y,eq,lone])
    rw [back,if_neg past,if_neg past',wheel.back]
  intro y
  rw [back]
  split
  · next eq => rw [forth,if_pos rfl,eq]
  next notC =>
  split
  · next eq => rw [forth,if_neg far,if_pos rfl,eq]
  next notX =>
  have past : prev y ≠ x := fun eq => notX (by rw [← wheel.forth y,eq,alone])
  have past' : prev y ≠ prev c := fun eq => notC (by rw [← wheel.forth y,eq,wheel.forth])
  rw [forth,if_neg past,if_neg past',wheel.forth]

lemma Wheel.delete [DecidableEq α] (wheel : Wheel next prev) (forth : ∀ y,next' y = if y = x then x else if y = prev x then next x else next y)
    (back : ∀ y,prev' y = if y = x then x else if y = next x then prev x else prev y) : Wheel next' prev' := by
  constructor
  · intro y
    rw [forth]
    split
    · next eq => rw [back,if_pos rfl,eq]
    next notX =>
    split
    · next eq =>
      have away : next x ≠ x := fun same => notX (by rw [eq,← same,wheel.back,same])
      rw [back,if_neg away,if_pos rfl,eq]
    next notLast =>
    have past : next y ≠ x := fun same => notLast (by rw [← same,wheel.back])
    have past' : next y ≠ next x := fun same => notX (wheel.next_inj same)
    rw [back,if_neg past,if_neg past',wheel.back]
  intro y
  rw [back]
  split
  · next eq => rw [forth,if_pos rfl,eq]
  next notX =>
  split
  · next eq =>
    have away : prev x ≠ x := fun same => notX (by rw [eq,← same,wheel.forth,same])
    rw [forth,if_neg away,if_pos rfl,eq]
  next notNext =>
  have past : prev y ≠ x := fun same => notNext (by rw [← same,wheel.forth])
  have past' : prev y ≠ prev x := fun same => notX (by rw [← wheel.forth y,same,wheel.forth])
  rw [forth,if_neg past,if_neg past',wheel.forth]

-- do { ... x = next x; } while (x != start)
def round [DecidableEq α] (next : α → α) (start : α) : Nat → α → List α
  | 0,_ => []
  | fuel + 1,x => x :: if next x = start then [] else round next start fuel (next x)

lemma round_together [DecidableEq α] (mem : y ∈ round next start fuel x) (reached : Together next start x) : Together next start y := by
  induction fuel generalizing x with
  | zero => cases mem
  | succ _ ih =>
    rcases mem_cons.mp mem with rfl | later
    · exact reached
    split at later
    · cases later
    obtain ⟨steps,lands⟩ := reached
    exact ih later ⟨steps + 1,by rw [iterate_succ_apply',lands]⟩

lemma Wheel.returns (wheel : Wheel next prev) (set : Finset α) (shut : ∀ y ∈ set,next y ∈ set) (mem : x ∈ set) :
    ∃ steps,0 < steps ∧ steps ≤ set.card ∧ next^[steps] x = x := by
  have low : ∀ i,next^[i] x ∈ set := by
    intro i
    induction i with
    | zero => exact mem
    | succ i ih =>
      rw [iterate_succ_apply']
      exact shut _ ih
  have crowded : set.card < (Finset.range (set.card + 1)).card := by simp
  obtain ⟨i,early,j,late,ne,eq⟩ := Finset.exists_ne_map_eq_of_card_lt_of_maps_to crowded fun i _ => low i
  have injective : Function.Injective next := fun _ _ => wheel.next_inj
  have bounds := And.intro (Finset.mem_range.mp early) (Finset.mem_range.mp late)
  rcases Nat.lt_or_gt_of_ne ne with less | less
  · exact ⟨j - i,by omega,by omega,iterate_cancel injective eq.symm⟩
  exact ⟨i - j,by omega,by omega,iterate_cancel injective eq⟩

lemma round_reaches [DecidableEq α] (steps : Nat) (enough : steps < fuel) (clear : ∀ i ≤ steps,0 < i → next^[i] x ≠ start) : next^[steps] x ∈ round next start fuel x := by
  induction steps generalizing x fuel with
  | zero =>
    cases fuel with
    | zero => cases enough
    | succ fuel => simp [round]
  | succ _ ih =>
    cases fuel with
    | zero => cases enough
    | succ _ =>
      have away : next x ≠ start := clear 1 (by omega) (by omega)
      refine mem_cons_of_mem x ?_
      rw [if_neg away,iterate_succ_apply]
      refine ih (by omega) fun i small pos => ?_
      rw [← iterate_succ_apply]
      exact clear (i + 1) (by omega) (by omega)

lemma Wheel.round_all [DecidableEq α] (wheel : Wheel next prev) (set : Finset α) (shut : ∀ y ∈ set,next y ∈ set) (mem : x ∈ set) (enough : set.card ≤ fuel)
    (together : Together next x y) : y ∈ round next x fuel x := by
  classical
  obtain ⟨period,least⟩ : ∃ period,(0 < period ∧ period ≤ set.card ∧ next^[period] x = x) ∧ ∀ i < period,¬ (0 < i ∧ i ≤ set.card ∧ next^[i] x = x) :=
    ⟨_,Nat.find_spec (wheel.returns set shut mem),fun _ => Nat.find_min _⟩
  obtain ⟨⟨pos,_,cycle⟩,least⟩ := least
  obtain ⟨steps,rfl⟩ := together
  rw [← Function.IsPeriodicPt.iterate_mod_apply cycle steps]
  have short := Nat.mod_lt steps pos
  refine round_reaches _ (by omega) fun i near ahead eq => ?_
  exact least i (by omega) ⟨ahead,by omega,eq⟩

end Wheel
end Links

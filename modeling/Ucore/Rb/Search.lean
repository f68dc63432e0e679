import Ucore.Rb.Runs

-- rb_search: what it finds, and in how many steps. compare is the comparison of
-- a node with the key.
namespace Ucore.Rb
open List (mem_append mem_append_left mem_append_right mem_cons mem_cons_self mem_cons_of_mem nodup_cons)
open Runs Trees

section
variable {ν : Type} {tree : Tree ν} {compare : ν → Int} {h : Heap ν} {t : Shape ν}

def Tree.Guides (tree : Tree ν) (compare : ν → Int) : Prop :=
  ∀ a b,tree.compare a b ≤ 0 → (0 ≤ compare a → 0 ≤ compare b) ∧ (0 < compare a → 0 < compare b)

def Finds (compare : ν → Int) (l : List ν) : Option ν → Prop
  | none => ∀ x ∈ l,compare x ≠ 0
  | some x => x ∈ l ∧ compare x = 0

lemma Finds.widen (finds : Finds compare l r) (sub : l ⊆ m) (rest : ∀ x ∈ m,x ∈ l ∨ compare x ≠ 0) : Finds compare m r := by
  cases r with
  | none => exact fun x mem => (rest x mem).elim (finds x) id
  | some x => exact ⟨sub finds.1,finds.2⟩

variable [DecidableEq ν]

def searchLoop (tree : Tree ν) (compare : ν → Int) (h : Heap ν) : Nat → ν → Option (Option ν)
  | 0,_ => none
  | fuel+1,node =>
    if node = tree.nil then some none
    else if compare node = 0 then some node
    else searchLoop tree compare h fuel (if 0 < compare node then (h node).left else (h node).right)

def rbSearch (tree : Tree ν) (compare : ν → Int) (fuel : Nat) (h : Heap ν) : Option (Option ν) := searchLoop tree compare h fuel (h tree.root).left

lemma searchLoop_run (guides : tree.Guides compare) (is : Is tree h p t) (nil : tree.nil ∉ t.list) (sorted : tree.Sorted t.list) (enough : t.depth < fuel) :
    ∃ r,searchLoop tree compare h fuel (top tree t) = some r ∧ Finds compare t.list r := by
  induction t generalizing p fuel with
  | leaf =>
    obtain ⟨fuel,rfl⟩ := Nat.exists_eq_add_one.mpr enough
    exact ⟨none,if_pos rfl,fun _ mem => absurd mem List.not_mem_nil⟩
  | node c l x r left right =>
    obtain ⟨fuel,rfl⟩ := Nat.exists_eq_add_one.mpr (Nat.zero_lt_of_lt enough)
    obtain ⟨record,isL,isR⟩ := is
    obtain ⟨sortL,rest,across⟩ := List.pairwise_append.mp sorted
    obtain ⟨above,sortR⟩ := List.pairwise_cons.mp rest
    simp only [Shape.list,mem_append,mem_cons,not_or] at nil
    simp only [Shape.depth] at enough
    rw [top,searchLoop,if_neg (Ne.symm nil.2.1)]
    by_cases zero : compare x = 0
    · exact ⟨x,if_pos zero,mem_append_right _ mem_cons_self,zero⟩
    rw [if_neg zero,record]
    by_cases big : 0 < compare x
    · obtain ⟨found,ran,finds⟩ := left isL nil.1 sortL (show l.depth < fuel by omega)
      rw [if_pos big]
      refine ⟨found,ran,finds.widen (fun _ => mem_append_left _) fun y mem => (mem_append.mp mem).imp_right fun high => ?_⟩
      rcases mem_cons.mp high with rfl | high
      · exact zero
      exact ((guides x y (above y high)).2 big).ne'
    obtain ⟨found,ran,finds⟩ := right isR nil.2.2 sortR (show r.depth < fuel by omega)
    rw [if_neg big]
    refine ⟨found,ran,finds.widen (fun _ mem => mem_append_right _ (mem_cons_of_mem _ mem)) fun y mem => ?_⟩
    rcases mem_append.mp mem with low | high
    · have := (guides y x (across y low x mem_cons_self)).1
      exact .inr (by omega)
    rcases mem_cons.mp high with rfl | high
    · exact .inr zero
    exact .inl high

theorem rb_search_exact (total : tree.Total) (apart : tree.nil ≠ tree.root) (path : Path (Moves tree) ⟨rbTreeCreate tree h,[]⟩ events w) (guides : tree.Guides compare) :
    ∃ r,rbSearch tree compare (2 * (w.kept.length + 1).log2 + 1) w.heap = some r ∧ Finds compare w.kept r := by
  obtain ⟨t,valid,nodup,same⟩ := path.invariant (fun _ _ _ holds move => move.holds total holds) ⟨.leaf,rbTreeCreate_valid apart,.nil,fun _ => Iff.rfl⟩
  obtain ⟨n,balanced⟩ := valid.balanced
  obtain ⟨many,deep⟩ := balanced.depth_le
  obtain ⟨noNil,distinct⟩ := nodup_cons.mp valid.links.apart
  have perm : t.list.Perm w.kept := (List.perm_ext_iff_of_nodup (nodup_cons.mp distinct).2 nodup).mpr same
  have log : n ≤ (w.kept.length + 1).log2 := (Nat.le_log2 (Nat.succ_ne_zero _)).mpr (by rwa [← perm.length_eq,← Shape.size_eq])
  rw [valid.black,if_neg Bool.false_ne_true] at deep
  obtain ⟨r,ran,finds⟩ := searchLoop_run guides valid.links.here (fun mem => noNil (mem_cons_of_mem _ mem)) valid.order (Nat.lt_succ_of_le (deep.trans (Nat.mul_le_mul_left 2 log)))
  rw [rbSearch,valid.links.around]
  exact ⟨r,ran,finds.widen perm.subset fun x mem => .inl ((same x).mpr mem)⟩

end

theorem rb_search_exact_three : ∃ w,exec numbers 6 ⟨rbTreeCreate numbers fun _ => ⟨true,7,7,7⟩,[]⟩ [.insert 2,.insert 3,.insert 4] = some w ∧
    ∃ r,rbSearch numbers (fun x => x - 4) (2 * (w.kept.length + 1).log2 + 1) w.heap = some r ∧ Finds (fun x : Nat => (x : Int) - 4) w.kept r := by
  have ran : (exec numbers 6 ⟨rbTreeCreate numbers fun _ => ⟨true,7,7,7⟩,[]⟩ [.insert 2,.insert 3,.insert 4]).isSome = true := by decide +kernel
  obtain ⟨w,ran⟩ := Option.isSome_iff_exists.mp ran
  exact ⟨w,ran,rb_search_exact numbers_total (by decide) (exec_path ran) fun a b => by unfold numbers; dsimp only; omega⟩

end Ucore.Rb

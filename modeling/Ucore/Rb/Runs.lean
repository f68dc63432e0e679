import Ucore.Lib.Runs
import Ucore.Rb.Delete

namespace Ucore.Rb
open List (mem_cons nodup_cons pairwise_append)
open Option (bind_eq_some_iff)

open Runs Trees

variable {ν : Type} [DecidableEq ν]

section Fuel

variable {tree : Tree ν} {h k : Heap ν} {x y z v root : ν} {fuel more : Nat}

lemma descend_mono (ran : descend tree z h fuel x y = some v) (enough : fuel ≤ more) : descend tree z h more x y = some v := by
  induction fuel generalizing x y more with
  | zero => cases ran
  | succ _ ih =>
    obtain ⟨more,rfl⟩ : ∃ m,more = m + 1 := ⟨more - 1,by omega⟩
    rw [descend] at ran ⊢
    split at ran
    · rwa [if_pos ‹_›]
    rw [if_neg ‹_›]
    exact ih ran (by omega)

lemma rbInsertFixup_mono (ran : rbInsertFixup tree fuel x h = some k) (enough : fuel ≤ more) : rbInsertFixup tree more x h = some k := by
  induction fuel generalizing x h more with
  | zero => cases ran
  | succ _ ih =>
    obtain ⟨more,rfl⟩ : ∃ m,more = m + 1 := ⟨more - 1,by omega⟩
    rw [rbInsertFixup] at ran ⊢
    split at ran
    · rw [if_pos ‹_›]
      obtain ⟨next,sub,rest⟩ := bind_eq_some_iff.mp ran
      exact bind_eq_some_iff.mpr ⟨next,sub,ih rest (by omega)⟩
    rwa [if_neg ‹_›]

lemma rbInsert_mono (ran : rbInsert tree fuel z h = some k) (enough : fuel ≤ more) : rbInsert tree more z h = some k := by
  obtain ⟨one,binary,ran⟩ := bind_eq_some_iff.mp ran
  obtain ⟨y,got,linked⟩ := bind_eq_some_iff.mp binary
  obtain ⟨two,fixed,ran⟩ := bind_eq_some_iff.mp ran
  refine bind_eq_some_iff.mpr ⟨one,bind_eq_some_iff.mpr ⟨y,descend_mono got enough,linked⟩,?_⟩
  exact bind_eq_some_iff.mpr ⟨two,rbInsertFixup_mono fixed enough,ran⟩

lemma leftmost_mono (ran : leftmost tree h fuel x = some v) (enough : fuel ≤ more) : leftmost tree h more x = some v := by
  induction fuel generalizing x more with
  | zero => cases ran
  | succ _ ih =>
    obtain ⟨more,rfl⟩ : ∃ m,more = m + 1 := ⟨more - 1,by omega⟩
    rw [leftmost] at ran ⊢
    split at ran
    · rw [if_pos ‹_›]
      exact ih ran (by omega)
    rwa [if_neg ‹_›]

lemma climb_mono (ran : climb h fuel x y = some v) (enough : fuel ≤ more) : climb h more x y = some v := by
  induction fuel generalizing x y more with
  | zero => cases ran
  | succ _ ih =>
    obtain ⟨more,rfl⟩ : ∃ m,more = m + 1 := ⟨more - 1,by omega⟩
    rw [climb] at ran ⊢
    split at ran
    · rw [if_pos ‹_›]
      exact ih ran (by omega)
    rwa [if_neg ‹_›]

lemma rbTreeSuccessor_mono (ran : rbTreeSuccessor tree fuel x h = some v) (enough : fuel ≤ more) : rbTreeSuccessor tree more x h = some v := by
  unfold rbTreeSuccessor at ran ⊢
  split at ran
  · rw [if_pos ‹_›]
    exact leftmost_mono ran enough
  rw [if_neg ‹_›]
  obtain ⟨y,got,rest⟩ := bind_eq_some_iff.mp ran
  exact bind_eq_some_iff.mpr ⟨y,climb_mono got enough,rest⟩

lemma rbDeleteLoop_mono (ran : rbDeleteLoop tree root fuel x h = some k) (enough : fuel ≤ more) : rbDeleteLoop tree root more x h = some k := by
  induction fuel generalizing x h more with
  | zero => cases ran
  | succ _ ih =>
    obtain ⟨more,rfl⟩ : ∃ m,more = m + 1 := ⟨more - 1,by omega⟩
    rw [rbDeleteLoop] at ran ⊢
    split at ran
    · rw [if_pos ‹_›]
      obtain ⟨next,sub,rest⟩ := bind_eq_some_iff.mp ran
      exact bind_eq_some_iff.mpr ⟨next,sub,ih rest (by omega)⟩
    rwa [if_neg ‹_›]

lemma rbDelete_mono (ran : rbDelete tree fuel z h = some k) (enough : fuel ≤ more) : rbDelete tree more z h = some k := by
  obtain ⟨y,chosen,rest⟩ := bind_eq_some_iff.mp ran
  have sound : y ≠ tree.root ∧ y ≠ tree.nil := by
    by_contra no
    dsimp only at rest
    rw [if_neg no] at rest
    cases rest
  have again : (if (h z).left = tree.nil ∨ (h z).right = tree.nil then some z else rbTreeSuccessor tree more z h) = some y := by
    split at chosen
    · rwa [if_pos ‹_›]
    rw [if_neg ‹_›]
    exact rbTreeSuccessor_mono chosen enough
  rw [rbDelete_eq chosen rfl sound.1 sound.2 rfl] at ran
  rw [rbDelete_eq again rfl sound.1 sound.2 rfl]
  generalize relink y _ _ = m at ran ⊢
  cases black : (m y).red with
  | false =>
    rw [black,if_pos rfl] at ran
    rw [if_pos rfl]
    exact rbDeleteLoop_mono ran enough
  | true =>
    rw [black,if_neg nofun] at ran
    rwa [if_neg nofun]

end Fuel

def Returns {σ : Type} (run : Nat → Option σ) (k : σ) : Prop := ∃ bound,∀ fuel,bound ≤ fuel → run fuel = some k

inductive Event (ν : Type) where
  | insert (z : ν)
  | delete (z : ν)

-- The memory, and the nodes inserted and not yet deleted. The code does not keep the second.
structure World (ν : Type) where
  heap : Heap ν
  kept : List ν

section Steps

variable (tree : Tree ν)

def Event.Enabled (w : World ν) : Event ν → Prop
  | .insert z => z ∉ w.kept ∧ z ≠ tree.nil ∧ z ≠ tree.root
  | .delete z => z ∈ w.kept

instance (w : World ν) (e : Event ν) : Decidable (e.Enabled tree w) := by
  cases e <;> unfold Event.Enabled <;> infer_instance

def Event.act (fuel : Nat) (h : Heap ν) : Event ν → Option (Heap ν)
  | .insert z => rbInsert tree fuel z h
  | .delete z => rbDelete tree fuel z h

def Event.after (kept : List ν) : Event ν → List ν
  | .insert z => z :: kept
  | .delete z => kept.erase z

def Moves (w : World ν) (e : Event ν) (u : World ν) : Prop :=
  e.Enabled tree w ∧ Returns (fun fuel => e.act tree fuel w.heap) u.heap ∧ u.kept = e.after w.kept

structure Valid (h : Heap ν) (t : Shape ν) : Prop where
  links : Sits tree h [] t
  order : tree.Sorted t.list
  black : t.isRed = false
  balanced : ∃ n,t.Balanced n

end Steps

section Results

variable {tree : Tree ν} {h k : Heap ν} {t : Shape ν} {z : ν} {w u : World ν} {e : Event ν}

lemma rbTreeCreate_valid (ne : tree.nil ≠ tree.root) : Valid tree (rbTreeCreate tree h) .leaf := by
  refine ⟨⟨Function.update_self ..,trivial,?_,?_⟩,.nil,rfl,0,rfl⟩
  · simpa [Turn.nodes,Shape.list] using ne
  rw [rbTreeCreate,Function.update_of_ne ne,Function.update_self]

lemma Valid.insert (total : tree.Total) (valid : Valid tree h t) (fresh : z ∉ t.list) (zn : z ≠ tree.nil) (zr : z ≠ tree.root) :
    ∃ k T lo hi,Returns (fun fuel => rbInsert tree fuel z h) k ∧ Valid tree k T ∧ t.list = lo ++ hi ∧ T.list = lo ++ z :: hi ∧
      (∀ v ∈ lo,tree.compare v z ≤ 0) ∧ ∀ v ∈ hi,0 < tree.compare v z := by
  obtain ⟨n,balanced⟩ := valid.balanced
  obtain ⟨k,T,lo,hi,m,ran,links,black,done,old,new,below,above⟩ :=
    rbInsert_run total valid.links valid.black balanced valid.order (z := z) (by simp [zn,zr,fresh]) (Nat.lt_succ_self (t.size + 1))
  refine ⟨k,T,lo,hi,⟨_,fun fuel enough => rbInsert_mono ran enough⟩,⟨links,?_,black,m,done⟩,old,new,below,above⟩
  have order := valid.order
  rw [old] at order
  rw [new]
  obtain ⟨one,last,across⟩ := pairwise_append.mp order
  refine pairwise_append.mpr ⟨one,List.pairwise_cons.mpr ⟨fun v mem => ?_,last⟩,fun v mem u inside => ?_⟩
  · have := above v mem
    exact (total.total v z).resolve_left (by omega)
  rcases mem_cons.mp inside with rfl | inside
  · exact below v mem
  exact across v mem u inside

lemma Valid.delete (valid : Valid tree h t) (mem : z ∈ t.list) :
    ∃ k T lo hi,Returns (fun fuel => rbDelete tree fuel z h) k ∧ Valid tree k T ∧ t.list = lo ++ z :: hi ∧ T.list = lo ++ hi := by
  obtain ⟨n,balanced⟩ := valid.balanced
  obtain ⟨k,T,lo,hi,m,ran,links,black,done,old,new⟩ := rbDelete_run valid.links valid.black balanced mem (Nat.lt_succ_self (t.size + 1))
  refine ⟨k,T,lo,hi,⟨_,fun fuel enough => rbDelete_mono ran enough⟩,⟨links,?_,black,m,done⟩,old,new⟩
  have order := valid.order
  rw [old] at order
  rw [new]
  obtain ⟨one,last,across⟩ := pairwise_append.mp order
  exact pairwise_append.mpr ⟨one,(List.pairwise_cons.mp last).2,fun v inside u later => across v inside u (List.mem_cons_of_mem _ later)⟩

lemma Returns.unique {σ : Type} {run : Nat → Option σ} {a b : σ} (first : Returns run a) (two : Returns run b) : a = b := by
  obtain ⟨m,first⟩ := first
  obtain ⟨n,two⟩ := two
  have left := first (max m n) (le_max_left ..)
  rw [two (max m n) (le_max_right ..)] at left
  exact (Option.some.inj left).symm

def Holds (tree : Tree ν) (w : World ν) : Prop := ∃ t,Valid tree w.heap t ∧ w.kept.Nodup ∧ ∀ x,x ∈ t.list ↔ x ∈ w.kept

lemma Moves.holds (total : tree.Total) (holds : Holds tree w) (move : Moves tree w e u) : Holds tree u := by
  obtain ⟨t,valid,nodup,eq⟩ := holds
  obtain ⟨may,returns,kept⟩ := move
  cases e with
  | insert z =>
    obtain ⟨fresh,zn,zr⟩ := may
    obtain ⟨k,T,lo,hi,ran,done,old,new,-⟩ := valid.insert total (fun inside => fresh ((eq z).mp inside)) zn zr
    have heap : u.heap = k := returns.unique ran
    refine ⟨T,heap ▸ done,?_,fun x => ?_⟩
    · rw [kept]
      exact nodup_cons.mpr ⟨fresh,nodup⟩
    rw [kept,new,Event.after,mem_cons,← eq,old]
    simp only [List.mem_append,mem_cons]
    tauto
  | delete z =>
    obtain ⟨k,T,lo,hi,ran,done,old,new⟩ := valid.delete ((eq z).mpr may)
    have heap : u.heap = k := returns.unique ran
    have ne : (lo ++ z :: hi).Nodup := by
      have := valid.links.apart
      rw [old] at this
      exact (nodup_cons.mp (nodup_cons.mp this).2).2
    refine ⟨T,heap ▸ done,?_,fun x => ?_⟩
    · rw [kept]
      exact nodup.erase z
    rw [kept,new,Event.after,nodup.mem_erase_iff,← eq,old]
    have out := (nodup_cons.mp (List.perm_middle.nodup ne)).1
    simp only [List.mem_append,mem_cons] at out ⊢
    constructor
    · intro mem
      refine ⟨?_,by tauto⟩
      rintro rfl
      exact out mem
    rintro ⟨_,_⟩
    tauto

end Results

theorem red_black_tree {ν : Type} [DecidableEq ν] (tree : Tree ν) (total : tree.Total) (apart : tree.nil ≠ tree.root) (h : Heap ν) (events : List (Event ν)) (w : World ν)
    (path : Path (Moves tree) ⟨rbTreeCreate tree h,[]⟩ events w) :
    ∃ t,Valid tree w.heap t ∧ (∀ x,x ∈ t.list ↔ x ∈ w.kept) ∧
      (∀ z,z ∉ w.kept → z ≠ tree.nil → z ≠ tree.root → ∃ k T lo hi,Returns (fun fuel => rbInsert tree fuel z w.heap) k ∧ Valid tree k T ∧
        t.list = lo ++ hi ∧ T.list = lo ++ z :: hi ∧ (∀ v ∈ lo,tree.compare v z ≤ 0) ∧ ∀ v ∈ hi,0 < tree.compare v z) ∧
      ∀ z ∈ w.kept,∃ k T lo hi,Returns (fun fuel => rbDelete tree fuel z w.heap) k ∧ Valid tree k T ∧ t.list = lo ++ z :: hi ∧ T.list = lo ++ hi := by
  have keeps (w e u) (holds : Holds tree w) (move : Moves tree w e u) : Holds tree u := move.holds total holds
  obtain ⟨t,valid,-,same⟩ := path.invariant keeps ⟨.leaf,rbTreeCreate_valid apart,.nil,fun x => Iff.rfl⟩
  refine ⟨t,valid,same,fun z fresh zn zr => ?_,fun z member => valid.delete ((same z).mpr member)⟩
  exact valid.insert total (fun inside => fresh ((same z).mp inside)) zn zr

section Witness

variable {tree : Tree ν}

abbrev exec (tree : Tree ν) (fuel : Nat) : World ν → List (Event ν) → Option (World ν) :=
  Runs.runs (fun w e => e.Enabled tree w) fun w e => (e.act tree fuel w.heap).map fun h => ⟨h,e.after w.kept⟩

lemma exec_path {w u : World ν} {events : List (Event ν)} (ran : exec tree fuel w events = some u) : Path (Moves tree) w events u := by
  refine (runs_path ran).mono fun w e u moved => ?_
  obtain ⟨h,acts,rfl⟩ := Option.map_eq_some_iff.mp moved.2
  refine ⟨moved.1,⟨fuel,fun more enough => ?_⟩,rfl⟩
  cases e with
  | insert z => exact rbInsert_mono acts enough
  | delete z => exact rbDelete_mono acts enough

end Witness

-- Sentinels 0 and 1, nodes by number.
def numbers : Tree Nat := ⟨0,1,fun a b => (a : Int) - b⟩

lemma numbers_total : numbers.Total := ⟨fun a b => by unfold numbers; dsimp only; omega,fun a b c => by unfold numbers; dsimp only; omega⟩

-- Three insertions in order, which rotate, and the removal of the root.
theorem red_black_tree_three : ∃ w,exec numbers 6 ⟨rbTreeCreate numbers fun _ => ⟨true,7,7,7⟩,[]⟩ [.insert 2,.insert 3,.insert 4,.delete 3] = some w ∧
    w.kept = [4,2] ∧ (w.heap 1).left = 4 ∧ ∃ t,Valid numbers w.heap t ∧ ∀ x,x ∈ t.list ↔ x ∈ w.kept := by
  have ran : (exec numbers 6 ⟨rbTreeCreate numbers fun _ => ⟨true,7,7,7⟩,[]⟩ [.insert 2,.insert 3,.insert 4,.delete 3]).map
      (fun w => (w.kept,(w.heap 1).left)) = some ([4,2],4) := by decide +kernel
  obtain ⟨w,ran,seen⟩ := Option.map_eq_some_iff.mp ran
  injection seen with kept top
  obtain ⟨t,valid,same,-⟩ := red_black_tree numbers numbers_total (by decide) _ _ w (exec_path ran)
  exact ⟨w,ran,kept,top,t,valid,same⟩

end Ucore.Rb

import Mathlib.Tactic

namespace Trees
open List

inductive Side where
  | left
  | right
deriving Repr,DecidableEq

def Side.other : Side → Side
  | .left => .right
  | .right => .left

inductive Shape (ν : Type) where
  | leaf
  | node (red : Bool) (l : Shape ν) (x : ν) (r : Shape ν)

namespace Shape

variable {ν : Type} {red c d : Bool} {a b l r t : Shape ν} {x y : ν} {s : Side} {n : Nat}

def list : Shape ν → List ν
  | leaf => []
  | node _ l x r => l.list ++ x :: r.list

def isRed : Shape ν → Bool
  | leaf => false
  | node red _ _ _ => red

def size : Shape ν → Nat
  | leaf => 0
  | node _ l _ r => l.size + r.size + 1

def depth : Shape ν → Nat
  | leaf => 0
  | node _ l _ r => max l.depth r.depth + 1

def mk (s : Side) (red : Bool) (a : Shape ν) (x : ν) (b : Shape ν) : Shape ν :=
  match s with
  | .left => node red a x b
  | .right => node red b x a

def Balanced : Shape ν → Nat → Prop
  | leaf,n => n = 0
  | node true l _ r,n => l.isRed = false ∧ r.isRed = false ∧ l.Balanced n ∧ r.Balanced n
  | node false l _ r,n => ∃ m,n = m + 1 ∧ l.Balanced m ∧ r.Balanced m

@[simp] lemma mk_other : mk s.other c a x b = mk s c b x a := by cases s <;> rfl

@[simp] lemma isRed_mk : (mk s c a x b).isRed = c := by cases s <;> rfl

lemma node_mk (s : Side) (t : Shape ν) : t = leaf ∨ ∃ c a x b,t = mk s c a x b := by
  cases t with
  | leaf => exact .inl rfl
  | node c l x r =>
    cases s with
    | left => exact .inr ⟨c,l,x,r,rfl⟩
    | right => exact .inr ⟨c,r,x,l,rfl⟩

@[simp] lemma balanced_red : (mk s true a x b).Balanced n ↔ a.isRed = false ∧ b.isRed = false ∧ a.Balanced n ∧ b.Balanced n := by
  cases s
  · rfl
  exact ⟨fun ⟨p,q,u,v⟩ => ⟨q,p,v,u⟩,fun ⟨p,q,u,v⟩ => ⟨q,p,v,u⟩⟩

@[simp] lemma balanced_black : (mk s false a x b).Balanced (n + 1) ↔ a.Balanced n ∧ b.Balanced n := by
  cases s
  · simp [mk,Balanced]
  simp only [mk,Balanced,Nat.add_right_cancel_iff,exists_eq_left']
  exact and_comm

lemma Balanced.black_succ (valid : (mk s false a x b).Balanced n) : ∃ m,n = m + 1 := by cases s <;> exact valid.imp fun _ both => both.1

lemma list_mk : (mk s c a x b).list.Perm (x :: (a.list ++ b.list)) := by
  cases s
  · exact perm_middle
  exact perm_middle.trans (List.Perm.cons _ perm_append_comm)

lemma size_eq : t.size = t.list.length := by
  induction t with
  | leaf => rfl
  | node c l x r ihl ihr => simp [size,list,ihl,ihr,Nat.add_assoc]

lemma list_recolor : (mk s c a x b).list = (mk s d a x b).list := by cases s <;> rfl

lemma list_rotate {u : Shape ν} : (mk s c a x (mk s d b y u)).list = (mk s d (mk s c a x b) y u).list := by cases s <;> simp [mk,list]

-- n black nodes on every path: at least 2^n - 1 nodes, and at most a red one below each black one.
lemma Balanced.depth_le (valid : t.Balanced n) : 2^n ≤ t.size + 1 ∧ t.depth ≤ 2 * n + if t.isRed then 1 else 0 := by
  induction t generalizing n with
  | leaf =>
    cases valid
    exact ⟨Nat.le_refl _,Nat.zero_le _⟩
  | node red l x r left right =>
    cases red with
    | true =>
      obtain ⟨blackL,blackR,validL,validR⟩ := valid
      have lower := left validL
      have upper := right validR
      rw [blackL,if_neg Bool.false_ne_true] at lower
      rw [blackR,if_neg Bool.false_ne_true] at upper
      simp only [size,depth,isRed,if_true]
      omega
    | false =>
      obtain ⟨m,rfl,validL,validR⟩ := valid
      have lower := left validL
      have upper := right validR
      simp only [size,depth,isRed,Nat.pow_succ]
      split at lower <;> split at upper <;> omega

end Shape

structure Turn (ν : Type) where
  side : Side
  red : Bool
  node : ν
  sib : Shape ν

namespace Turn

variable {ν : Type} {t u : Shape ν} {f : Turn ν} {ctx k up : List (Turn ν)} {n : Nat} {hole : Bool}

def wrap (f : Turn ν) (t : Shape ν) : Shape ν := .mk f.side f.red t f.node f.sib

-- The innermost turn comes first.
def plug : List (Turn ν) → Shape ν → Shape ν
  | [],t => t
  | f :: up,t => plug up (f.wrap t)

def nodes : List (Turn ν) → List ν
  | [] => []
  | f :: up => f.node :: (f.sib.list ++ nodes up)

def before : List (Turn ν) → List ν
  | [] => []
  | f :: up => before up ++ match f.side with
    | .left => []
    | .right => f.sib.list ++ [f.node]

def after : List (Turn ν) → List ν
  | [] => []
  | f :: up => (match f.side with
    | .left => f.node :: f.sib.list
    | .right => []) ++ after up

def Room : List (Turn ν) → Bool → Nat → Prop
  | [],hole,_ => hole = false
  | f :: up,hole,n => f.sib.Balanced n ∧
    if f.red then hole = false ∧ f.sib.isRed = false ∧ Room up true n else Room up false (n + 1)

lemma plug_append : plug (k ++ ctx) t = plug ctx (plug k t) := by
  induction k generalizing t with
  | nil => rfl
  | cons f _ ih => exact ih

lemma before_append : before (k ++ ctx) = before ctx ++ before k := by
  induction k with
  | nil => exact (append_nil _).symm
  | cons f _ ih => simp [before,ih]

lemma list_plug : (plug ctx t).list = before ctx ++ (t.list ++ after ctx) := by
  induction ctx generalizing t with
  | nil => simp [plug,before,after]
  | cons f _ ih =>
    rw [plug,ih]
    rcases f with ⟨side,_,x,_⟩
    cases side <;> simp [wrap,Shape.mk,Shape.list,before,after]

lemma list_plug_congr (ctx : List (Turn ν)) (eq : t.list = u.list) : (plug ctx t).list = (plug ctx u).list := by
  rw [list_plug,list_plug,eq]

lemma nodes_wrap : (nodes (f :: up) ++ t.list).Perm (nodes up ++ (f.wrap t).list) := by
  refine List.Perm.trans ?_ (List.Perm.append_left _ Shape.list_mk.symm)
  show (f.node :: (f.sib.list ++ nodes up) ++ t.list).Perm (nodes up ++ (f.node :: (t.list ++ f.sib.list)))
  refine List.Perm.trans ?_ perm_middle.symm
  rw [cons_append,append_assoc]
  refine List.Perm.cons _ (perm_append_comm.trans ?_)
  rw [append_assoc]

lemma nodes_plug (ctx : List (Turn ν)) (t : Shape ν) : (nodes ctx ++ t.list).Perm (plug ctx t).list := by
  induction ctx generalizing t with
  | nil => exact .refl _
  | cons f _ ih => exact nodes_wrap.trans (ih _)

lemma nodes_append : (nodes (k ++ ctx) ++ t.list).Perm (nodes ctx ++ (plug k t).list) := by
  induction k generalizing t with
  | nil => exact .refl _
  | cons f _ ih => exact nodes_wrap.trans ih

lemma plug_ne_leaf : plug (f :: up) t ≠ .leaf := by
  intro leaf
  have := (nodes_plug (f :: up) t).mem_iff.mp (mem_append_left _ mem_cons_self)
  rw [leaf] at this
  cases this

lemma length_le_size (ctx : List (Turn ν)) (t : Shape ν) : ctx.length + t.size ≤ (plug ctx t).size := by
  induction ctx generalizing t with
  | nil => exact Nat.le_of_eq (Nat.zero_add _)
  | cons f _ ih =>
    have outer := ih (f.wrap t)
    have inner : t.size + 1 ≤ (f.wrap t).size := by
      unfold wrap Shape.mk
      split <;> simp only [Shape.size] <;> omega
    rw [length_cons,plug]
    omega

lemma Room.weaken (room : Room ctx true n) : Room ctx false n := by
  cases ctx with
  | nil => exact nomatch room
  | cons f _ =>
    obtain ⟨sib,rest⟩ := room
    refine ⟨sib,?_⟩
    split at rest
    · exact nomatch rest.1
    next black =>
      rw [if_neg black]
      exact rest

lemma Room.plug (room : Room ctx t.isRed n) (valid : t.Balanced n) : (∃ m,(plug ctx t).Balanced m) ∧ (Turn.plug ctx t).isRed = false := by
  induction ctx generalizing t n with
  | nil => exact ⟨⟨n,valid⟩,room⟩
  | cons f _ ih =>
    obtain ⟨_,rest⟩ := room
    rcases f with ⟨_,red,x,u⟩
    cases red with
    | true =>
      rw [if_pos rfl] at rest
      exact ih (by simpa [wrap] using rest.2.2) (by simp_all [wrap])
    | false => exact ih (by simpa [wrap] using rest) (by simp_all [wrap])

lemma Room.of_plug (ctx : List (Turn ν)) (valid : (Turn.plug ctx t).Balanced n) (black : (Turn.plug ctx t).isRed = false) : ∃ m,Room ctx t.isRed m ∧ t.Balanced m := by
  induction ctx generalizing t with
  | nil => exact ⟨n,black,valid⟩
  | cons f _ ih =>
    obtain ⟨m,room,here⟩ := ih valid black
    rcases f with ⟨_,red,x,u⟩
    cases red with
    | true =>
      simp only [wrap,Shape.isRed_mk,Shape.balanced_red] at room here
      exact ⟨m,⟨here.2.2.2,by simp_all⟩,here.2.2.1⟩
    | false =>
      obtain ⟨j,rfl⟩ := Shape.Balanced.black_succ here
      simp only [wrap,Shape.isRed_mk,Shape.balanced_black] at room here
      exact ⟨j,⟨here.2,by simpa using room⟩,here.1⟩

-- The names of the nodes do not matter to what fits.
lemma Room.rename {s : Side} {c : Bool} {x y : ν} (room : Room (k ++ ⟨s,c,x,u⟩ :: ctx) hole n) : Room (k ++ ⟨s,c,y,u⟩ :: ctx) hole n := by
  induction k generalizing hole n with
  | nil => exact room
  | cons f _ ih =>
    obtain ⟨sib,rest⟩ := room
    refine ⟨sib,?_⟩
    split at rest
    next red =>
      rw [if_pos red]
      exact ⟨rest.1,rest.2.1,ih rest.2.2⟩
    next black =>
      rw [if_neg black]
      exact ih rest

lemma exists_plug {x : ν} (mem : x ∈ t.list) : ∃ ctx c l r,t = plug ctx (.node c l x r) := by
  suffices strong : ∀ (u : Shape ν) (out : List (Turn ν)),x ∈ u.list → ∃ ctx c l r,plug out u = plug ctx (.node c l x r) from strong t [] mem
  intro u
  induction u with
  | leaf => exact fun _ no => absurd no not_mem_nil
  | node c l y r ihl ihr =>
    intro out mem
    rcases mem_append.mp mem with below | above
    · exact ihl (⟨.left,c,y,r⟩ :: out) below
    rcases mem_cons.mp above with rfl | above
    · exact ⟨out,c,l,r,rfl⟩
    exact ihr (⟨.right,c,y,l⟩ :: out) above

end Turn

end Trees

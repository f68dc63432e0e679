import Mathlib.Tactic
import Ucore.Rb.Tree

namespace Ucore.Rb
open List (mem_append mem_append_left mem_append_right mem_cons mem_cons_of_mem mem_cons_self nodup_append nodup_cons)

open Trees Trees.Turn Node
open Function (update update_eq_self update_of_ne update_self)

section Rep

variable {ν : Type} {tree : Tree ν} {h u : Heap ν} {p q x y z k : ν} {c d : Bool} {s : Side}
  {t a b l r : Shape ν} {ctx up : List (Turn ν)} {f : Turn ν}

def top (tree : Tree ν) : Shape ν → ν
  | .leaf => tree.nil
  | .node _ _ x _ => x

def Is (tree : Tree ν) (h : Heap ν) : ν → Shape ν → Prop
  | _,.leaf => True
  | p,.node c l x r => h x = ⟨c,p,top tree l,top tree r⟩ ∧ Is tree h x l ∧ Is tree h x r

def holder (tree : Tree ν) : List (Turn ν) → ν
  | [] => tree.root
  | f :: _ => f.node

def hangs : List (Turn ν) → Side
  | [] => .left
  | f :: _ => f.side

def Around (tree : Tree ν) (h : Heap ν) : List (Turn ν) → ν → Prop
  | [],k => h tree.root = ⟨false,tree.nil,k,tree.nil⟩
  | f :: up,k => h f.node = .of f.side f.red (holder tree up) k (top tree f.sib) ∧ Is tree h f.node f.sib ∧ Around tree h up f.node

structure Sits (tree : Tree ν) (h : Heap ν) (ctx : List (Turn ν)) (t : Shape ν) : Prop where
  around : Around tree h ctx (top tree t)
  here : Is tree h (holder tree ctx) t
  apart : (tree.nil :: tree.root :: (nodes ctx ++ t.list)).Nodup
  nilBlack : (h tree.nil).red = false

@[simp] lemma top_mk : top tree (.mk s c a x b) = x := by cases s <;> rfl

@[simp] lemma is_mk : Is tree h p (.mk s c a x b) ↔ h x = .of s c p (top tree a) (top tree b) ∧ Is tree h x a ∧ Is tree h x b := by
  cases s
  · rfl
  exact and_congr .rfl and_comm

lemma top_mem (tree : Tree ν) (t : Shape ν) : t = .leaf ∨ top tree t ∈ t.list := by
  cases t with
  | leaf => exact .inl rfl
  | node c l x r => exact .inr (mem_append_right _ mem_cons_self)

lemma top_ne {v : ν} (out : v ∉ t.list) (some : v ≠ tree.nil) : top tree t ≠ v := by
  rcases top_mem tree t with rfl | mem
  · exact some.symm
  rintro rfl
  exact out mem

lemma Is.keep (is : Is tree h p t) (eq : ∀ v ∈ t.list,u v = h v) : Is tree u p t := by
  induction t generalizing p with
  | leaf => trivial
  | node c l x r ihl ihr =>
    refine ⟨(eq x (mem_append_right _ mem_cons_self)).trans is.1,ihl is.2.1 fun v mem => ?_,ihr is.2.2 fun v mem => ?_⟩
    · exact eq v (mem_append_left _ mem)
    exact eq v (mem_append_right _ (mem_cons_of_mem _ mem))

lemma Is.rehang (is : Is tree h p t) (nodup : t.list.Nodup) (moved : t ≠ .leaf → u (top tree t) = {h (top tree t) with parent:=q})
    (eq : ∀ v ∈ t.list,v ≠ top tree t → u v = h v) : Is tree u q t := by
  cases t with
  | leaf => trivial
  | node c l x r =>
    simp only [Shape.list,nodup_append,nodup_cons,mem_cons] at nodup
    refine ⟨?_,is.2.1.keep fun v mem => eq v (mem_append_left _ mem) ?_,is.2.2.keep fun v mem => eq v (mem_append_right _ (mem_cons_of_mem _ mem)) ?_⟩
    · have := moved (by simp)
      simp only [top] at this
      rw [this,is.1]
    · exact nodup.2.2 v mem x (.inl rfl)
    rintro rfl
    exact nodup.2.1.1 mem

lemma Around.keep (around : Around tree h ctx k) (root : u tree.root = h tree.root) (eq : ∀ v ∈ nodes ctx,u v = h v) : Around tree u ctx k := by
  induction ctx generalizing k with
  | nil => exact root.trans around
  | cons f up ih =>
    have rest (v) (mem : v ∈ f.sib.list ++ nodes up) : u v = h v := eq v (mem_cons_of_mem _ mem)
    exact ⟨(eq _ mem_cons_self).trans around.1,around.2.1.keep fun v mem => rest v (mem_append_left _ mem),ih around.2.2 fun v mem => rest v (mem_append_right _ mem)⟩

lemma holder_mem (tree : Tree ν) (ctx : List (Turn ν)) : holder tree ctx = tree.root ∨ holder tree ctx ∈ nodes ctx := by
  cases ctx with
  | nil => exact .inl rfl
  | cons f _ => exact .inr mem_cons_self

lemma Around.hole (around : Around tree h ctx k) (apart : (tree.nil :: tree.root :: nodes ctx).Nodup) :
    ∃ c p ne,h (holder tree ctx) = .of (hangs ctx) c p k ne ∧ (k ≠ tree.nil → k ∉ nodes ctx → ne ≠ k) ∧
      ∀ u j,u (holder tree ctx) = .of (hangs ctx) c p j ne → (∀ v,v = tree.root ∨ v ∈ nodes ctx → v ≠ holder tree ctx → u v = h v) → Around tree u ctx j := by
  cases ctx with
  | nil => exact ⟨false,tree.nil,tree.nil,around,fun some _ => some.symm,fun u j hole _ => hole⟩
  | cons f up =>
    refine ⟨f.red,holder tree up,top tree f.sib,around.1,fun some out => ?_,fun u j hole eq => ⟨hole,around.2.1.keep fun v mem => ?_,around.2.2.keep ?_ fun v mem => ?_⟩⟩
    · exact top_ne (fun mem => out (mem_cons_of_mem _ (mem_append_left _ mem))) some
    all_goals simp only [nodes,nodup_cons,mem_cons,mem_append,not_or,nodup_append] at apart
    · exact eq v (.inr (mem_cons_of_mem _ (mem_append_left _ mem))) (by rintro rfl; exact apart.2.2.1.1 mem)
    · exact eq _ (.inl rfl) (fun e => apart.2.1.1 e)
    exact eq v (.inr (mem_cons_of_mem _ (mem_append_right _ mem))) (by rintro rfl; exact apart.2.2.1.2 mem)

lemma sits_cons : Sits tree h (f :: up) t ↔ Sits tree h up (f.wrap t) := by
  have perm : (tree.nil :: tree.root :: (nodes (f :: up) ++ t.list)).Perm (tree.nil :: tree.root :: (nodes up ++ (f.wrap t).list)) := .cons _ (.cons _ nodes_wrap)
  have links : Around tree h (f :: up) (top tree t) ∧ Is tree h f.node t ↔ Around tree h up (top tree (f.wrap t)) ∧ Is tree h (holder tree up) (f.wrap t) := by
    simp only [Around,wrap,top_mk,is_mk]
    tauto
  constructor
  · intro sits
    have both := links.mp ⟨sits.around,sits.here⟩
    exact ⟨both.1,both.2,perm.nodup sits.apart,sits.nilBlack⟩
  intro sits
  have both := links.mpr ⟨sits.around,sits.here⟩
  exact ⟨both.1,both.2,perm.symm.nodup sits.apart,sits.nilBlack⟩

lemma sits_append {k : List (Turn ν)} : Sits tree h (k ++ up) t ↔ Sits tree h up (plug k t) := by
  induction k generalizing t with
  | nil => exact .rfl
  | cons f k ih => exact sits_cons.trans ih

lemma sits_plug : Sits tree h ctx t ↔ Sits tree h [] (plug ctx t) := by
  have outer : Sits tree h (ctx ++ []) t ↔ Sits tree h [] (plug ctx t) := sits_append
  rwa [List.append_nil] at outer

namespace Sits

lemma record (sits : Sits tree h ctx (.mk s c a x b)) : h x = .of s c (holder tree ctx) (top tree a) (top tree b) := (is_mk.mp sits.here).1

lemma red (sits : Sits tree h ctx t) : (h (top tree t)).red = t.isRed := by
  cases t with
  | leaf => exact sits.nilBlack
  | node c l x r => exact congrArg Node.red sits.here.1

lemma parent (sits : Sits tree h ctx t) (some : t ≠ .leaf) : (h (top tree t)).parent = holder tree ctx := by
  cases t with
  | leaf => exact absurd rfl some
  | node c l x r => exact congrArg Node.parent sits.here.1

lemma on_side (sits : Sits tree h (f :: up) t) (some : t ≠ .leaf ∨ f.sib ≠ .leaf) (s : Side) : top tree t = (h f.node).kid s ↔ f.side = s := by
  have differ : top tree t ≠ top tree f.sib := by
    have ne := sits.apart
    simp only [nodes,List.cons_append,List.append_assoc,nodup_cons,nodup_append,mem_cons,mem_append,not_or] at ne
    obtain ⟨⟨-,-,nilSib,-,nilT⟩,-,-,-,-,split⟩ := ne
    rcases top_mem tree t with rfl | inT
    · have inSib : top tree f.sib ∈ f.sib.list := (top_mem _ _).resolve_left (some.resolve_left fun no => no rfl)
      rintro eq
      rw [← eq] at inSib
      exact nilSib inSib
    intro eq
    rcases top_mem tree f.sib with leaf | inSib
    · rw [leaf] at eq
      rw [eq] at inT
      exact nilT inT
    exact split _ inSib _ (.inr inT) eq.symm
  rw [sits.around.1]
  rcases f with ⟨side,c,x,_⟩
  cases side <;> cases s <;> simp [of,kid,differ]

lemma side [DecidableEq ν] (sits : Sits tree h (f :: up) t) (some : t ≠ .leaf ∨ f.sib ≠ .leaf) (eq : top tree t = x) :
    (if x = (h f.node).left then Side.left else Side.right) = f.side := by
  have left := sits.on_side some .left
  rw [eq] at left
  split
  next eq => exact (left.mp eq).symm
  next ne =>
    cases side : f.side
    · exact absurd (left.mpr side) ne
    rfl

lemma kid (sits : Sits tree h ctx (.mk s c a x b)) : Sits tree h (⟨s,c,x,b⟩ :: ctx) a := sits_cons.mpr sits

lemma kid_other (sits : Sits tree h ctx (.mk s c a x b)) : Sits tree h (⟨s.other,c,x,a⟩ :: ctx) b := by
  refine sits_cons.mpr ?_
  unfold wrap
  rw [Shape.mk_other]
  exact sits

lemma keep {k : Heap ν} (sits : Sits tree h ctx t) (eq : ∀ v ∈ tree.nil :: tree.root :: (nodes ctx ++ t.list),k v = h v) : Sits tree k ctx t := by
  refine ⟨sits.around.keep (eq _ (by simp)) fun v mem => eq v (by simp [mem]),sits.here.keep fun v mem => eq v (by simp [mem]),sits.apart,?_⟩
  rw [eq _ (by simp)]
  exact sits.nilBlack

-- What hangs in a hole is replaced: only the holder's link and the new tree's own records matter.
lemma replace {k : Heap ν} (sits : Sits tree h ctx t) (held : k (holder tree ctx) = (h (holder tree ctx)).setKid (hangs ctx) (top tree r))
    (eq : ∀ v,v = tree.root ∨ v ∈ nodes ctx → v ≠ holder tree ctx → k v = h v) (here : Is tree k (holder tree ctx) r)
    (apart : (tree.nil :: tree.root :: (nodes ctx ++ r.list)).Nodup) (black : (k tree.nil).red = false) : Sits tree k ctx r := by
  obtain ⟨c,p,_,record,-,refill⟩ := sits.around.hole (apart.sublist (List.sublist_append_left (tree.nil :: tree.root :: nodes ctx) _))
  refine ⟨refill k _ ?_ eq,here,apart,black⟩
  rw [held,record,of_setKid]

lemma ne_nil (sits : Sits tree h ctx (.mk s c a x b)) : tree.nil ≠ x := by
  rintro rfl
  refine (nodup_cons.mp sits.apart).1 (mem_cons_of_mem _ (mem_append_right _ ?_))
  exact Shape.list_mk.mem_iff.mpr mem_cons_self

lemma hung {k : Heap ν} (sits : Sits tree k ctx t) (link : (h (top tree t)).parent = holder tree ctx) (still : k tree.nil = h tree.nil) :
    (k (top tree t)).parent = holder tree ctx := by
  cases t with
  | leaf =>
    rw [show top tree Shape.leaf = tree.nil from rfl,still]
    exact link
  | node c l x r => exact sits.parent nofun

end Sits

lemma top_plug (ctx : List (Turn ν)) (eq : top tree t = top tree r) : top tree (plug ctx t) = top tree (plug ctx r) := by
  induction ctx generalizing t r with
  | nil => exact eq
  | cons f _ ih => exact ih (top_mk.trans top_mk.symm)

lemma top_plug_cons (f : Turn ν) (up : List (Turn ν)) : top tree (plug (f :: up) t) = top tree (plug (f :: up) r) := top_plug up (top_mk.trans top_mk.symm)

lemma saved_root (s : Side) (c : Bool) (p : ν) (r t u : Shape ν) (up : List (Turn ν)) : top tree (plug (⟨s,c,p,r⟩ :: up) t) = p ∨ top tree (plug (⟨s,c,p,r⟩ :: up) t) = top tree (plug up u) := by
  rcases up with _ | ⟨g,up⟩
  · exact .inl top_mk
  exact .inr (top_plug_cons g up)

lemma top_plug_mem : top tree (plug (f :: up) t) ∈ nodes (f :: up) := by
  induction up generalizing f t with
  | nil =>
    rw [plug,plug,wrap,top_mk]
    exact mem_cons_self
  | cons g _ ih => exact mem_cons_of_mem _ (mem_append_right _ (ih (t := f.wrap t)))

lemma Sits.below_root (sits : Sits tree h (f :: up) t) : top tree t ≠ top tree (plug (f :: up) t) := by
  have ne := sits.apart
  simp only [nodup_cons,mem_cons,mem_append,not_or,nodup_append] at ne
  have root : top tree (plug (f :: up) t) ∈ nodes (f :: up) := top_plug_mem
  rcases top_mem tree t with rfl | mem
  · intro eq
    rw [← eq] at root
    exact ne.1.2.1 root
  exact fun eq => ne.2.2.2.2 _ root _ mem eq.symm

lemma Sits.holder_ne (sits : Sits tree h ctx t) : holder tree ctx ≠ tree.nil ∧ holder tree ctx ∉ t.list := by
  have ne := sits.apart
  simp only [nodup_cons,mem_cons,mem_append,not_or,nodup_append] at ne
  rcases holder_mem tree ctx with root | inside
  · rw [root]
    exact ⟨Ne.symm ne.1.1,ne.2.1.2⟩
  exact ⟨fun eq => ne.1.2.1 (eq ▸ inside),fun mem => ne.2.2.2.2 _ inside _ mem rfl⟩

end Rep

section Writes

variable {ν : Type} [DecidableEq ν] {tree : Tree ν} {h : Heap ν} {p q x y o v : ν} {c d cx cy : Bool} {s side : Side}
  {t a b u : Shape ν} {ctx : List (Turn ν)}

@[simp] lemma setRed_self : setRed x c h x = {h x with red:=c} := update_self ..

lemma setRed_other (ne : v ≠ x) : setRed x c h v = h v := update_of_ne ne ..

lemma Sits.recolor (sits : Sits tree h ctx (.mk s c a x b)) (d : Bool) : Sits tree (setRed x d h) ctx (.mk s d a x b) := by
  have ne := sits.apart
  rw [(((Shape.list_mk.append_left _).cons _).cons _).nodup_iff] at ne
  simp only [nodup_cons,nodup_append,mem_cons,mem_append,not_or] at ne
  have here := is_mk.mp sits.here
  have around := sits.around
  rw [top_mk] at around
  refine ⟨?_,is_mk.mpr ⟨?_,here.2.1.keep fun v mem => setRed_other ?_,here.2.2.keep fun v mem => setRed_other ?_⟩,?_,?_⟩
  · rw [top_mk]
    refine around.keep (setRed_other fun e => ?_) fun v mem => setRed_other ?_
    · exact ne.2.1.2.1 e
    exact ne.2.2.2.2 v mem x (.inl rfl)
  · rw [setRed_self,here.1]
    cases s <;> rfl
  · rintro rfl
    exact ne.2.2.2.1.1.1 mem
  · rintro rfl
    exact ne.2.2.2.1.1.2 mem
  · rw [Shape.list_recolor]
    exact sits.apart
  rw [setRed_other fun e => ne.1.2.2.1 e]
  exact sits.nilBlack

lemma Sits.recolor_other (sits : Sits tree h ctx (.mk s c a x (.mk side cx b y u))) (d : Bool) : Sits tree (setRed y d h) ctx (.mk s c a x (.mk side d b y u)) := by
  have done := sits_cons.mp (sits.kid_other.recolor d)
  unfold wrap at done
  rwa [Shape.mk_other] at done

lemma setRed_idle (eq : (h x).red = c) : setRed x c h = h := by
  unfold setRed
  rw [← eq]
  exact update_eq_self x h

def rotated (tree : Tree ν) (h : Heap ν) (x y q b : ν) (atX atY atQ : Node ν) : Heap ν := fun v =>
  if v = x then atX else if v = y then atY else if v = q then atQ else if v = b ∧ b ≠ tree.nil then {h b with parent:=x} else h v

lemma rotate_eq {cq : Bool} {pq a b c o : ν} (atX : h x = .of s cx q a y) (atY : h y = .of s cy x b c) (atQ : h q = .of side cq pq x o) (other : o ≠ x)
    (xy : x ≠ y) (xq : x ≠ q) (yq : y ≠ q) (bx : b ≠ x) (byy : b ≠ y) (bq : b ≠ q) (xr : x ≠ tree.root) (xn : x ≠ tree.nil) (yn : y ≠ tree.nil) (qn : q ≠ tree.nil)
    (black : (h tree.nil).red = false) :
    rotate tree s x h = some (rotated tree h x y q b (.of s cx y a b) (.of s cy q x c) (.of side cq pq y o)) := by
  have same (k : Heap ν) (eq : k = rotated tree h x y q b (.of s cx y a b) (.of s cy q x c) (.of side cq pq y o)) :
      (if (k tree.nil).red = false then some k else none) = some (rotated tree h x y q b (.of s cx y a b) (.of s cy q x c) (.of side cq pq y o)) := by
    rw [eq,if_pos]
    unfold rotated
    rw [if_neg xn.symm,if_neg yn.symm,if_neg qn.symm,if_neg fun both => both.2 both.1.symm]
    exact black
  have yx := xy.symm
  have qx := xq.symm
  have qy := yq.symm
  have xb := bx.symm
  have yb := byy.symm
  have qb := bq.symm
  have one : setKid s.other x b h = update h x (.of s cx q a b) := by
    unfold setKid
    rw [atX]
    cases s <;> rfl
  have read : (update h x (.of s cx q a b) y).kid s = b := by rw [update_of_ne yx,atY,of_kid]
  unfold rotate
  rw [if_pos (by rw [atX,of_kid_other]; exact ⟨xr,xn,yn⟩)]
  simp only [atX,of_kid_other,atY,of_kid,one,read]
  generalize step : (if b ≠ tree.nil then setParent b x (update h x (.of s cx q a b)) else update h x (.of s cx q a b)) = k
  have stepX : k x = .of s cx q a b := by
    rw [← step]
    split
    · rw [setParent,update_of_ne xb,update_self]
    rw [update_self]
  have stepRest (v) (ne : v ≠ x) : k v = if v = b ∧ b ≠ tree.nil then {h b with parent:=x} else h v := by
    rw [← step]
    by_cases nb : b = tree.nil
    · rw [if_neg (not_not.mpr nb),if_neg fun both => both.2 nb,update_of_ne ne]
    rw [if_pos nb,setParent,update_of_ne bx]
    by_cases vb : v = b
    · rw [if_pos ⟨vb,nb⟩,vb,update_self]
    rw [if_neg fun both => vb both.1,update_of_ne vb,update_of_ne ne]
  have stepY : k y = .of s cy x b c := by rw [stepRest y yx,if_neg fun both => yb both.1,atY]
  have stepQ : k q = .of side cq pq x o := by rw [stepRest q qx,if_neg fun both => qb both.1,atQ]
  have two : setParent y q k = update k y (.of s cy q b c) := by
    unfold setParent
    rw [stepY]
    cases s <;> rfl
  have third (m : Heap ν) (atQ : m q = .of side cq pq x o) : (if x = (m q).kid s then setKid s q y m else setKid s.other q y m) = update m q (.of side cq pq y o) := by
    unfold setKid
    rw [atQ]
    cases s <;> cases side <;> simp [of,kid,Node.setKid,Side.other,other.symm]
  have fourth (m : Heap ν) (atY : m y = .of s cy q b c) : setKid s y x m = update m y (.of s cy q x c) := by
    unfold setKid
    rw [atY]
    cases s <;> rfl
  have fifth (m : Heap ν) (atX : m x = .of s cx q a b) : setParent x y m = update m x (.of s cx y a b) := by
    unfold setParent
    rw [atX]
    cases s <;> rfl
  simp only [stepX,of_parent,two,update_of_ne xy]
  rw [third _ (by rw [update_of_ne qy,stepQ]),fourth _ (by rw [update_of_ne yq,update_self]),fifth _ (by rw [update_of_ne xy,update_of_ne xq,update_of_ne xy,stepX])]
  refine same _ (funext fun v => ?_)
  unfold rotated
  by_cases vx : v = x
  · rw [vx,update_self,if_pos rfl]
  rw [update_of_ne vx,if_neg vx]
  by_cases vy : v = y
  · rw [vy,update_self,if_pos rfl]
  rw [update_of_ne vy,if_neg vy]
  by_cases vq : v = q
  · rw [vq,update_self,if_pos rfl]
  rw [update_of_ne vq,if_neg vq,update_of_ne vy,stepRest v vx]

lemma Sits.rotate {u : Shape ν} (sits : Sits tree h ctx (.mk s cx a x (.mk s cy b y u))) :
    ∃ k,rotate tree s x h = some k ∧ Sits tree k ctx (.mk s cy (.mk s cx a x b) y u) ∧ k tree.nil = h tree.nil := by
  have perm : (Shape.mk s cx a x (.mk s cy b y u)).list.Perm (x :: y :: (a.list ++ (b.list ++ u.list))) := by
    refine Shape.list_mk.trans (.cons _ ?_)
    exact (Shape.list_mk.append_left _).trans List.perm_middle
  have apart := sits.apart
  rw [(((perm.append_left _).cons _).cons _).nodup_iff] at apart
  have away : (tree.nil :: tree.root :: nodes ctx).Nodup := apart.sublist (List.sublist_append_left (tree.nil :: tree.root :: nodes ctx) _)
  simp only [nodup_cons,nodup_append,mem_cons,mem_append,not_or] at apart
  obtain ⟨⟨nr,nc,nx,ny,_,nb,_⟩,⟨_,rx,ry,ra,rb,ru⟩,_,⟨⟨xy,xa,xb,xu⟩,⟨ya,yb,yu⟩,_,⟨nodupB,_,bu⟩,ab⟩,outside⟩ := apart
  obtain ⟨atX,hereA,below⟩ := is_mk.mp sits.here
  obtain ⟨atY,hereB,hereU⟩ := is_mk.mp below
  have around := sits.around
  rw [top_mk] at around atX
  obtain ⟨cq,pq,o,atQ,ne,refill⟩ := around.hole away
  replace ne := ne (Ne.symm nx) fun mem => outside x mem x (.inl rfl) rfl
  have inside := holder_mem tree ctx
  generalize holding : holder tree ctx = q at *
  have xq : x ≠ q := by
    rintro rfl
    exact inside.elim (Ne.symm rx) fun mem => outside x mem x (.inl rfl) rfl
  have yq : y ≠ q := by
    rintro rfl
    exact inside.elim (Ne.symm ry) fun mem => outside y mem y (.inr (.inl rfl)) rfl
  have qb : q ∉ b.list := fun mem => inside.elim (fun eq => rb (eq ▸ mem)) fun held => outside q held q (.inr (.inr (.inr (.inl mem)))) rfl
  have qn : q ≠ tree.nil := by
    rintro rfl
    exact inside.elim nr nc
  refine ⟨_,rotate_eq atX atY atQ ne xy xq yq (top_ne xb (Ne.symm nx)) (top_ne yb (Ne.symm ny)) (top_ne qb qn) (Ne.symm rx) (Ne.symm nx) (Ne.symm ny) qn sits.nilBlack,?_⟩
  generalize done : rotated tree h x y q (top tree b) (.of s cx y (top tree a) (top tree b)) (.of s cy q x (top tree u)) (.of (hangs ctx) cq pq y o) = k
  have kept (v) (vx : v ≠ x) (vy : v ≠ y) (vq : v ≠ q) (out : v ∉ b.list) : k v = h v := by
    rw [← done,rotated,if_neg vx,if_neg vy,if_neg vq,if_neg]
    rintro ⟨rfl,some⟩
    exact top_ne out some rfl
  have doneX : k x = .of s cx y (top tree a) (top tree b) := by rw [← done,rotated,if_pos rfl]
  have doneY : k y = .of s cy q x (top tree u) := by rw [← done,rotated,if_neg (Ne.symm xy),if_pos rfl]
  have doneQ : k q = .of (hangs ctx) cq pq y o := by rw [← done,rotated,if_neg xq.symm,if_neg yq.symm,if_pos rfl]
  have aside (v) (mem : v ∈ a.list ∨ v ∈ b.list ∨ v ∈ u.list) : v ≠ q := by
    rintro rfl
    rcases inside with eq | held
    · subst eq
      exact mem.elim ra fun m => m.elim rb ru
    exact outside v held v (.inr (.inr (by simpa using mem))) rfl
  have still : k tree.nil = h tree.nil := kept _ nx ny qn.symm nb
  refine ⟨⟨?_,?_,?_,?_⟩,still⟩
  · rw [top_mk]
    refine refill k y doneQ fun v mem vq => ?_
    rcases mem with rfl | mem
    · exact kept _ rx ry vq rb
    exact kept _ (outside v mem x (.inl rfl)) (outside v mem y (.inr (.inl rfl))) vq fun no => outside v mem v (.inr (.inr (.inr (.inl no)))) rfl
  · rw [is_mk,is_mk,top_mk,holding]
    refine ⟨doneY,⟨doneX,hereA.keep fun v mem => ?_,hereB.rehang nodupB (fun some => ?_) fun v mem away => ?_⟩,hereU.keep fun v mem => ?_⟩
    · exact kept v (by rintro rfl; exact xa mem) (by rintro rfl; exact ya mem) (aside v (.inl mem)) fun no => ab v mem v (.inl no) rfl
    · have mem : top tree b ∈ b.list := (top_mem _ _).resolve_left some
      have real : top tree b ≠ tree.nil := fun eq => nb (eq ▸ mem)
      rw [← done,rotated,if_neg (top_ne xb (Ne.symm nx)),if_neg (top_ne yb (Ne.symm ny)),if_neg (top_ne qb qn),if_pos ⟨rfl,real⟩]
    · rw [← done,rotated,if_neg (by rintro rfl; exact xb mem),if_neg (by rintro rfl; exact yb mem),if_neg (aside v (.inr (.inl mem))),if_neg fun both => away both.1]
    exact kept v (by rintro rfl; exact xu mem) (by rintro rfl; exact yu mem) (aside v (.inr (.inr mem))) fun no => bu v no v mem rfl
  · rw [← Shape.list_rotate]
    exact sits.apart
  rw [still]
  exact sits.nilBlack

end Writes

end Ucore.Rb

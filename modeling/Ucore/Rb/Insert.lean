import Ucore.Rb.Heap

namespace Ucore.Rb
open Option (bind_eq_bind bind_some pure_def)
open List hiding after pure_def

open Trees Trees.Turn Trees.Shape Node
open Function (update_of_ne update_self)

structure Tree.Total {ν : Type} (tree : Tree ν) : Prop where
  total : ∀ a b,tree.compare a b ≤ 0 ∨ tree.compare b a ≤ 0
  trans : ∀ a b c,tree.compare a b ≤ 0 → tree.compare b c ≤ 0 → tree.compare a c ≤ 0

def Tree.Sorted {ν : Type} (tree : Tree ν) (l : List ν) : Prop := l.Pairwise fun a b => tree.compare a b ≤ 0

section Descent

variable {ν : Type} {tree : Tree ν} {h k : Heap ν} {x y z p g : ν} {c : Bool} {t u l r : Shape ν} {ctx up : List (Turn ν)} {n fuel : Nat}

structure Descends (tree : Tree ν) (z : ν) (ctx : List (Turn ν)) : Prop where
  below : ∀ v ∈ before ctx,tree.compare v z ≤ 0
  above : ∀ v ∈ after ctx,0 < tree.compare v z
  last : ∀ f up,ctx = f :: up → (0 < tree.compare f.node z ↔ f.side = .left)

lemma descend_run [DecidableEq ν] (total : tree.Total) (sits : Sits tree h ctx t) (enough : t.size < fuel) (sorted : tree.Sorted (plug ctx t).list)
    (path : Descends tree z ctx) : ∃ out,descend tree z h fuel (top tree t) (holder tree ctx) = some (holder tree out) ∧
      plug out .leaf = plug ctx t ∧ Descends tree z out := by
  induction t generalizing ctx fuel with
  | leaf =>
    obtain ⟨fuel,rfl⟩ := Nat.exists_eq_add_of_lt enough
    exact ⟨ctx,if_pos rfl,rfl,path⟩
  | node c l x r ihl ihr =>
    obtain ⟨fuel,rfl⟩ : ∃ m,fuel = m + 1 := ⟨fuel - 1,by omega⟩
    simp only [Shape.size] at enough
    have real : x ≠ tree.nil := by
      rintro rfl
      exact (nodup_cons.mp sits.apart).1 (by simp [Shape.list])
    have here : tree.Sorted (l.list ++ x :: r.list) := by
      unfold Tree.Sorted at sorted
      rw [list_plug] at sorted
      exact (pairwise_append.mp (pairwise_append.mp sorted).2.1).1
    obtain ⟨-,right,left⟩ := pairwise_append.mp here
    have record : h x = ⟨c,holder tree ctx,top tree l,top tree r⟩ := sits.here.1
    have step : descend tree z h (fuel + 1) (top tree (.node c l x r)) (holder tree ctx) =
        descend tree z h fuel (if 0 < tree.compare x z then (h x).left else (h x).right) x := if_neg real
    rw [step]
    by_cases greater : 0 < tree.compare x z
    · rw [if_pos greater,record]
      have below : Sits tree h (⟨.left,c,x,r⟩ :: ctx) l := Sits.kid (s := .left) sits
      refine ihl below (by omega) sorted ⟨?_,?_,?_⟩
      · simpa [before] using path.below
      · simp only [after,mem_append,mem_cons]
        rintro v ((rfl | mem) | mem)
        · exact greater
        · by_contra less
          have := total.trans x v z ((pairwise_cons.mp right).1 v mem) (by omega)
          omega
        exact path.above v mem
      rintro f up eq
      injection eq with eq
      subst eq
      exact ⟨fun _ => rfl,fun _ => greater⟩
    rw [if_neg greater,record]
    have below : Sits tree h (⟨.right,c,x,l⟩ :: ctx) r := Sits.kid (s := .right) sits
    refine ihr below (by omega) sorted ⟨?_,?_,?_⟩
    · simp only [before,mem_append,mem_singleton]
      rintro v (mem | (mem | rfl))
      · exact path.below v mem
      · exact total.trans v x z (left v mem x mem_cons_self) (by omega)
      omega
    · simpa [after] using path.above
    rintro f _ eq
    injection eq with eq
    subst eq
    exact ⟨fun no => absurd no greater,by simp⟩

lemma Sits.attach (sits : Sits tree h ctx .leaf) (new : z ∉ tree.nil :: tree.root :: nodes ctx) (record : k z = ⟨c,holder tree ctx,tree.nil,tree.nil⟩)
    (held : k (holder tree ctx) = (h (holder tree ctx)).setKid (hangs ctx) z) (eq : ∀ v ≠ z,v ≠ holder tree ctx → k v = h v) :
    Sits tree k ctx (.node c .leaf z .leaf) := by
  simp only [mem_cons,not_or] at new
  have ne := sits.apart
  simp only [Shape.list,append_nil] at ne
  have away : tree.nil ≠ holder tree ctx := by
    intro eq
    rcases holder_mem tree ctx with root | inside
    · exact (nodup_cons.mp ne).1 (by simp [eq,root])
    exact (nodup_cons.mp ne).1 (by simp [eq,inside])
  refine sits.replace held (fun v inside off => eq v ?_ off) ⟨record,trivial,trivial⟩ ?_ ?_
  · rintro rfl
    exact inside.elim new.2.1 new.2.2
  · rw [show tree.nil :: tree.root :: (nodes ctx ++ (Shape.node c .leaf z .leaf).list) = (tree.nil :: tree.root :: nodes ctx) ++ [z] from rfl,nodup_append]
    refine ⟨ne,nodup_singleton z,fun v mem w last => ?_⟩
    rw [mem_singleton.mp last]
    rintro rfl
    simp only [mem_cons] at mem
    exact mem.elim new.1 fun m => m.elim new.2.1 new.2.2
  rw [eq _ (Ne.symm new.1) away]
  exact sits.nilBlack

def Rooted (t : Shape ν) : Prop := ∃ c l x r m,t = .node c l x r ∧ (Shape.node false l x r).Balanced m

lemma Rooted.of_plug (room : Room ctx t.isRed n) (valid : t.Balanced n) (real : t ≠ .leaf) : Rooted (plug ctx t) := by
  obtain ⟨⟨m,balanced⟩,black⟩ := room.plug valid
  cases all : plug ctx t with
  | leaf =>
    have := congrArg Shape.list all
    rw [list_plug] at this
    cases t with
    | leaf => exact absurd rfl real
    | node c l x r => simp [Shape.list] at this
  | node c l x r =>
    rw [all] at balanced black
    cases black
    exact ⟨false,l,x,r,m,rfl,balanced⟩

end Descent

section Fixup

variable {ν : Type} [DecidableEq ν] {tree : Tree ν} {h k : Heap ν} {x y z p g : ν} {c : Bool} {s side : Side} {t u a b l r : Shape ν} {ctx up : List (Turn ν)} {n fuel : Nat}

lemma rbInsertSub_uncle (sits : Sits tree h (⟨s,true,p,b⟩ :: ⟨side,false,g,u⟩ :: up) t) (real : t ≠ .leaf) (red : u.isRed = true) :
    ∃ k v,rbInsertSub tree side (top tree t) h = some (g,k) ∧ Sits tree k up (.mk side true (.mk s false t p b) g v) ∧ v.list = u.list ∧
      v.isRed = false ∧ ∀ n,u.Balanced n → v.Balanced (n + 1) := by
  rcases node_mk side u with rfl | ⟨c,ul,y,ur,rfl⟩
  · cases red
  rw [isRed_mk] at red
  subst red
  have all := sits_cons.mp (sits_cons.mp sits)
  have one := (sits_cons.mp sits).recolor false
  have two := (sits_cons.mp one).kid_other.recolor false
  have joined := sits_cons.mp two
  unfold wrap at joined
  dsimp only at joined
  rw [mk_other] at joined
  have third := joined.recolor true
  have uncle : (h g).kid side.other = y := by rw [all.record,of_kid_other,top_mk]
  have isRed : (h y).red = true := by rw [all.kid_other.record,of_red]
  have parent : (h (top tree t)).parent = p := sits.parent real
  have grand : (h p).parent = g := by rw [(sits_cons.mp sits).record,of_parent]; rfl
  have parent2 := joined.kid.kid.parent real
  have grand2 := congrArg Node.parent joined.kid.record
  have parent3 := third.kid.kid.parent real
  have grand3 := congrArg Node.parent third.kid.record
  simp only [holder,of_parent] at parent2 grand2 parent3 grand3
  refine ⟨_,.mk side false ul y ur,?_,third,list_recolor,isRed_mk,fun n valid => ?_⟩
  · unfold rbInsertSub
    simp [parent,grand,uncle,isRed,parent2,grand2,parent3,grand3]
  exact balanced_black.mpr (balanced_red.mp valid).2.2

lemma insert_outer (sits : Sits tree h (⟨s,true,p,b⟩ :: ⟨s,false,g,u⟩ :: up) t) (real : t ≠ .leaf) (eq : x = top tree t) :
    ∃ k,(let h := setRed (h x).parent false h
      let h := setRed (h (h x).parent).parent true h
      rotate tree s.other (h (h x).parent).parent h) = some k ∧ Sits tree k (⟨s,false,p,.mk s true b g u⟩ :: up) t := by
  subst eq
  have one := (sits_cons.mp sits).recolor false
  have two := (sits_cons.mp one).recolor true
  dsimp only [wrap] at two
  have turned := two
  rw [← mk_other,← mk_other (s := s) (c := false)] at turned
  obtain ⟨k,ran,done,-⟩ := turned.rotate
  rw [mk_other,mk_other] at done
  refine ⟨k,?_,done.kid⟩
  have parent := sits.parent real
  have parent1 := one.kid.parent real
  have grand1 := congrArg Node.parent one.record
  have parent2 := two.kid.kid.parent real
  have grand2 := congrArg Node.parent two.kid.record
  simp only [holder,of_parent] at parent parent1 grand1 parent2 grand2
  simp only [parent,parent1,grand1,parent2,grand2]
  exact ran

lemma rbInsertSub_rotate (sits : Sits tree h (⟨s,true,p,b⟩ :: ⟨side,false,g,u⟩ :: up) t) (red : t.isRed = true) (black : u.isRed = false)
    (valid : t.Balanced n) (balB : b.Balanced n) (blackB : b.isRed = false) (balU : u.Balanced n) :
    ∃ k x m v w,rbInsertSub tree side (top tree t) h = some (top tree x,k) ∧ x ≠ .leaf ∧ Sits tree k (⟨side,false,m,.mk side true v g w⟩ :: up) x ∧
      (Shape.mk side false x m (.mk side true v g w)).list = (Shape.mk side false (.mk s true t p b) g u).list ∧
      (Shape.mk side false x m (.mk side true v g w)).Balanced (n + 1) := by
  have real : t ≠ .leaf := by
    rintro rfl
    cases red
  have all := sits_cons.mp (sits_cons.mp sits)
  have uncle : (h g).kid side.other = top tree u := by rw [all.record,of_kid_other]
  have isRed : (h (top tree u)).red = false := by rw [all.kid_other.red,black]
  have parent : (h (top tree t)).parent = p := sits.parent real
  have grand : (h p).parent = g := by rw [(sits_cons.mp sits).record,of_parent]; rfl
  by_cases inner : s = side.other
  · subst inner
    obtain rfl | ⟨c,xa,x,xb,rfl⟩ := node_mk side t
    · exact absurd rfl real
    rw [isRed_mk] at red
    subst red
    have here := sits_cons.mp sits
    dsimp only [wrap] at here
    rw [mk_other] at here
    obtain ⟨k,ran,done,-⟩ := here.rotate
    obtain ⟨m,again,outer⟩ := insert_outer (x := p) done.kid (by cases side <;> nofun) top_mk.symm
    rw [top_mk] at parent
    have test : x = (h p).kid side.other := by rw [here.record,of_kid_other,top_mk]
    obtain ⟨blackA,blackB',balA,balB'⟩ := balanced_red.mp valid
    refine ⟨m,.mk side true b p xa,x,xb,u,?_,by cases side <;> nofun,outer,?_,?_⟩
    · simp only [rbInsertSub,top_mk,parent,grand,uncle,isRed,← test,if_true,ran,bind_eq_bind,bind_some,pure_def]
      simp only at again
      rw [again]
      rfl
    · cases side <;> simp [Shape.mk,Shape.list,Side.other]
    simp only [balanced_black,balanced_red]
    exact ⟨⟨blackB,blackA,balB,balA⟩,blackB',black,balB',balU⟩
  have out : s = side := by cases s <;> cases side <;> first | rfl | exact absurd rfl inner
  subst out
  obtain ⟨m,again,outer⟩ := insert_outer sits real rfl
  have test : top tree t ≠ (h p).kid s.other := fun eq => inner ((sits.on_side (.inl real) s.other).mp eq)
  refine ⟨m,t,p,b,u,?_,real,outer,?_,?_⟩
  · simp only [rbInsertSub,parent,grand,uncle,isRed,if_neg test,bind_eq_bind,bind_some,pure_def]
    simp only [parent] at again
    rw [again]
    rfl
  · cases s <;> simp [Shape.mk,Shape.list]
  simp only [balanced_black,balanced_red]
  exact ⟨valid,blackB,black,balB,balU⟩

lemma rbInsertFixup_run (sits : Sits tree h ctx t) (red : t.isRed = true) (valid : t.Balanced n) (room : Room ctx false n) (enough : ctx.length < fuel) :
    ∃ k T,rbInsertFixup tree fuel (top tree t) h = some k ∧ Sits tree k [] T ∧ T.list = (plug ctx t).list ∧ Rooted T := by
  induction fuel generalizing ctx t n h with
  | zero => omega
  | succ fuel ih =>
    have real : t ≠ .leaf := by
      rintro rfl
      cases red
    have parent := sits.parent real
    rcases ctx with _ | ⟨⟨s,c,p,b⟩,rest⟩
    · -- x is the root of the tree: the sentinel above it is black.
      have black : (h tree.root).red = false := by rw [show h tree.root = _ from sits.around]
      refine ⟨h,t,?_,sits,rfl,?_⟩
      · rw [rbInsertFixup,parent]
        exact if_neg (by rw [show holder tree [] = tree.root from rfl,black]; simp)
      cases t with
      | leaf => exact absurd rfl real
      | node c l x r =>
        cases red
        exact ⟨true,l,x,r,n + 1,rfl,n,rfl,valid.2.2⟩
    have here := sits_cons.mp sits
    have color : (h p).red = c := by rw [here.record,of_red]
    cases c with
    | false =>
      refine ⟨h,_,?_,sits_plug.mp sits,rfl,?_⟩
      · rw [rbInsertFixup,parent]
        exact if_neg (by rw [show holder tree (⟨s,false,p,b⟩ :: rest) = p from rfl,color]; simp)
      refine Rooted.of_plug (n := n) ?_ valid real
      exact ⟨room.1,room.2⟩
    | true =>
      obtain ⟨balB,-,blackB,above⟩ := room
      rcases rest with _ | ⟨⟨side,c,g,u⟩,up⟩
      · cases above
      obtain ⟨balU,rest⟩ := above
      cases c with
      | true => cases rest.1
      | false =>
        have grand : (h p).parent = g := by rw [here.record,of_parent]; rfl
        have turn : (if (h (top tree t)).parent = (h (h (h (top tree t)).parent).parent).left then Side.left else Side.right) = side := by
          rw [parent,show holder tree (⟨s,true,p,b⟩ :: ⟨side,false,g,u⟩ :: up) = p from rfl,grand]
          exact here.side (.inl (by cases s <;> rintro ⟨⟩)) top_mk
        have loops : (h (h (top tree t)).parent).red = true := by rw [parent]; exact color
        have step : rbInsertFixup tree (fuel + 1) (top tree t) h = (rbInsertSub tree side (top tree t) h).bind fun w => rbInsertFixup tree fuel w.1 w.2 := by
          rw [rbInsertFixup,if_pos loops,turn]
          rfl
        rw [step]
        simp only [length_cons] at enough
        cases uncle : u.isRed with
        | true =>
          obtain ⟨k,v,ran,next,list,blackV,balV⟩ := rbInsertSub_uncle sits real uncle
          rw [ran]
          obtain ⟨m,T,run,root,eq,rooted⟩ := ih (n := n + 1) next isRed_mk
            (balanced_red.mpr ⟨isRed_mk,blackV,balanced_black.mpr ⟨valid,balB⟩,balV n balU⟩) rest (by omega)
          rw [top_mk] at run
          refine ⟨m,T,run,root,eq.trans (list_plug_congr _ ?_),rooted⟩
          cases s <;> cases side <;> simp [Shape.mk,Shape.list,list,wrap]
        | false =>
          obtain ⟨k,x,m,v,w,ran,realX,next,list,balanced⟩ := rbInsertSub_rotate sits red uncle valid balB blackB balU
          rw [ran]
          obtain ⟨fuel,rfl⟩ : ∃ j,fuel = j + 1 := ⟨fuel - 1,by omega⟩
          have done := sits_cons.mp next
          refine ⟨k,_,?_,sits_plug.mp done,list_plug_congr _ list,Rooted.of_plug (n := n + 1) ?_ balanced (by cases side <;> rintro ⟨⟩)⟩
          · show rbInsertFixup tree (fuel + 1) (top tree x) k = some k
            rw [rbInsertFixup,next.parent realX]
            exact if_neg (by rw [show holder tree (⟨side,false,m,.mk side true v g w⟩ :: up) = m from rfl,done.record,of_red]; simp)
          dsimp [wrap]
          rw [isRed_mk]
          exact rest

lemma rbInsert_run (total : tree.Total) (sits : Sits tree h [] t) (black : t.isRed = false) (valid : t.Balanced n) (sorted : tree.Sorted t.list)
    (new : z ∉ tree.nil :: tree.root :: t.list) (enough : t.size + 1 < fuel) :
    ∃ k T lo hi m,rbInsert tree fuel z h = some k ∧ Sits tree k [] T ∧ T.isRed = false ∧ T.Balanced m ∧ t.list = lo ++ hi ∧ T.list = lo ++ z :: hi ∧
      (∀ v ∈ lo,tree.compare v z ≤ 0) ∧ ∀ v ∈ hi,0 < tree.compare v z := by
  simp only [mem_cons,not_or] at new
  obtain ⟨zn,zr,zt⟩ := new
  generalize start : setKid .left z tree.nil (setKid .right z tree.nil h) = h0
  have off (v) (ne : v ≠ z) : h0 v = h v := by rw [← start,setKid,update_of_ne ne,setKid,update_of_ne ne]
  have cleared : (h0 z).left = tree.nil ∧ (h0 z).right = tree.nil := by
    rw [← start,setKid,update_self,setKid,update_self]
    exact ⟨rfl,rfl⟩
  have sits0 : Sits tree h0 [] t := sits.keep fun v mem => off v <| by
    rintro rfl
    simp only [mem_cons,nodes,nil_append] at mem
    exact mem.elim zn fun m => m.elim zr zt
  obtain ⟨out,ran,plugs,path⟩ := descend_run (z := z) total sits0 (by omega : t.size < fuel) sorted ⟨by rintro _ ⟨⟩,by rintro _ ⟨⟩,by simp⟩
  rw [plug] at plugs
  have hole : Sits tree h0 out .leaf := sits_plug.mpr (plugs ▸ sits0)
  have freshOut : z ∉ tree.nil :: tree.root :: nodes out := by
    simp only [mem_cons,not_or]
    refine ⟨zn,zr,fun mem => zt ?_⟩
    have := (nodes_plug out .leaf).mem_iff.mp (mem_append_left _ mem)
    rwa [plugs] at this
  have away : holder tree out ≠ z := by
    rintro rfl
    rcases holder_mem tree out with root | inside
    · exact zr root
    exact freshOut (by simp [inside])
  have test : (holder tree out = tree.root ∨ 0 < tree.compare (holder tree out) z) ↔ hangs out = .left := by
    rcases out with _ | ⟨f,up⟩
    · exact ⟨fun _ => rfl,fun _ => .inl rfl⟩
    have apart := hole.apart
    simp only [nodup_cons,nodes,cons_append,mem_cons,not_or] at apart
    exact ⟨fun either => (path.last f up rfl).mp (either.resolve_left fun e => apart.2.1.1 e.symm),fun left => .inr ((path.last f up rfl).mpr left)⟩
  have linked (m : Heap ν) : (if holder tree out = tree.root ∨ 0 < tree.compare (holder tree out) z then setKid .left (holder tree out) z m else setKid .right (holder tree out) z m) =
      setKid (hangs out) (holder tree out) z m := by
    split
    next left => rw [test.mp left]
    next right =>
      cases side : hangs out
      · exact absurd (test.mpr side) right
      rfl
  have attached : Sits tree (setRed z true (setKid (hangs out) (holder tree out) z (setParent z (holder tree out) h0))) out (.node true .leaf z .leaf) := by
    refine hole.attach freshOut ?_ ?_ fun v vz vy => ?_
    · rw [setRed_self,setKid,update_of_ne away.symm,setParent,update_self]
      simp [cleared.1,cleared.2]
    · rw [setRed_other away,setKid,update_self,setParent,update_of_ne away]
    rw [setRed_other vz,setKid,update_of_ne vy,setParent,update_of_ne vz]
  obtain ⟨m,room,zero⟩ := Room.of_plug out (t := .leaf) (plugs.symm ▸ valid) (plugs.symm ▸ black)
  cases zero
  have short := length_le_size out .leaf
  rw [plugs] at short
  obtain ⟨k,T,run,root,list,c,l,x,r,m,rfl,balanced⟩ := rbInsertFixup_run attached rfl ⟨rfl,rfl,rfl,rfl⟩ room (by omega : out.length < fuel)
  have done := Sits.recolor (s := .left) root false
  have link : (k tree.root).left = x := congrArg Node.left root.around
  refine ⟨setRed x false k,.node false l x r,before out,after out,m,?_,done,rfl,balanced,?_,?_,path.below,path.above⟩
  · have binary : rbInsertBinary tree fuel z h = some (setKid (hangs out) (holder tree out) z (setParent z (holder tree out) h0)) := by
      unfold rbInsertBinary
      rw [start]
      have reads : (h0 tree.root).left = top tree t := congrArg Node.left sits0.around
      simp only [reads]
      rw [show tree.root = holder tree [] from rfl,ran]
      exact congrArg some (linked _)
    unfold rbInsert
    rw [binary]
    simp only [bind_eq_bind,bind_some]
    rw [show rbInsertFixup tree fuel z _ = some k from run]
    simp only [bind_some,link]
    exact if_pos ⟨done.nilBlack,congrArg Node.red done.around⟩
  · rw [← plugs,list_plug]
    rfl
  have := list
  rw [list_plug] at this
  exact this

end Fixup

end Ucore.Rb

import Ucore.Rb.Fixup
import Ucore.Rb.Insert

namespace Ucore.Rb
open List

open Trees Trees.Turn Sits
open Function (update update_of_ne update_self)

variable {ν : Type} [DecidableEq ν] {tree : Tree ν} {h m : Heap ν} {x y z p : ν} {c d : Bool} {t l r : Shape ν} {ctx up : List (Turn ν)} {n fuel : Nat}

lemma leftmost_run (sits : Sits tree h ctx t) (real : t ≠ .leaf) (enough : t.size ≤ fuel) :
    ∃ k c y r,leftmost tree h fuel (top tree t) = some y ∧ t = plug k (.node c .leaf y r) ∧ before k = [] := by
  induction t generalizing ctx fuel with
  | leaf => exact absurd rfl real
  | node c l x r ihl _ =>
    obtain ⟨fuel,rfl⟩ : ∃ m,fuel = m + 1 := ⟨fuel - 1,by simp only [Shape.size] at enough; omega⟩
    have left : (h (top tree (.node c l x r))).left = top tree l := congrArg Node.left sits.here.1
    cases l with
    | leaf => exact ⟨[],c,x,r,by rw [leftmost,left]; exact if_neg (not_not.mpr rfl),rfl,rfl⟩
    | node d a v b =>
      have below := kid (s := .left) sits
      have realV : top tree (.node d a v b) ≠ tree.nil := (ne_nil (s := .left) below).symm
      simp only [Shape.size] at enough
      obtain ⟨k,e,y,u,ran,whole,one⟩ := ihl below (by simp) (by simp only [Shape.size]; omega : (Shape.node d a v b).size ≤ fuel)
      refine ⟨k ++ [⟨.left,c,x,r⟩],e,y,u,?_,?_,?_⟩
      · rw [leftmost,left,if_pos realV]
        exact ran
      · rw [plug_append,← whole]
        rfl
      rw [before_append,one]
      rfl

lemma relink_eq (sits : Sits tree h ctx t) (real : t ≠ .leaf) (link : (m (top tree t)).parent = holder tree ctx) (held : m (holder tree ctx) = h (holder tree ctx)) :
    relink (top tree t) x m = setKid (hangs ctx) (holder tree ctx) x m := by
  have ne := sits.apart
  have mem : top tree t ∈ t.list := (top_mem _ _).resolve_left real
  obtain ⟨c,p,_,record,differs,-⟩ := sits.around.hole (ne.sublist (sublist_append_left (tree.nil :: tree.root :: nodes ctx) _))
  simp only [nodup_cons,mem_cons,mem_append,not_or,nodup_append] at ne
  have off := differs (fun eq => ne.1.2.2 (eq ▸ mem)) fun low => ne.2.2.2.2 _ low _ mem rfl
  unfold relink
  rw [link,held,record]
  cases hangs ctx
  · exact if_pos rfl
  exact if_neg off.symm

lemma splice_run (sits : Sits tree h ctx (.node c l y r)) (one : t = l ∧ r = .leaf ∨ t = r ∧ l = .leaf) :
    ∃ m,relink y (top tree t) (setParent (top tree t) (h y).parent h) = m ∧ Sits tree m ctx t ∧ (m (top tree t)).parent = holder tree ctx ∧ m y = h y := by
  have parent : (h y).parent = holder tree ctx := congrArg Node.parent sits.here.1
  have list : (Shape.node c l y r).list.Perm (y :: t.list) := by
    rcases one with ⟨rfl,rfl⟩ | ⟨rfl,rfl⟩
    · exact perm_append_comm
    exact .refl _
  have below : Is tree h y t := by
    rcases one with ⟨rfl,-⟩ | ⟨rfl,-⟩
    · exact sits.here.2.1
    exact sits.here.2.2
  have ne := sits.apart
  rw [(((list.append_left _).cons _).cons _).nodup_iff] at ne
  have smaller : (tree.nil :: tree.root :: (nodes ctx ++ t.list)).Nodup :=
    ne.sublist (((sublist_cons_self y _).append_left _).cons_cons _ |>.cons_cons _)
  simp only [nodup_cons,mem_cons,mem_append,not_or,nodup_append] at ne
  obtain ⟨⟨nr,nc,ny,_⟩,⟨_,_,rt⟩,-,⟨yt,nodup⟩,outside⟩ := ne
  have away := sits.holder_ne
  have awayT : holder tree ctx ≠ top tree t := by
    refine (top_ne (fun mem => away.2 ?_) away.1).symm
    exact list.mem_iff.mpr (mem_cons_of_mem _ mem)
  have awayY : holder tree ctx ≠ y := fun same => away.2 (list.mem_iff.mpr (by simp [same]))
  have topY : y ≠ top tree t := (top_ne yt (Ne.symm ny)).symm
  refine ⟨_,rfl,?_⟩
  rw [parent]
  have eq : relink y (top tree t) (setParent (top tree t) (holder tree ctx) h) = setKid (hangs ctx) (holder tree ctx) (top tree t) (setParent (top tree t) (holder tree ctx) h) := by
    refine relink_eq sits nofun ?_ ?_
    · exact (congrArg Node.parent (update_of_ne topY _ _)).trans parent
    exact update_of_ne awayT _ _
  rw [eq]
  generalize done : setKid (hangs ctx) (holder tree ctx) (top tree t) (setParent (top tree t) (holder tree ctx) h) = m
  have atTop : m (top tree t) = {h (top tree t) with parent:=holder tree ctx} := by rw [← done,setKid,update_of_ne awayT.symm,setParent,update_self]
  have rest (v) (out : v ≠ holder tree ctx) (off : v ≠ top tree t) : m v = h v := by rw [← done,setKid,update_of_ne out,setParent,update_of_ne off]
  refine ⟨sits.replace ?_ (fun v mem off => rest v off ?_) ?_ smaller ?_,by rw [atTop],rest y awayY.symm topY⟩
  · rw [← done,setKid,update_self,setParent,update_of_ne awayT]
  · refine (top_ne (fun low => ?_) ?_).symm
    · exact mem.elim (fun same => rt (same ▸ low)) fun held => outside v held v (.inr low) rfl
    rintro rfl
    exact mem.elim nr nc
  · exact below.rehang nodup (fun _ => atTop) fun v mem off => rest v (fun same => away.2 (list.mem_iff.mpr (by simp [← same,mem]))) off
  by_cases leaf : top tree t = tree.nil
  · rw [← leaf,atTop]
    dsimp only
    rw [leaf]
    exact sits.nilBlack
  rw [rest tree.nil away.1.symm (Ne.symm leaf)]
  exact sits.nilBlack

lemma swap_run (sits : Sits tree h ctx (.node c l z r)) (real : l ≠ .leaf) (new : y ∉ tree.nil :: tree.root :: (nodes ctx ++ (Shape.node c l z r).list)) :
    ∃ m,(let h := relink z y h
      let h := setParent (h z).right y h
      let h := setParent (h z).left y h
      update h y (h z)) = m ∧ Sits tree m ctx (.node c l y r) ∧ (m (top tree r)).parent = y ∧ (r ≠ .leaf → m tree.nil = h tree.nil) := by
  have record : h z = ⟨c,holder tree ctx,top tree l,top tree r⟩ := sits.here.1
  have away := sits.holder_ne
  have ne := sits.apart
  simp only [Shape.list,nodup_cons,mem_cons,mem_append,not_or,nodup_append] at ne new away
  obtain ⟨⟨nr,nc,nl,nz,nR⟩,⟨rc,rl,_,rR⟩,nodupC,⟨nodupL,⟨zR,nodupR⟩,lz⟩,out⟩ := ne
  obtain ⟨yn,yr,yc,yl,_,yR⟩ := new
  obtain ⟨qn,ql,qz,qR⟩ := away
  have zl : z ∉ l.list := fun member => lz z member z (.inl rfl) rfl
  have member : top tree l ∈ l.list := (top_mem _ _).resolve_left real
  have qy : holder tree ctx ≠ y := by
    rintro eq
    rcases holder_mem tree ctx with root | low
    · exact yr (eq.symm.trans root)
    exact yc (eq ▸ low)
  have ly : top tree l ≠ y := top_ne yl yn
  have ry : top tree r ≠ y := top_ne yR yn
  have lq : top tree l ≠ holder tree ctx := top_ne ql qn
  have rq : top tree r ≠ holder tree ctx := top_ne qR qn
  have lr : top tree l ≠ top tree r := by refine (top_ne (fun low => lz _ member _ (.inr low) rfl) fun eq => nl (eq ▸ member)).symm
  have zLeft : z ≠ top tree l := (top_ne zl (Ne.symm nz)).symm
  have zRight : z ≠ top tree r := (top_ne zR (Ne.symm nz)).symm
  have one : relink z y h = setKid (hangs ctx) (holder tree ctx) y h := relink_eq sits (by simp) (congrArg Node.parent record) rfl
  have read1 : setKid (hangs ctx) (holder tree ctx) y h z = h z := update_of_ne (Ne.symm qz) _ _
  have read2 : setParent (top tree r) y (setKid (hangs ctx) (holder tree ctx) y h) z = h z := (update_of_ne zRight _ _).trans read1
  have read3 : setParent (top tree l) y (setParent (top tree r) y (setKid (hangs ctx) (holder tree ctx) y h)) z = h z := (update_of_ne zLeft _ _).trans read2
  simp only [one,read1,record,read2,read3]
  generalize done : update (setParent (top tree l) y (setParent (top tree r) y (setKid (hangs ctx) (holder tree ctx) y h))) y ⟨c,holder tree ctx,top tree l,top tree r⟩ = m
  have atY : m y = ⟨c,holder tree ctx,top tree l,top tree r⟩ := by rw [← done,update_self]
  have atL : m (top tree l) = {h (top tree l) with parent:=y} := by
    rw [← done,update_of_ne ly,setParent,update_self,setParent,update_of_ne lr,setKid,update_of_ne lq]
  have atR : m (top tree r) = {h (top tree r) with parent:=y} := by
    rw [← done,update_of_ne ry,setParent,update_of_ne lr.symm,setParent,update_self,setKid,update_of_ne rq]
  have atQ : m (holder tree ctx) = (h (holder tree ctx)).setKid (hangs ctx) y := by
    rw [← done,update_of_ne qy,setParent,update_of_ne lq.symm,setParent,update_of_ne rq.symm,setKid,update_self]
  have rest (v) (vy : v ≠ y) (vl : v ≠ top tree l) (vr : v ≠ top tree r) (vq : v ≠ holder tree ctx) : m v = h v := by
    rw [← done,update_of_ne vy,setParent,update_of_ne vl,setParent,update_of_ne vr,setKid,update_of_ne vq]
  have nilL : tree.nil ≠ top tree l := fun eq => nl (eq ▸ member)
  refine ⟨m,rfl,sits.replace atQ (fun v low off => ?_) ⟨atY,?_,?_⟩ ?_ ?_,by rw [atR],fun some => ?_⟩
  · refine rest v ?_ ?_ ?_ off
    · rintro rfl
      exact low.elim yr yc
    · rintro rfl
      exact low.elim (fun eq => rl (eq ▸ member)) fun held => out _ held _ (.inl member) rfl
    refine (top_ne (fun inR => ?_) ?_).symm
    · exact low.elim (fun eq => rR (eq ▸ inR)) fun held => out _ held _ (.inr (.inr inR)) rfl
    rintro rfl
    exact low.elim nr nc
  · refine sits.here.2.1.rehang nodupL (fun _ => atL) fun v low off => rest v ?_ off ?_ ?_
    · rintro rfl
      exact yl low
    · exact (top_ne (fun inR => lz v low v (.inr inR) rfl) fun eq => nl (eq ▸ low)).symm
    rintro rfl
    exact ql low
  · refine sits.here.2.2.rehang nodupR (fun _ => atR) fun v low off => rest v ?_ ?_ off ?_
    · rintro rfl
      exact yR low
    · rintro rfl
      exact lz _ member _ (.inr low) rfl
    rintro rfl
    exact qR low
  · have mem (v) : v ∈ nodes ctx ++ (Shape.node c l y r).list ↔ v ∈ nodes ctx ∨ v ∈ l.list ∨ v = y ∨ v ∈ r.list := by simp [Shape.list]
    refine nodup_cons.mpr ⟨?_,nodup_cons.mpr ⟨?_,nodup_append.mpr ⟨nodupC,?_,fun a held b low => ?_⟩⟩⟩
    · rw [mem_cons,mem]
      rintro (no | no | no | no | no)
      exacts [nr no,nc no,nl no,yn no.symm,nR no]
    · rw [mem]
      rintro (no | no | no | no)
      exacts [rc no,rl no,yr no.symm,rR no]
    · refine nodup_append.mpr ⟨nodupL,nodup_cons.mpr ⟨yR,nodupR⟩,fun a inL b low => ?_⟩
      rcases mem_cons.mp low with rfl | inR
      · rintro rfl
        exact yl inL
      exact lz a inL b (.inr inR)
    simp only [Shape.list,mem_append,mem_cons] at low
    rcases low with inL | rfl | inR
    · exact out a held b (.inl inL)
    · rintro rfl
      exact yc held
    exact out a held b (.inr (.inr inR))
  · by_cases leaf : top tree r = tree.nil
    · rw [← leaf,atR]
      dsimp only
      rw [leaf]
      exact sits.nilBlack
    rw [rest tree.nil (Ne.symm yn) nilL (Ne.symm leaf) qn.symm]
    exact sits.nilBlack
  have inR : top tree r ∈ r.list := (top_mem _ _).resolve_left some
  exact rest tree.nil (Ne.symm yn) nilL (fun eq => nR (eq ▸ inR)) qn.symm

structure Cut (tree : Tree ν) (m : Heap ν) (ctx : List (Turn ν)) (t : Shape ν) (d : Bool) (n : Nat) : Prop where
  sits : Sits tree m ctx t
  link : (m (top tree t)).parent = holder tree ctx
  room : Room ctx d n
  balanced : if d then t.isRed = false ∧ t.Balanced n else ∃ j,n = j + 1 ∧ t.Balanced j

lemma Cut.finish (cut : Cut tree m ctx t d n) (fuel : Nat) (enough : (plug ctx t).size + 1 < fuel) :
    ∃ k T j,(if d = false then rbDeleteFixup tree fuel (top tree t) m else some m) = some k ∧ Sits tree k [] T ∧ T.list = (plug ctx t).list ∧ T.isRed = false ∧ T.Balanced j := by
  have short := length_le_size ctx t
  cases d with
  | true =>
    obtain ⟨black,valid⟩ := cut.balanced
    obtain ⟨⟨j,balanced⟩,root⟩ := Room.plug (t := t) (black.symm ▸ cut.room.weaken) valid
    exact ⟨m,_,j,rfl,sits_plug.mp cut.sits,rfl,root,balanced⟩
  | false =>
    obtain ⟨j,rfl,valid⟩ := cut.balanced
    obtain ⟨k,T,j,ran,rest⟩ := rbDeleteLoop_run cut.sits cut.link valid cut.room (by omega : ctx.length + 1 < fuel)
    refine ⟨k,T,j,?_,rest⟩
    rw [if_pos rfl,rbDeleteFixup,show (m tree.root).left = top tree (plug ctx t) from congrArg Node.left (sits_plug.mp cut.sits).around]
    exact ran

lemma rbDelete_eq (chosen : (if (h z).left = tree.nil ∨ (h z).right = tree.nil then some z else rbTreeSuccessor tree fuel z h) = some y)
    (child : (if (h y).left ≠ tree.nil then (h y).left else (h y).right) = x) (yr : y ≠ tree.root) (yn : y ≠ tree.nil)
    (cut : relink y x (setParent x (h y).parent h) = m) :
    rbDelete tree fuel z h = if (m y).red = false then rbDeleteFixup tree fuel x (if y ≠ z then
        let h := relink z y m
        let h := setParent (h z).right y h
        let h := setParent (h z).left y h
        update h y (h z) else m)
      else some (if y ≠ z then
        let h := relink z y m
        let h := setParent (h z).right y h
        let h := setParent (h z).left y h
        update h y (h z) else m) := by
  unfold rbDelete
  rw [chosen]
  simp only [Option.bind_eq_bind,Option.bind_some,child,if_pos (And.intro yr yn),cut]
  cases (m y).red <;> rfl

lemma rbDelete_outer (fuel : Nat) (sits : Sits tree h ctx (.node c l z r)) (room : Room ctx c n) (valid : (Shape.node c l z r).Balanced n) (one : t = l ∧ r = .leaf ∨ t = r ∧ l = .leaf) :
    ∃ m,rbDelete tree fuel z h = (if c = false then rbDeleteFixup tree fuel (top tree t) m else some m) ∧ Cut tree m ctx t c n := by
  have record : h z = ⟨c,holder tree ctx,top tree l,top tree r⟩ := sits.here.1
  have zn : z ≠ tree.nil := (ne_nil (s := .left) sits).symm
  have zr : z ≠ tree.root := by
    rintro rfl
    exact (nodup_cons.mp (nodup_cons.mp sits.apart).2).1 (by simp [Shape.list])
  obtain ⟨m,ran,done,link,eq⟩ := splice_run sits one
  have color : (m z).red = c := by rw [eq,record]
  refine ⟨m,?_,done,link,room,?_⟩
  · have child : (if (h z).left ≠ tree.nil then (h z).left else (h z).right) = top tree t := by
      rw [record]
      rcases one with ⟨rfl,rfl⟩ | ⟨rfl,rfl⟩
      · split
        · rfl
        next leaf => exact (not_not.mp leaf).symm
      exact if_neg (not_not.mpr rfl)
    rw [rbDelete_eq (y := z) (x := top tree t) (m := m) (if_pos ?_) child zr zn ran,color,if_neg (not_not.mpr rfl)]
    rw [record]
    rcases one with ⟨-,rfl⟩ | ⟨-,rfl⟩
    · exact .inr rfl
    exact .inl rfl
  cases c with
  | true =>
    obtain ⟨blackL,blackR,balL,balR⟩ := valid
    rcases one with ⟨rfl,-⟩ | ⟨rfl,-⟩
    · exact ⟨blackL,balL⟩
    exact ⟨blackR,balR⟩
  | false =>
    obtain ⟨j,rfl,balL,balR⟩ := valid
    rcases one with ⟨rfl,-⟩ | ⟨rfl,-⟩
    · exact ⟨j,rfl,balL⟩
    exact ⟨j,rfl,balR⟩

lemma rbDelete_inner (sits : Sits tree h ctx (.node c l z r)) (valid : (plug ctx (.node c l z r)).Balanced n) (black : (plug ctx (.node c l z r)).isRed = false)
    (realL : l ≠ .leaf) (realR : r ≠ .leaf) (enough : r.size ≤ fuel) :
    ∃ m d y k u j,rbDelete tree fuel z h = (if d = false then rbDeleteFixup tree fuel (top tree u) m else some m) ∧
      Cut tree m (k ++ ⟨.right,c,y,l⟩ :: ctx) u d j ∧ r.list = y :: (plug k u).list := by
  have record : h z = ⟨c,holder tree ctx,top tree l,top tree r⟩ := sits.here.1
  have right : Sits tree h (⟨.right,c,z,l⟩ :: ctx) r := kid (s := .right) sits
  have left : Sits tree h (⟨.left,c,z,r⟩ :: ctx) l := kid (s := .left) sits
  have someL : top tree l ≠ tree.nil := by
    cases l with
    | leaf => exact absurd rfl realL
    | node d a v b => exact (ne_nil (s := .left) left).symm
  have someR : top tree r ≠ tree.nil := by
    cases r with
    | leaf => exact absurd rfl realR
    | node d a v b => exact (ne_nil (s := .left) right).symm
  obtain ⟨k,d,y,u,got,rfl,one⟩ := leftmost_run right realR enough
  have spot := sits_append.mpr right
  have recordY : h y = ⟨d,_,tree.nil,top tree u⟩ := spot.here.1
  obtain ⟨m,ran,done,link,eq⟩ := splice_run spot (.inr ⟨rfl,rfl⟩)
  have perm : (tree.nil :: tree.root :: (nodes (k ++ ⟨.right,c,z,l⟩ :: ctx) ++ (Shape.node d .leaf y u).list)).Perm
      (y :: tree.nil :: tree.root :: (nodes ctx ++ (Shape.node c l z (plug k u)).list)) := by
    refine List.Perm.trans (.cons _ (.cons _ (perm_middle.trans (.cons y ?_)))) ((List.Perm.cons _ (.swap _ _ _)).trans (.swap _ _ _))
    exact nodes_append.trans (nodes_wrap (f := ⟨.right,c,z,l⟩))
  have new := (nodup_cons.mp (perm.nodup spot.apart)).1
  have whole : Sits tree m ctx (.node c l z (plug k u)) := sits_cons.mp (sits_append.mp done)
  obtain ⟨m2,swapped,stands,linkR,still⟩ := swap_run whole realL new
  have color : (m y).red = d := by rw [eq,recordY]
  have yn : y ≠ tree.nil := (ne_nil (s := .left) spot).symm
  have yr : y ≠ tree.root := fun eq => new (by simp [eq])
  have yz : y ≠ z := fun eq => new (by simp [eq,Shape.list])
  obtain ⟨j,room,bal⟩ := Room.of_plug (k ++ ⟨.right,c,z,l⟩ :: ctx) (t := .node d .leaf y u) (by rw [plug_append]; exact valid) (by rw [plug_append]; exact black)
  have final : Sits tree m2 (k ++ ⟨.right,c,y,l⟩ :: ctx) u := sits_append.mpr (kid (s := .right) stands)
  refine ⟨m2,d,y,k,u,j,?_,⟨final,?_,room.rename,?_⟩,?_⟩
  · have chosen : (if (h z).left = tree.nil ∨ (h z).right = tree.nil then some z else rbTreeSuccessor tree fuel z h) = some y := by
      rw [record,if_neg (not_or.mpr ⟨someL,someR⟩),rbTreeSuccessor,record,if_pos someR]
      exact got
    have child : (if (h y).left ≠ tree.nil then (h y).left else (h y).right) = top tree u := by
      rw [recordY]
      exact if_neg (not_not.mpr rfl)
    rw [rbDelete_eq chosen child yr yn ran,color,if_pos yz]
    rw [swapped]
  · cases u with
    | node e a v b => exact final.parent (by simp)
    | leaf =>
      cases k with
      | nil => exact linkR
      | cons f k =>
        rw [show top tree Shape.leaf = tree.nil from rfl,still plug_ne_leaf]
        exact link
  · cases d with
    | true => exact ⟨bal.2.1,bal.2.2.2⟩
    | false =>
      obtain ⟨i,rfl,-,balU⟩ := bal
      exact ⟨i,rfl,balU⟩
  rw [list_plug,list_plug,one]
  rfl

lemma rbDelete_run (sits : Sits tree h [] t) (black : t.isRed = false) (valid : t.Balanced n) (mem : z ∈ t.list) (enough : t.size + 1 < fuel) :
    ∃ k T lo hi m,rbDelete tree fuel z h = some k ∧ Sits tree k [] T ∧ T.isRed = false ∧ T.Balanced m ∧ t.list = lo ++ z :: hi ∧ T.list = lo ++ hi := by
  obtain ⟨ctx,c,l,r,rfl⟩ := exists_plug mem
  have here := sits_plug.mpr sits
  have spelled : (plug ctx (.node c l z r)).list = (before ctx ++ l.list) ++ z :: (r.list ++ after ctx) := by
    rw [list_plug]
    simp [Shape.list]
  rw [Shape.size_eq,spelled] at enough
  simp only [length_append,length_cons] at enough
  by_cases both : l ≠ .leaf ∧ r ≠ .leaf
  · have size : r.size ≤ fuel := by
      rw [Shape.size_eq]
      omega
    obtain ⟨m,d,y,k,u,j,ran,cut,list⟩ := rbDelete_inner here valid black both.1 both.2 size
    have after : (plug (k ++ ⟨.right,c,y,l⟩ :: ctx) u).list = (before ctx ++ l.list) ++ (r.list ++ after ctx) := by
      rw [plug_append,plug,list_plug,list]
      simp [wrap,Shape.mk,Shape.list]
    obtain ⟨k,T,j,run,root,eq,blackT,bal⟩ := cut.finish fuel (by
      rw [Shape.size_eq,after]
      simp only [length_append]
      omega)
    exact ⟨k,T,_,_,j,ran.trans run,root,blackT,bal,spelled,eq.trans after⟩
  obtain ⟨t,one,list⟩ : ∃ t,(t = l ∧ r = .leaf ∨ t = r ∧ l = .leaf) ∧ t.list = l.list ++ r.list := by
    by_cases leaf : l = .leaf
    · exact ⟨r,.inr ⟨rfl,leaf⟩,by rw [leaf]; rfl⟩
    have : r = .leaf := by
      by_contra some
      exact both ⟨leaf,some⟩
    exact ⟨l,.inl ⟨rfl,this⟩,by rw [this]; exact (append_nil _).symm⟩
  obtain ⟨j,room,bal⟩ := Room.of_plug ctx valid black
  obtain ⟨m,ran,cut⟩ := rbDelete_outer fuel here room bal one
  have after : (plug ctx t).list = (before ctx ++ l.list) ++ (r.list ++ after ctx) := by
    rw [list_plug,list]
    simp
  obtain ⟨k,T,j,run,root,eq,blackT,bal⟩ := cut.finish fuel (by
    rw [Shape.size_eq,after]
    simp only [length_append]
    omega)
  exact ⟨k,T,_,_,j,ran.trans run,root,blackT,bal,spelled,eq.trans after⟩

end Ucore.Rb

import Ucore.Rb.Heap

namespace Ucore.Rb
open Node

open Trees Trees.Turn Trees.Shape

section Fixup

variable {ν : Type} [DecidableEq ν] {tree : Tree ν} {h k : Heap ν} {x y z p g w v root : ν} {c : Bool} {s side : Side} {t u a b l r : Shape ν}
  {ctx up : List (Turn ν)} {n fuel : Nat}

lemma deleteFar_run (sits : Sits tree h up (.mk s c t p (.mk s false l w (.mk s true a v b)))) (link : (h (top tree t)).parent = p) :
    ∃ k,deleteFar tree s (top tree t) w h = some k ∧ Sits tree k up (.mk s c (.mk s false t p l) w (.mk s false a v b)) := by
  have color : (h p).red = c := by rw [sits.record,of_red]
  have one := sits.recolor_other c
  have link1 := one.kid.hung link (setRed_other sits.kid_other.ne_nil)
  have two := one.recolor false
  have link2 := two.kid.hung link1 (setRed_other one.ne_nil)
  have far : (setRed p false (setRed w c h) w).kid s.other = v := by rw [two.kid_other.record,of_kid_other,top_mk]
  have third : Sits tree (setRed v false (setRed p false (setRed w c h))) up (.mk s false t p (.mk s c l w (.mk s false a v b))) := by
    have done := sits_cons.mp (two.kid_other.recolor_other false)
    unfold wrap at done
    rwa [mk_other] at done
  have link3 := third.kid.hung link2 (setRed_other two.kid_other.kid_other.ne_nil)
  obtain ⟨k,ran,done,-⟩ := third.rotate
  refine ⟨k,?_,done⟩
  simp only [holder] at link1 link2 link3
  simp only [deleteFar,link,color,link1,far,link3]
  exact ran

lemma deleteBlack_run (root : ν) (sits : Sits tree h (⟨s,c,p,r⟩ :: up) t) (link : (h (top tree t)).parent = p) (valid : t.Balanced n) (balR : r.Balanced (n + 1)) (black : r.isRed = false) :
    (∃ k v,deleteBlack tree root s (top tree t) (top tree r) h = some (p,k) ∧ Sits tree k up (.mk s c t p v) ∧ v.isRed = true ∧ v.Balanced n ∧ v.list = r.list) ∨
    ∃ k u,deleteBlack tree root s (top tree t) (top tree r) h = some (root,k) ∧ Sits tree k up u ∧ u.isRed = c ∧
      u.Balanced (if c then n + 1 else n + 2) ∧ u.list = (Shape.mk s c t p r).list ∧ (k p).red = false := by
  rcases node_mk s r with rfl | ⟨d,l,w,far,rfl⟩
  · cases balR
  rw [isRed_mk] at black
  subst black
  obtain ⟨balL,balFar⟩ := balanced_black.mp balR
  have all := sits_cons.mp sits
  dsimp only [wrap] at all
  have near : (h w).kid s = top tree l := by rw [all.kid_other.record,of_kid]
  have distant : (h w).kid s.other = top tree far := by rw [all.kid_other.record,of_kid_other]
  have nearRed := all.kid_other.kid.red
  have farRed := all.kid_other.kid_other.red
  rw [top_mk]
  cases blackFar : far.isRed with
  | true =>
    right
    rcases node_mk s far with rfl | ⟨d,a,v,b,rfl⟩
    · cases blackFar
    rw [isRed_mk] at blackFar
    subst blackFar
    obtain ⟨k,ran,done⟩ := deleteFar_run all link
    obtain ⟨-,-,balA,balB⟩ := balanced_red.mp balFar
    refine ⟨k,_,?_,done,isRed_mk,?_,?_,by rw [done.kid.record,of_red]⟩
    · simp only [deleteBlack,near,distant,farRed,isRed_mk,ran]
      simp
    · cases c with
      | true => simp [valid,balL,balA,balB]
      | false => simp [valid,balL,balA,balB]
    cases s <;> simp [Shape.mk,Shape.list]
  | false =>
    cases blackNear : l.isRed with
    | true =>
      right
      rcases node_mk s l with rfl | ⟨d,a,v,b,rfl⟩
      · cases blackNear
      rw [isRed_mk] at blackNear
      subst blackNear
      obtain ⟨-,-,balA,balB⟩ := balanced_red.mp balL
      -- The near child is turned up one.
      have one := all.kid_other.kid.recolor false
      have two := (sits_cons.mp one).recolor true
      dsimp only [wrap] at two
      have turned := two
      rw [← mk_other,← mk_other (s := s) (c := false)] at turned
      obtain ⟨m,rotated,done,still⟩ := turned.rotate
      rw [mk_other,mk_other] at done
      have joined := sits_cons.mp done
      unfold wrap at joined
      dsimp only at joined
      rw [mk_other] at joined
      have nil : m tree.nil = h tree.nil := by rw [still,setRed_other (sits_cons.mp one).ne_nil,setRed_other all.kid_other.kid.ne_nil]
      have link2 := joined.kid.hung link nil
      simp only [holder] at link2
      have sibling : (m p).kid s.other = v := by rw [joined.record,of_kid_other,top_mk]
      obtain ⟨k,ran,last⟩ := deleteFar_run joined link2
      refine ⟨k,_,?_,last,isRed_mk,?_,?_,by rw [last.kid.record,of_red]⟩
      · rw [top_mk] at near nearRed
        simp only [deleteBlack,near,distant,farRed,nearRed,isRed_mk,blackFar]
        simp [rotated,link2,sibling,ran]
      · cases c with
        | true => simp [valid,balA,balB,balFar]
        | false => simp [valid,balA,balB,balFar]
      cases s <;> simp [Shape.mk,Shape.list]
    | false =>
      left
      have done := all.recolor_other true
      have link2 := done.kid.hung link (setRed_other all.kid_other.ne_nil)
      simp only [holder] at link2
      refine ⟨_,_,?_,done,isRed_mk,balanced_red.mpr ⟨blackNear,blackFar,balL,balFar⟩,list_recolor⟩
      simp only [deleteBlack,near,distant,farRed,nearRed,blackFar,blackNear,link2]
      simp

lemma rbDeleteLoop_red (root : ν) (fuel : Nat) (sits : Sits tree h up (.mk s true a x b)) (balA : a.Balanced n) (balB : b.Balanced n) (room : Room up false (n + 1)) :
    ∃ k T m,rbDeleteLoop tree root (fuel + 1) x h = some k ∧ Sits tree k [] T ∧ T.list = (plug up (.mk s true a x b)).list ∧ T.isRed = false ∧ T.Balanced m := by
  obtain ⟨⟨m,balanced⟩,black⟩ := Room.plug (t := .mk s false a x b) (n := n + 1) (by rwa [isRed_mk]) (balanced_black.mpr ⟨balA,balB⟩)
  refine ⟨_,_,m,?_,sits_plug.mp (sits.recolor false),list_plug_congr _ list_recolor,black,balanced⟩
  rw [rbDeleteLoop]
  exact if_neg fun both => by
    rw [sits.record,of_red] at both
    cases both.2

lemma rbDeleteLoop_short (root : ν) (fuel : Nat) (sits : Sits tree h up t) (red : t.isRed = true) (valid : t.Balanced n) (room : Room up false (n + 1)) :
    ∃ k T m,rbDeleteLoop tree root (fuel + 1) (top tree t) h = some k ∧ Sits tree k [] T ∧ T.list = (plug up t).list ∧ T.isRed = false ∧ T.Balanced m := by
  rcases node_mk .left t with rfl | ⟨c,a,x,b,rfl⟩
  · cases red
  rw [isRed_mk] at red
  subst red
  obtain ⟨-,-,balA,balB⟩ := balanced_red.mp valid
  rw [top_mk]
  exact rbDeleteLoop_red root fuel sits balA balB room

lemma rbDeleteLoop_root (root : ν) (fuel : Nat) (sits : Sits tree h up u) (room : Room up u.isRed n) (valid : u.Balanced n) (black : (h p).red = false)
    (saved : root = p ∨ root = top tree (plug up u)) :
    ∃ k T m,rbDeleteLoop tree root (fuel + 1) root h = some k ∧ Sits tree k [] T ∧ T.list = (plug up u).list ∧ T.isRed = false ∧ T.Balanced m := by
  obtain ⟨⟨m,balanced⟩,blackRoot⟩ := room.plug valid
  refine ⟨h,_,m,?_,sits_plug.mp sits,rfl,blackRoot,balanced⟩
  have done : (h root).red = false := by
    rcases saved with rfl | rfl
    · exact black
    rw [(sits_plug.mp sits).red,blackRoot]
  rw [rbDeleteLoop,if_neg fun both => both.1 rfl,setRed_idle done]

lemma redSibling_run (root : ν) (sits : Sits tree h (⟨s,false,p,.mk s true l w r⟩ :: up) t) (link : (h (top tree t)).parent = p) :
    ∃ k,rbDeleteFixupSub tree root s (top tree t) h = deleteBlack tree root s (top tree t) (top tree l) k ∧
      Sits tree k (⟨s,true,p,l⟩ :: ⟨s,false,w,r⟩ :: up) t ∧ (k (top tree t)).parent = p := by
  have all := sits_cons.mp sits
  dsimp only [wrap] at all
  have sibling : (h p).kid s.other = w := by rw [all.record,of_kid_other,top_mk]
  have red : (h w).red = true := by rw [all.kid_other.record,of_red]
  have one := all.recolor_other false
  have link1 := one.kid.hung link (setRed_other all.kid_other.ne_nil)
  have two := one.recolor true
  have link2 := two.kid.hung link1 (setRed_other one.ne_nil)
  obtain ⟨k,ran,done,still⟩ := two.rotate
  have link3 := done.kid.kid.hung link2 still
  simp only [holder] at link1 link2 link3
  refine ⟨k,?_,done.kid.kid,link3⟩
  have next : (k p).kid s.other = top tree l := by rw [done.kid.record,of_kid_other]
  simp [rbDeleteFixupSub,link,sibling,red,link1,link2,ran,link3,next]

lemma rbDeleteLoop_run (sits : Sits tree h ctx t) (link : (h (top tree t)).parent = holder tree ctx) (valid : t.Balanced n) (room : Room ctx false (n + 1))
    (enough : ctx.length + 1 < fuel) :
    ∃ k T m,rbDeleteLoop tree (top tree (plug ctx t)) fuel (top tree t) h = some k ∧ Sits tree k [] T ∧ T.list = (plug ctx t).list ∧ T.isRed = false ∧ T.Balanced m := by
  induction ctx generalizing t n h fuel with
  | nil =>
    obtain ⟨fuel,rfl⟩ : ∃ m,fuel = m + 1 := ⟨fuel - 1,by omega⟩
    cases red : t.isRed with
    | true => exact rbDeleteLoop_short _ fuel sits red valid room
    | false => exact rbDeleteLoop_root _ fuel sits red valid (sits.red.trans red) (.inl rfl)
  | cons f up ih =>
    obtain ⟨fuel,rfl⟩ : ∃ m,fuel = m + 1 := ⟨fuel - 1,by omega⟩
    cases red : t.isRed with
    | true => exact rbDeleteLoop_short _ fuel sits red valid room
    | false =>
      rcases f with ⟨s,c,p,r⟩
      obtain ⟨balR,rest⟩ := room
      have realR : r ≠ .leaf := by
        rintro rfl
        cases balR
      have goes : top tree t ≠ top tree (plug (⟨s,c,p,r⟩ :: up) t) ∧ (h (top tree t)).red = false := ⟨sits.below_root,by rw [sits.red,red]⟩
      have turn : (if top tree t = (h (h (top tree t)).parent).left then Side.left else Side.right) = s := by
        rw [link]
        exact sits.side (.inr realR) rfl
      generalize saved : top tree (plug (⟨s,c,p,r⟩ :: up) t) = root at *
      have step : rbDeleteLoop tree root (fuel + 1) (top tree t) h = (rbDeleteFixupSub tree root s (top tree t) h).bind fun w => rbDeleteLoop tree root fuel w.1 w.2 := by
        rw [rbDeleteLoop,if_pos goes,turn]
        rfl
      rw [step]
      replace link : (h (top tree t)).parent = p := link
      rw [List.length_cons] at enough
      obtain ⟨fuel,rfl⟩ : ∃ m,fuel = m + 1 := ⟨fuel - 1,by omega⟩
      cases redR : r.isRed with
      | true =>
        cases c with
        | true =>
          have := rest.2.1
          rw [redR] at this
          cases this
        | false =>
          rcases node_mk s r with rfl | ⟨c,l,w,far,rfl⟩
          · cases redR
          rw [isRed_mk] at redR
          subst redR
          obtain ⟨blackL,-,balL,balFar⟩ := balanced_red.mp balR
          obtain ⟨k,ran,next,link⟩ := redSibling_run root sits link
          have above : Room (⟨s,false,w,far⟩ :: up) false (n + 1) := ⟨balFar,rest⟩
          rw [ran]
          rcases deleteBlack_run root next link valid balL blackL with ⟨m,v,ran,done,-,balV,list⟩ | ⟨m,u,ran,done,redU,balU,list,blackP⟩
          · rw [ran]
            obtain ⟨k,T,j,ran,root,eq,black⟩ := rbDeleteLoop_red root fuel done valid balV above
            refine ⟨k,T,j,ran,root,eq.trans (list_plug_congr up ?_),black⟩
            cases s <;> simp [Shape.mk,Shape.list,list,wrap]
          rw [ran]
          obtain ⟨k,T,j,ran,root,eq,black⟩ := rbDeleteLoop_root root fuel (n := n + 1) done
            (by rw [redU]; exact ⟨balFar,rest⟩) balU blackP (saved ▸ saved_root s false p _ t _ up)
          refine ⟨k,T,j,ran,root,eq.trans (list_plug_congr up ?_),black⟩
          cases s <;> simp_all [Shape.mk,Shape.list,wrap]
      | false =>
        have plain : rbDeleteFixupSub tree root s (top tree t) h = deleteBlack tree root s (top tree t) (top tree r) h := by
          have all := sits_cons.mp sits
          dsimp only [wrap] at all
          have sibling : (h p).kid s.other = top tree r := by rw [all.record,of_kid_other]
          have black : (h (top tree r)).red = false := by rw [all.kid_other.red,redR]
          simp only [rbDeleteFixupSub,link,sibling,black]
          simp
        rw [plain]
        rcases deleteBlack_run root sits link valid balR redR with ⟨m,v,ran,done,_,balV,list⟩ | ⟨m,u,ran,done,redU,balU,list,blackP⟩
        · rw [ran]
          have eq : (Shape.mk s c t p v).list = (Shape.mk s c t p r).list := by cases s <;> simp [Shape.mk,Shape.list,list]
          cases c with
          | true =>
            obtain ⟨k,T,j,ran,root,list,black⟩ := rbDeleteLoop_red root fuel done valid balV rest.2.2.weaken
            exact ⟨k,T,j,ran,root,list.trans (list_plug_congr up eq),black⟩
          | false =>
            obtain ⟨k,T,j,ran,root,list,black⟩ := ih (n := n + 1) done (done.parent (by cases s <;> rintro ⟨⟩)) (balanced_black.mpr ⟨valid,balV⟩) rest (by omega : up.length + 1 < fuel + 1)
            have high : top tree (plug up (Shape.mk s false t p v)) = _ := (top_plug up (top_mk.trans top_mk.symm)).trans saved
            rw [high,top_mk] at ran
            exact ⟨k,T,j,ran,root,list.trans (list_plug_congr up eq),black⟩
        rw [ran]
        have room : Room up u.isRed (if c then n + 1 else n + 2) := by
          rw [redU]
          cases c with
          | true => exact rest.2.2
          | false => exact rest
        obtain ⟨k,T,j,ran,root,eq,black⟩ := rbDeleteLoop_root root fuel done room balU blackP (saved ▸ saved_root s c p _ t _ up)
        exact ⟨k,T,j,ran,root,eq.trans (list_plug_congr up list),black⟩

end Fixup

end Ucore.Rb

import Ucore.Vmm.Law

-- mm_unmap on ordered areas: every area is cut down to its pieces, the rest is
-- unmapped, and the uses of shared objects follow.
namespace Ucore.Vmm
open Outcomes List
open Function (update update_eq_self update_idem update_self)
variable {τ : Type} {pager : Pager τ} {w t : World τ} {m start stop : Nat} {a : Area}

section Loop
variable {u : World τ} {l : List Area}

def clearPart (pager : Pager τ) (m start stop : Nat) (tab : τ) (a : Area) : τ := pager.unmapRange m (max start a.start) (min stop a.stop) tab

structure Cut (pager : Pager τ) (m start stop : Nat) (l : List Area) (w t : World τ) : Prop where
  areas : ∃ new,t.areas = update w.areas m new ∧ new.Perm (l.flatMap (pieces start stop) ++ w.areas m) ∧ Ordered new
  books : ∃ f,t.toBooks = {w.toBooks with shmem:=f}
  script : t.grants = w.grants ∧ t.tick = w.tick
  tables : t.tables = l.foldl (clearPart pager m start stop) w.tables
  law : ∀ others,Law (update w.areas m (l ++ others ++ w.areas m)) w.toBooks →
    Law (update w.areas m (l.flatMap (pieces start stop) ++ others ++ w.areas m)) t.toBooks

lemma Cut.live (cut : Cut pager m start stop l w t) : t.live = w.live := by
  obtain ⟨f,eq⟩ := cut.books
  rw [eq]

lemma Cut.refl (ordered : Ordered (w.areas m)) : Cut pager m start stop [] w w :=
  ⟨⟨w.areas m,(update_eq_self _ _).symm,.refl _,ordered⟩,⟨w.shmem,rfl⟩,⟨rfl,rfl⟩,rfl,fun _ law => law⟩

lemma Cut.here (cut : Cut pager m start stop l w t) : (t.areas m).Perm (l.flatMap (pieces start stop) ++ w.areas m) ∧ Ordered (t.areas m) := by
  obtain ⟨_,areas,perm,ordered⟩ := cut.areas
  rw [areas,update_self]
  exact ⟨perm,ordered⟩

lemma Cut.law_next (one : Cut pager m start stop [a] w t) (here : m ∈ w.live) (rest : List Area)
    (law : Law (update w.areas m (a :: l ++ rest ++ w.areas m)) w.toBooks) :
    Law (update t.areas m (l ++ rest ++ t.areas m)) t.toBooks := by
  obtain ⟨_,areas,perm,-⟩ := one.areas
  have next := one.law (l ++ rest) (by simpa using law)
  rw [areas,update_idem,update_self]
  refine next.perm (one.live ▸ here) ?_
  refine (perm.append_left _).trans ?_
  simp only [flatMap_cons,flatMap_nil,append_nil]
  rw [← append_assoc]
  exact perm_append_comm.append_right _

lemma Cut.trans (one : Cut pager m start stop [a] w t) (two : Cut pager m start stop l t u) (here : m ∈ w.live) : Cut pager m start stop (a :: l) w u := by
  obtain ⟨mid,areas,perm,-⟩ := one.areas
  obtain ⟨new,areas',perm',ordered⟩ := two.areas
  obtain ⟨f,books⟩ := one.books
  obtain ⟨g,books'⟩ := two.books
  have perm : mid.Perm (pieces start stop a ++ w.areas m) := by simpa using perm
  have moved : (t.areas m).Perm (pieces start stop a ++ w.areas m) := by rw [areas,update_self]; exact perm
  have shuffle : ∀ rest : List Area,(l.flatMap (pieces start stop) ++ rest ++ (pieces start stop a ++ w.areas m)).Perm
      ((a :: l).flatMap (pieces start stop) ++ rest ++ w.areas m) := fun rest => by
    rw [flatMap_cons,← append_assoc]
    refine .append_right _ ?_
    rw [append_assoc (pieces start stop a)]
    exact perm_append_comm
  refine ⟨⟨new,?_,?_,ordered⟩,⟨g,by rw [books',books]⟩,⟨two.script.1.trans one.script.1,two.script.2.trans one.script.2⟩,?_,fun rest law => ?_⟩
  · rw [areas',areas,update_idem]
  · refine perm'.trans ((moved.append_left _).trans ?_)
    simpa using shuffle []
  · rw [two.tables,one.tables]
    rfl
  have last := two.law rest (one.law_next here rest law)
  have live : m ∈ u.live := by rw [two.live,one.live]; exact here
  rw [areas,update_idem,update_self] at last
  exact last.perm live ((shuffle rest).symm.trans (perm.symm.append_left _))

section
variable (ordered : Ordered (w.areas m)) (here : m ∈ w.live)
include ordered here

lemma Cut.put (ne : ∀ b ∈ w.areas m,Apart a b) (low : a.start ≤ c) (high : d ≤ a.stop)
    (one : pieces start stop a = [resized a c d]) (fits : (resized a c d).Fits) (part : clearPart pager m start stop w.tables a = tab) :
    Cut pager m start stop [a] w {w with areas:=update w.areas m (insertArea (w.areas m) (resized a c d)),tables:=tab} := by
  have ne : ∀ b ∈ w.areas m,Apart (resized a c d) b := fun b mem => (ne b mem).piece (by rw [one]; exact mem_singleton_self _)
  refine ⟨⟨_,rfl,?_,ordered.insert fits ne⟩,⟨w.shmem,rfl⟩,⟨rfl,rfl⟩,part.symm,fun rest law => ?_⟩
  · simpa [one] using insertArea_perm ordered _
  have next := law.replace (l := resized a c d :: (rest ++ w.areas m)) here (fun o => ?_) fun b mem => ?_
  · rw [update_idem] at next
    simpa [one] using next
  · simp [countP_cons,resized]
  rcases mem_cons.mp mem with rfl | mem
  · exact (law.good m a (by simp)).resized low high
  refine law.good m b ?_
  rw [update_self]
  simpa using .inr (mem_append.mp mem)

lemma unmapVma_run (ne : ∀ b ∈ w.areas m,Apart a b) (fits : a.Fits)
    (evenStart : start % pgSize = 0) (evenStop : stop % pgSize = 0) (meet : start < a.stop ∧ a.start < stop) (part : ¬ (a.start < start ∧ stop < a.stop)) :
    (unmapVma pager m start stop a w).Meets (fun _ t => Cut pager m start stop [a] w t) (fun _ _ => False)
      fun _ => ∀ rest,¬ Law (update w.areas m ([a] ++ rest ++ w.areas m)) w.toBooks := by
  have out : ¬ (a.stop ≤ start ∨ stop ≤ a.start) := by omega
  have solid := fits.solid
  have put : ∀ c,c ∈ pieces start stop a → c.Fits := fun c mem => pieces_fits fits evenStart evenStop mem
  unfold unmapVma
  rw [ite_run]
  refine .ite (fun left => ?_) fun right => ?_
  · have one : pieces start stop a = [resized a a.start start] := by
      unfold pieces
      rw [if_neg out,if_neg part,if_pos left]
    have mem : resized a a.start start ∈ pieces start stop a := by simp [one]
    have apart' : ∀ b ∈ w.areas m,Apart (resized a a.start start) b := fun b low => (ne b low).piece mem
    have ran : vmaResize a a.start start w = .ok (resized a a.start start) w := vmaResize_ok fits.startAligned evenStart (le_refl _) left (by omega)
    simp only [rules,ran,insertVmaStruct_ok ordered (put _ mem) apart',unmapRange]
    refine Cut.put ordered here ne (le_refl _) (by omega) one (put _ mem) ?_
    unfold clearPart
    rw [max_eq_left (by omega),min_eq_right (by omega)]
  rw [ite_run]
  refine .ite (fun longer => ?_) fun under => ?_
  · have one : pieces start stop a = [resized a stop a.stop] := by
      unfold pieces
      rw [if_neg out,if_neg part,if_neg right,if_pos longer]
    have mem : resized a stop a.stop ∈ pieces start stop a := by simp [one]
    have apart' : ∀ b ∈ w.areas m,Apart (resized a stop a.stop) b := fun b low => (ne b low).piece mem
    have ran : vmaResize a stop a.stop w = .ok (resized a stop a.stop) w := vmaResize_ok evenStop fits.stopAligned (by omega) longer (le_refl _)
    simp only [rules,ran,insertVmaStruct_ok ordered (put _ mem) apart',unmapRange]
    refine Cut.put ordered here ne (by omega) (le_refl _) one (put _ mem) ?_
    unfold clearPart
    rw [max_eq_right (by omega),min_eq_left (by omega)]
  have none : pieces start stop a = [] := by
    unfold pieces
    rw [if_neg out,if_neg part,if_neg right,if_neg under]
  simp only [rules]
  -- The area itself is destroyed: one use of its object less.
  cases ran : vmaDestroy a w with
  | err e t =>
    have met := vmaDestroy_run (v := w.areas) (a := a) here []
    rw [ran] at met
    exact met.elim
  | fault x =>
    intro rest law
    have met := vmaDestroy_run (v := w.areas) (a := a) here (rest ++ w.areas m)
    rw [ran] at met
    exact met (by simpa using law)
  | ok _ t =>
    have met := fun rest => vmaDestroy_run (v := w.areas) (a := a) here (rest ++ w.areas m)
    simp only [ran] at met
    obtain ⟨f,rfl⟩ := (met []).1
    refine ⟨⟨w.areas m,(update_eq_self _ _).symm,by simp [none],ordered⟩,⟨f,rfl⟩,⟨rfl,rfl⟩,?_,fun rest law => ?_⟩
    · simp only [foldl_cons,foldl_nil,clearPart]
      rw [max_eq_right (by omega),min_eq_right (by omega)]
    have := (met rest).2 (by simpa using law)
    simpa [none] using this

lemma unmap_each (ne : ∀ a ∈ l,∀ b ∈ w.areas m,Apart a b) (between : l.Pairwise Apart)
    (fits : ∀ a ∈ l,a.Fits) (evenStart : start % pgSize = 0) (evenStop : stop % pgSize = 0) (meet : ∀ a ∈ l,start < a.stop ∧ a.start < stop)
    (part : ∀ a ∈ l,¬ (a.start < start ∧ stop < a.stop)) :
    (each (unmapVma pager m start stop) l w).Meets (fun _ t => Cut pager m start stop l w t) (fun _ _ => False)
      fun _ => ∀ others,¬ Law (update w.areas m (l ++ others ++ w.areas m)) w.toBooks := by
  induction l generalizing w with
  | nil => exact Cut.refl ordered
  | cons a l ih =>
    have mem : a ∈ a :: l := mem_cons_self
    have one : (unmapVma pager m start stop a w).Meets _ _ _ := unmapVma_run ordered here (ne a mem) (fits a mem) evenStart evenStop (meet a mem) (part a mem)
    have tail : ∀ b ∈ l,b ∈ a :: l := fun b low => mem_cons_of_mem _ low
    obtain ⟨head,between⟩ := pairwise_cons.mp between
    unfold each
    rw [bind_run]
    refine one.next (fun _ t cut => ?_) (fun _ _ no => no) fun x bad others law => bad (l ++ others) (by simpa using law)
    have now := cut.here
    have apart' : ∀ b ∈ l,∀ c ∈ t.areas m,Apart b c := fun b low c member => by
      have member := now.1.mem_iff.mp member
      simp only [flatMap_cons,flatMap_nil,append_nil,mem_append] at member
      rcases member with piece | old
      · exact symm ((head b low).piece piece)
      exact ne b (tail b low) c old
    have two := ih now.2 (cut.live ▸ here) apart' between (fun b low => fits b (tail b low)) (fun b low => meet b (tail b low))
      fun b low => part b (tail b low)
    refine two.mono (fun _ u rest => cut.trans rest here) (fun _ _ no => no) fun x bad others law => ?_
    exact bad others (cut.law_next here others law)

end

lemma remove_each (l : List Area) : each (removeVmaStruct m) l w = .ok () {w with areas:=update w.areas m ((w.areas m).diff l)} := by
  induction l generalizing w with
  | nil => simp [each]
  | cons a l ih =>
    unfold each
    simp only [removeVmaStruct,setAreas,rules]
    rw [ih]
    simp [diff_cons]

end Loop

def Splits (areas : List Area) (start stop : Nat) : Prop := ∃ a ∈ areas,isShared a.flags = true ∧ a.start < start ∧ stop < a.stop

instance (areas : List Area) (start stop : Nat) : Decidable (Splits areas start stop) := by unfold Splits; infer_instance

section Whole
variable {areas : List Area}

structure Unmapped (pager : Pager τ) (m start stop : Nat) (w t : World τ) : Prop where
  areas : ∃ new,t.areas = update w.areas m new ∧ new.Perm ((w.areas m).flatMap (pieces start stop)) ∧ Ordered new
  books : ∃ f,t.toBooks = {w.toBooks with shmem:=f}
  grants : t.grants = w.grants
  tables : t.tables = (touched (w.areas m) start stop).reverse.foldl (clearPart pager m start stop) w.tables
  law : Law w.areas w.toBooks → ¬ Splits (w.areas m) start stop → Law t.areas t.toBooks

lemma mem_touched : a ∈ touched areas start stop ↔ a ∈ areas ∧ start < a.stop ∧ a.start < stop := by simp [touched]

lemma mem_untouched : a ∈ (areas.filter fun a => !(decide (start < a.stop) && decide (a.start < stop))) ↔ a ∈ areas ∧ ¬ (start < a.stop ∧ a.start < stop) := by
  rw [mem_filter]
  refine and_congr_right fun _ => ?_
  by_cases meet : start < a.stop ∧ a.start < stop
  · simp [meet]
  have off : (decide (start < a.stop) && decide (a.start < stop)) = false := by
    rw [Bool.and_eq_false_iff,decide_eq_false_iff_not,decide_eq_false_iff_not]
    omega
  simp [meet,off]

lemma parts_perm (areas : List Area) (start stop : Nat) :
    (touched areas start stop ++ areas.filter fun a => !(decide (start < a.stop) && decide (a.start < stop))).Perm areas :=
  filter_append_perm _ areas

lemma untouched_perm (none : touched areas start stop = []) : areas.Perm (areas.flatMap (pieces start stop)) := by
  have all := parts_perm areas start stop
  have cut := pieces_perm areas start stop
  rw [none] at all cut
  exact all.symm.trans cut.symm

lemma Law.here (law : Law w.areas w.toBooks) (m : Nat) : Law (update w.areas m (w.areas m)) w.toBooks := by rwa [update_eq_self]

lemma Unmapped.untouched (ordered : Ordered (w.areas m)) (none : touched (w.areas m) start stop = []) : Unmapped pager m start stop w w :=
  ⟨⟨w.areas m,(update_eq_self _ _).symm,untouched_perm none,ordered⟩,⟨w.shmem,rfl⟩,rfl,by rw [none]; rfl,fun law _ => law⟩

lemma diff_perm (areas : List Area) (start stop : Nat) :
    (areas.diff (touched areas start stop)).Perm (areas.filter fun a => !(decide (start < a.stop) && decide (a.start < stop))) := by
  have parts := (parts_perm areas start stop).symm
  refine (parts.diff_right _).trans ?_
  rw [← Multiset.coe_eq_coe,← Multiset.coe_sub,← Multiset.coe_add,add_tsub_cancel_left]

lemma unmap_parts (ordered : Ordered (w.areas m)) (here : m ∈ w.live) (evenStart : start % pgSize = 0) (evenStop : stop % pgSize = 0)
    (part : ∀ a ∈ touched (w.areas m) start stop,¬ (a.start < start ∧ stop < a.stop)) :
    ((do
      each (removeVmaStruct m) (takenAreas (w.areas m) start stop)
      each (unmapVma pager m start stop) (takenAreas (w.areas m) start stop).reverse : Act τ Unit) w).Meets
      (fun _ t => Unmapped pager m start stop w t) (fun _ _ => False) fun _ => ¬ Law w.areas w.toBooks := by
  rw [taken_touched ordered,bind_run,remove_each,next_ok]
  have less := diff_perm (w.areas m) start stop
  have kept : Ordered ((w.areas m).diff (touched (w.areas m) start stop)) := ordered.sublist (diff_sublist _ _)
  have ne : ∀ a ∈ (touched (w.areas m) start stop).reverse,∀ b ∈ (w.areas m).diff (touched (w.areas m) start stop),Apart a b := fun a low b out => by
    have low := mem_touched.mp (mem_reverse.mp low)
    have out := mem_untouched.mp (less.mem_iff.mp out)
    refine ordered.apart.forall low.1 out.1 fun eq => ?_
    subst eq
    exact out.2 low.2
  have all : (touched (w.areas m) start stop).reverse.Perm (touched (w.areas m) start stop) := reverse_perm _
  have loop : (each (unmapVma pager m start stop) _ _).Meets _ _ _ := unmap_each (w := {w with areas:=update w.areas m ((w.areas m).diff (touched (w.areas m) start stop))}) (m := m)
    (l := (touched (w.areas m) start stop).reverse) (by simpa only [update_self] using kept) here (by simpa only [update_self] using ne)
    ((ordered.sublist filter_sublist).apart.perm all.symm fun ne => symm ne) (fun a low => ordered.fits a (mem_touched.mp (mem_reverse.mp low)).1)
    evenStart evenStop (fun a low => (mem_touched.mp (mem_reverse.mp low)).2) fun a low => part a (mem_reverse.mp low)
  have held : Law w.areas w.toBooks → Law (update w.areas m ((touched (w.areas m) start stop).reverse ++ [] ++ (w.areas m).diff (touched (w.areas m) start stop))) w.toBooks :=
    fun law => (law.here m).perm here (by
      rw [append_nil]
      exact (all.append less).trans (parts_perm _ _ _))
  refine loop.mono (fun _ t cut => ?_) (fun _ _ no => no) fun x bad law => bad [] ?_
  · obtain ⟨new,areas,perm,after⟩ := cut.areas
    simp only [update_idem,update_self] at areas perm
    have perm' : new.Perm ((w.areas m).flatMap (pieces start stop)) := perm.trans (((all.flatMap_right _).append less).trans (pieces_perm _ _ _).symm)
    obtain ⟨f,books⟩ := cut.books
    refine ⟨⟨new,areas,perm',after⟩,⟨f,books⟩,cut.script.1,cut.tables,fun law _ => ?_⟩
    have last := cut.law [] (by simpa only [update_idem,update_self] using held law)
    simp only [update_idem,update_self,append_nil] at last
    rw [areas]
    exact last.perm (cut.live ▸ here) perm
  simpa only [update_idem,update_self] using held law

lemma split_touched (ordered : Ordered areas) (mem : a ∈ areas) (both : a.start < start ∧ stop < a.stop) (order : start < stop) :
    touched areas start stop = [a] ∧ (areas.flatMap (pieces start stop)).Perm (⟨a.start,start,a.flags,none,0⟩ :: resized a stop a.stop :: areas.erase a) := by
  have out : ∀ b ∈ areas.erase a,(decide (start < b.stop) && decide (b.start < stop)) = false := fun b low => by
    obtain ⟨ne,low⟩ := ordered.nodup.mem_erase_iff.mp low
    have := ordered.others mem b low ne
    unfold Apart at this
    rw [Bool.and_eq_false_iff,decide_eq_false_iff_not,decide_eq_false_iff_not]
    omega
  have front := perm_cons_erase mem
  have this : (decide (start < a.stop) && decide (a.start < stop)) = true := by
    rw [Bool.and_eq_true,decide_eq_true_eq,decide_eq_true_eq]
    omega
  constructor
  · have few := front.filter fun a => decide (start < a.stop) && decide (a.start < stop)
    have rest : (areas.erase a).filter (fun a => decide (start < a.stop) && decide (a.start < stop)) = [] :=
      filter_eq_nil_iff.mpr fun b low => by simp only [out b low,Bool.false_eq_true,not_false_iff]
    simp only [filter_cons,this,if_true,rest] at few
    exact perm_singleton.mp few
  refine (front.flatMap_right _).trans (.of_eq ?_)
  rw [flatMap_cons,flatMap_congr fun b low => pieces_untouched (out b low),flatMap_singleton']
  unfold pieces
  rw [if_neg (by omega),if_pos both]
  rfl

lemma unmap_split (ordered : Ordered (w.areas m)) (here : m ∈ w.live) (evenStart : start % pgSize = 0) (evenStop : stop % pgSize = 0)
    (mem : a ∈ w.areas m) (both : a.start < start ∧ stop < a.stop) (order : start < stop) :
    ((do
      let nvma ← vmaCreate a.start start a.flags
      let kept ← vmaResize a stop a.stop
      setAreas m (replaceArea (w.areas m) a kept)
      insertVmaStruct m nvma
      unmapRange pager m start stop : Act τ Unit) w).Meets
      (fun _ t => Unmapped pager m start stop w t) (fun _ t => ∃ n,t = {w with tick:=n}) fun _ => False := by
  have fits := ordered.fits a mem
  have solid := fits.solid
  obtain ⟨only,cut⟩ := split_touched ordered mem both order
  have left : (⟨a.start,start,a.flags,none,0⟩ : Area) ∈ pieces start stop a := by
    unfold pieces
    rw [if_neg (by omega),if_pos both]
    exact mem_cons_self
  have right : resized a stop a.stop ∈ pieces start stop a := by
    unfold pieces
    rw [if_neg (by omega),if_pos both]
    simp
  have fitsRight := pieces_fits fits evenStart evenStop right
  have fitsLeft := pieces_fits fits evenStart evenStop left
  have ran : ∀ u : World τ,vmaResize a stop a.stop u = .ok (resized a stop a.stop) u := fun u => vmaResize_ok evenStop fits.stopAligned (by omega) both.2 (le_refl _)
  have shrunk : Ordered (replaceArea (w.areas m) a (resized a stop a.stop)) :=
    ordered.replace fitsRight both.2 solid fun b low differ => (ordered.others mem b low differ).piece right
  have perm : (replaceArea (w.areas m) a (resized a stop a.stop)).Perm _ := replaceArea_perm ordered.nodup mem
  have ne : ∀ b ∈ replaceArea (w.areas m) a (resized a stop a.stop),Apart ⟨a.start,start,a.flags,none,0⟩ b := fun b low => by
    rcases mem_cons.mp (perm.mem_iff.mp low) with rfl | low
    · exact .inl (le_of_lt order)
    obtain ⟨differ,low⟩ := ordered.nodup.mem_erase_iff.mp low
    exact (ordered.others mem b low differ).piece left
  simp only [vmaCreate,granted,rules,ite_run]
  cases yes : w.grants w.tick with
  | false => exact ⟨w.tick + 1,rfl⟩
  | true =>
    simp only [rules,ran,setAreas]
    rw [insertVmaStruct_ok (by simpa only [update_self] using shrunk) fitsLeft (by simpa only [update_self] using ne)]
    simp only [rules,unmapRange,update_idem,update_self]
    have final := (insertArea_perm shrunk ⟨a.start,start,a.flags,none,0⟩).trans (.cons _ perm)
    refine ⟨⟨_,rfl,final.trans cut.symm,shrunk.insert fitsLeft ne⟩,⟨w.shmem,rfl⟩,rfl,?_,fun law all => ?_⟩
    · rw [only,reverse_singleton,foldl_cons,foldl_nil,clearPart,max_eq_left (by omega),min_eq_left (by omega)]
    have private_ : isShared a.flags = false := by
      cases shared : isShared a.flags with
      | true => exact (all ⟨a,mem,shared,both⟩).elim
      | false => rfl
    have plain := (law.good m a mem).plain private_
    refine law.replace here (fun o => ?_) fun b low => ?_
    · rw [final.countP_eq,(perm_cons_erase mem).countP_eq]
      simp [resized,plain]
    rcases mem_cons.mp (final.mem_iff.mp low) with rfl | low
    · exact ⟨fun _ => rfl,fun shared => by rw [private_] at shared; cases shared⟩
    rcases mem_cons.mp low with rfl | low
    · exact (law.good m a mem).resized (by omega) (le_refl _)
    exact law.good m b (mem_of_mem_erase low)

lemma mmUnmap_run (ordered : Ordered (w.areas m)) (here : m ∈ w.live) (addr len : Nat) : (mmUnmap pager m addr len w).Meets
      (fun _ t => userAccess (lowEnd addr) (highEnd addr len) = true ∧ Unmapped pager m (lowEnd addr) (highEnd addr len) w t)
      (fun _ t => ∃ n,t = {w with tick:=n}) fun _ => ¬ Law w.areas w.toBooks := by
  have evenStart := lowEnd_aligned addr
  have evenStop := highEnd_aligned addr len
  unfold mmUnmap
  generalize lowEnd addr = start at *
  generalize highEnd addr len = stop at *
  simp only [ite_run,rules]
  cases access : userAccess start stop with
  | false => exact ⟨w.tick,rfl⟩
  | true =>
    simp only [Bool.not_true,Bool.false_eq_true,if_false]
    obtain ⟨-,order,-⟩ := userAccess_iff.mp access
    have done : ∀ {t},Unmapped pager m start stop w t → True ∧ Unmapped pager m start stop w t := fun out => ⟨trivial,out⟩
    cases got : findVma (w.areas m) start with
    | none =>
      refine ⟨trivial,Unmapped.untouched ordered (filter_eq_nil_iff.mpr fun a mem => ?_)⟩
      have := findVma_none got a mem
      simp
      omega
    | some vma =>
      obtain ⟨mem,_,later⟩ := findVma_some ordered got
      dsimp only
      rw [ite_run]
      refine .ite (fun new => ⟨trivial,Unmapped.untouched ordered (filter_eq_nil_iff.mpr fun a inside => ?_)⟩) fun old => ?_
      · rcases eq_or_ne a vma with rfl | ne
        · simp
          omega
        have := (ordered.fits vma mem).solid
        simp only [Bool.and_eq_true,decide_eq_true_eq]
        rintro ⟨low,_⟩
        have := later a inside low ne
        omega
      rw [ite_run]
      refine .ite (fun both => ?_) fun part => ?_
      · simp only [Bool.and_eq_true,decide_eq_true_eq] at both
        exact (unmap_split ordered here evenStart evenStop mem both order).mono (fun _ t => done) (fun _ _ err => err) fun _ no => no.elim
      simp only [Bool.and_eq_true,decide_eq_true_eq] at part
      refine (unmap_parts ordered here evenStart evenStop fun a inside => ?_).mono (fun _ t => done) (fun _ _ no => no.elim) fun _ bad => bad
      obtain ⟨inside,meet⟩ := mem_touched.mp inside
      rcases eq_or_ne a vma with rfl | ne
      · exact part
      have := later a inside meet.1 ne
      omega

end Whole
end Ucore.Vmm

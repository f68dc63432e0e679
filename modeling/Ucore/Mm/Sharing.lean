import Ucore.Mm.Law

-- A page is written only through an entry that nobody shares it with, what a
-- clean page of the swap cache holds is on the disk, and what an entry shows
-- changes only when the entry does or when its owner stores.
namespace Ucore.Mm
open Bytes Tally
variable {b c : Books} {s t : Core}

def Exclusive (b : Books) (s : Core) : Prop := ∀ k f a d,s.pte k = .present f true a d → b.pin f = 0 ∧ Sole b s k f

def Clean (s : Core) : Prop :=
  ∀ f,s.swap f = true → s.dirty f = false → (∀ k w a,s.pte k ≠ .present f w a true) → s.disk (s.index f) = s.data f

def Core.view (s : Core) : Pte → Option Buf
  | .empty => none
  | .present f _ _ _ => some (s.data f)
  | .swapped o => some ((s.find o).elim (s.disk o) s.data)

lemma Law.unmapped (law : Law b s) (idle : s.ref f = 0) (k : Key) : ¬ (s.pte k).Maps f := fun maps => by
  have := law.maps_used maps
  omega

lemma Law.unheld (law : Law b s) (count : s.memMap o = 0 ∨ s.memMap o = swapUnused) (k : Key) : ¬ (s.pte k).Holds o := fun holds => by
  have := law.holds_used holds
  omega

lemma Cache.find_iff (cache : Cache s) : s.find o = some f ↔ s.swap f = true ∧ s.index f = o := by
  constructor
  · intro got
    exact (cache.find_some got).2
  rintro ⟨cached,rfl⟩
  exact cache.find_of cached

lemma Cache.find_eq (cache : Cache s) (new : Cache t)
    (same : ∀ f,(t.swap f = true ∧ t.index f = o) ↔ (s.swap f = true ∧ s.index f = o)) : t.find o = s.find o := by
  ext f
  rw [new.find_iff,cache.find_iff]
  exact same f

lemma Sole.mono (sole : Sole b s k f) (maps : ∀ j,(t.pte j).Maps f → (s.pte j).Maps f ∨ j = k)
    (cached : t.swap f = true → s.swap f = true ∧ t.index f = s.index f)
    (holds : ∀ j,(t.pte j).Holds (s.index f) → s.swap f = true → (s.pte j).Holds (s.index f))
    (duty : s.swap f = true → b.duty (s.index f) = 0 → c.duty (s.index f) = 0) : Sole c t k f where
  entries j new := (maps j new).elim (sole.entries j) id
  slot swap j new := by
    obtain ⟨old,index⟩ := cached swap
    exact sole.slot old j (holds j (index ▸ new) old)
  duty swap := by
    obtain ⟨old,index⟩ := cached swap
    rw [index]
    exact duty old (sole.duty old)

lemma Sole.cover (sole : Sole b s k f) (pte : t.pte = set s.pte i e) (swap : t.swap = s.swap) (index : t.index = s.index)
    (maps : e.Maps f → (s.pte i).Maps f ∨ i = k) (holds : e.Holds (s.index f) → s.swap f = true → (s.pte i).Holds (s.index f))
    (duty : s.swap f = true → b.duty (s.index f) = 0 → c.duty (s.index f) = 0) : Sole c t k f := by
  refine sole.mono (fun j new => ?_) (fun cached => ⟨swap ▸ cached,congrFun index f⟩) (fun j new cached => ?_) duty
  · rw [pte] at new
    rcases eq_or_ne j i with rfl | far
    · rw [set_self] at new
      exact maps new
    rw [set_ne far] at new
    exact .inl new
  rw [pte] at new
  rcases eq_or_ne j i with rfl | far
  · rw [set_self] at new
    exact holds new cached
  rwa [set_ne far] at new

lemma set_ne_writable {e : Pte} (still : set s.pte k e j = .present g true a d) (dull : ∀ g a d,e ≠ .present g true a d) : j ≠ k ∧ s.pte j = .present g true a d := by
  rcases eq_or_ne j k with rfl | far
  · rw [set_self] at still
    exact absurd still (dull g a d)
  rw [set_ne far] at still
  exact ⟨far,still⟩

namespace Exclusive
variable (excl : Exclusive b s)
include excl

lemma keep (pte : t.pte = s.pte) (pin : ∀ k f a d,s.pte k = .present f true a d → c.pin f = b.pin f)
    (cached : ∀ k f a d,s.pte k = .present f true a d → t.swap f = true → s.swap f = true ∧ t.index f = s.index f)
    (duty : ∀ k f a d,s.pte k = .present f true a d → s.swap f = true → c.duty (s.index f) = b.duty (s.index f)) : Exclusive c t := by
  intro k f a d entry
  rw [pte] at entry
  obtain ⟨unpinned,sole⟩ := excl k f a d entry
  refine ⟨(pin k f a d entry).trans unpinned,sole.mono (fun j new => .inl (pte ▸ new)) (cached k f a d entry) (fun j new _ => pte ▸ new) ?_⟩
  intro swap none
  rw [duty k f a d entry swap]
  exact none

lemma same (pte : t.pte = s.pte) (swap : t.swap = s.swap) (index : t.index = s.index) (pin : c.pin = b.pin)
    (duty : c.duty = b.duty) : Exclusive c t :=
  excl.keep pte (fun _ f _ _ _ => congrFun pin f) (fun _ f _ _ _ cached => ⟨swap ▸ cached,congrFun index f⟩)
    (fun _ f _ _ _ _ => congrFun duty (s.index f))

lemma clear (entry : s.pte k = .present f w a d) : Exclusive {b with pin:=set b.pin f (b.pin f + 1)} {s with pte:=set s.pte k .empty,dirty:=dirty} := by
  intro j g a d writes
  obtain ⟨far,writes⟩ := set_ne_writable writes (by simp)
  obtain ⟨unpinned,sole⟩ := excl j g a d writes
  have ne : g ≠ f := by
    rintro rfl
    exact far (sole.entries k (entry ▸ rfl)).symm
  exact ⟨(set_ne ne).trans unpinned,sole.cover rfl rfl rfl False.elim False.elim fun _ none => none⟩

lemma drop (entry : s.pte k = .swapped o) : Exclusive {b with duty:=set b.duty o (b.duty o + 1)} {s with pte:=set s.pte k .empty} := by
  intro j g a d writes
  obtain ⟨far,writes⟩ := set_ne_writable writes (by simp)
  obtain ⟨unpinned,sole⟩ := excl j g a d writes
  refine ⟨unpinned,sole.cover rfl rfl rfl False.elim False.elim fun cached none => ?_⟩
  have ne : s.index g ≠ o := fun same => sole.slot cached k (by rw [entry]; exact same.symm)
  exact (set_ne ne).trans none

lemma point (pinned : 0 < b.pin f) (alone : w = true → b.pin f = 1 ∧ Sole b s k f) :
    Exclusive {b with pin:=set b.pin f (b.pin f - 1)} {s with pte:=set s.pte k (.present f w a d)} := by
  intro j g a' d' writes
  change set s.pte k (.present f w a d) j = _ at writes
  rcases eq_or_ne j k with rfl | far
  · rw [set_self] at writes
    cases writes
    obtain ⟨one,sole⟩ := alone rfl
    exact ⟨set_self.trans (by rw [one]),sole.cover rfl rfl rfl (fun _ => .inr rfl) False.elim fun _ none => none⟩
  rw [set_ne far] at writes
  obtain ⟨unpinned,sole⟩ := excl j g a' d' writes
  have ne : g ≠ f := by
    rintro rfl
    omega
  exact ⟨(set_ne ne).trans unpinned,sole.cover rfl rfl rfl (fun new => absurd new.symm ne) False.elim fun _ none => none⟩

lemma park (due : 0 < b.duty o) : Exclusive {b with duty:=set b.duty o (b.duty o - 1)} {s with pte:=set s.pte k (.swapped o)} := by
  intro j g a d writes
  obtain ⟨far,writes⟩ := set_ne_writable writes (by simp)
  obtain ⟨unpinned,sole⟩ := excl j g a d writes
  have ne : s.swap g = true → s.index g ≠ o := by
    rintro cached rfl
    have := sole.duty cached
    omega
  exact ⟨unpinned,sole.cover rfl rfl rfl False.elim (fun same cached => (ne cached same.symm).elim) fun cached none => (set_ne (ne cached)).trans none⟩

lemma bits (entry : s.pte k = .present f w a d) (alone : w' = true → w = false → b.pin f = 0 ∧ Sole b s k f) :
    Exclusive b {s with pte:=set s.pte k (.present f w' a' d'),data:=data} := by
  intro j g a₂ d₂ writes
  change set s.pte k (.present f w' a' d') j = _ at writes
  have old : b.pin g = 0 ∧ Sole b s j g := by
    rcases eq_or_ne j k with rfl | far
    · rw [set_self] at writes
      cases writes
      cases w with
      | true => exact excl j f a d entry
      | false => exact alone rfl rfl
    rw [set_ne far] at writes
    exact excl j g a₂ d₂ writes
  refine ⟨old.1,old.2.cover rfl rfl rfl (fun new => .inl ?_) False.elim fun _ none => none⟩
  rw [entry]
  exact new

lemma adopt (law : Law b s) (idle : s.memMap o = swapUnused) : Exclusive b {((s.hashed f o).activated f) with dirty:=dirty,memMap:=m} := by
  intro k g a d writes
  obtain ⟨unpinned,sole⟩ := excl k g a d writes
  refine ⟨unpinned,?_⟩
  rcases eq_or_ne g f with rfl | far
  · have index : ({((s.hashed g o).activated g) with dirty:=dirty,memMap:=m} : Core).index g = o := set_self
    have counts := law.slots.counts o
    have big : 0 < swapUnused := by decide
    refine ⟨sole.entries,fun _ j holds => ?_,fun _ => ?_⟩
    · rw [index] at holds
      exact law.unheld (.inr idle) j holds
    rw [index]
    omega
  exact sole.mono (fun j new => .inl new) (fun cached => ⟨(set_ne far).symm.trans cached,set_ne far⟩) (fun _ new _ => new) fun _ none => none

lemma fetch (law : Law b s) (idle : s.ref f = 0) : Exclusive b {((s.hashed f o).activated f) with data:=data} := by
  refine excl.keep rfl (fun _ _ _ _ _ => rfl) (fun k g a d writes cached => ?_) (fun _ _ _ _ _ _ => rfl)
  have far : g ≠ f := by
    rintro rfl
    exact law.unmapped idle k (by rw [writes]; exact rfl)
  exact ⟨(set_ne far).symm.trans cached,set_ne far⟩

lemma unhashed (same : t.pte = s.pte) (swap : t.swap = set s.swap f false) (index : t.index = s.index)
    (pin : c.pin = b.pin) (duty : c.duty = b.duty) : Exclusive c t := by
  refine excl.keep same (fun _ g _ _ _ => congrFun pin g) (fun k g a d writes cached => ⟨?_,congrFun index g⟩) (fun _ g _ _ _ _ => congrFun duty (s.index g))
  rw [swap] at cached
  rcases eq_or_ne g f with rfl | far
  · rw [set_self] at cached
    cases cached
  exact (set_ne far).symm.trans cached

end Exclusive

lemma Core.unlisted_fields (s : Core) (f : Nat) : (s.unlisted f).pte = s.pte ∧ (s.unlisted f).swap = s.swap ∧ (s.unlisted f).index = s.index ∧
    (s.unlisted f).data = s.data ∧ (s.unlisted f).disk = s.disk ∧ (s.unlisted f).dirty = s.dirty ∧ (s.unlisted f).hash = s.hash := by
  unfold Core.unlisted
  split <;> exact ⟨rfl,rfl,rfl,rfl,rfl,rfl,rfl⟩

lemma Move.exclusive (move : Move l (b,s) (c,t)) (law : Law b s) (excl : Exclusive b s) : Exclusive c t := by
  cases move with
  | alloc | reorder => exact excl.same rfl rfl rfl rfl rfl
  | free _ _ outside => exact excl.unhashed rfl rfl rfl rfl rfl
  | settle => exact excl.same rfl rfl rfl rfl rfl
  | copy => exact excl.same rfl rfl rfl rfl rfl
  | pin used calm =>
    refine excl.keep rfl (fun k g a d writes => set_ne fun same => calm k a d (same ▸ writes)) (fun _ _ _ _ _ cached => ⟨cached,rfl⟩) (fun _ _ _ _ _ _ => rfl)
  | unpin pinned =>
    refine excl.keep rfl (fun k g a d writes => set_ne fun same => ?_) (fun _ _ _ _ _ cached => ⟨cached,rfl⟩) (fun _ _ _ _ _ _ => rfl)
    have := (excl k g a d writes).1
    rw [same] at this
    omega
  | clear entry => exact excl.clear entry
  | drop entry => exact excl.drop entry
  | point empty pinned alone => exact excl.point pinned alone
  | park empty due => exact excl.park due
  | dup few calm =>
    exact excl.keep rfl (fun _ _ _ _ _ => rfl) (fun _ _ _ _ _ cached => ⟨cached,rfl⟩)
      fun k g a d writes cached => set_ne fun same => calm g cached same k a d writes
  | undup due | release due =>
    refine excl.keep rfl (fun _ _ _ _ _ => rfl) (fun _ _ _ _ _ cached => ⟨cached,rfl⟩) fun k g a d writes cached => set_ne fun same => ?_
    have := (excl k g a d writes).2.duty cached
    rw [same] at this
    omega
  | adopt outside out idle => exact excl.adopt law idle
  | fetch loose idle => exact excl.fetch law idle
  | steal | discard =>
    obtain ⟨pte,swap,index,_⟩ := s.unlisted_fields _
    exact excl.unhashed pte (congrArg (set · _ false) swap) index rfl rfl
  | activate | inactivate =>
    obtain ⟨pte,swap,index,_⟩ := s.unlisted_fields _
    exact excl.same pte swap index rfl rfl
  | soil => exact excl.same rfl rfl rfl rfl rfl
  | write => exact excl.same rfl rfl rfl rfl rfl
  | rebit entry alone => exact excl.bits entry alone
  | forget entry alone => exact excl.bits entry alone
  | store entry => exact excl.bits entry fun _ no => by cases no

namespace Clean
variable (clean : Clean s)
include clean

lemma keep (swap : ∀ f,t.swap f = true → s.swap f = true) (dirty : ∀ f,t.swap f = true → t.dirty f = false → s.dirty f = false)
    (bits : ∀ f,t.swap f = true → t.dirty f = false → (∀ k w a,t.pte k ≠ .present f w a true) → ∀ k w a,s.pte k ≠ .present f w a true)
    (same : ∀ f,t.swap f = true → t.dirty f = false → (∀ k w a,t.pte k ≠ .present f w a true) →
      t.disk (t.index f) = s.disk (s.index f) ∧ t.data f = s.data f) : Clean t := by
  intro f cached bare unset
  obtain ⟨disk,data⟩ := same f cached bare unset
  rw [disk,data]
  exact clean f (swap f cached) (dirty f cached bare) (bits f cached bare unset)

lemma same (swap : t.swap = s.swap) (dirty : t.dirty = s.dirty) (index : t.index = s.index) (data : t.data = s.data)
    (disk : t.disk = s.disk) (bits : ∀ f k w a,s.pte k = .present f w a true → ∃ j w a,t.pte j = .present f w a true) : Clean t := by
  refine clean.keep (fun f cached => swap ▸ cached) (fun f _ bare => dirty ▸ bare) (fun f _ _ unset k w a entry => ?_)
    fun f _ _ _ => ⟨by rw [disk,index],by rw [data]⟩
  obtain ⟨j,w,a,marked⟩ := bits f k w a entry
  exact unset j w a marked

lemma freed : Clean (s.freed f) := by
  have ne g : set s.swap f false g = true → g ≠ f ∧ s.swap g = true := by
    intro cached
    rcases eq_or_ne g f with rfl | far
    · rw [set_self] at cached
      cases cached
    exact ⟨far,(set_ne far).symm.trans cached⟩
  exact clean.keep (fun g cached => (ne g cached).2) (fun g cached bare => (set_ne (ne g cached).1).symm.trans bare)
    (fun g _ _ unset => unset) fun g _ _ _ => ⟨rfl,rfl⟩

lemma clear (entry : s.pte k = .present f w a d) : Clean {s with pte:=set s.pte k .empty,dirty:=set s.dirty f (s.dirty f || (s.swap f && d))} := by
  have both g : set s.dirty f (s.dirty f || (s.swap f && d)) g = false → s.dirty g = false ∧ (g = f → s.swap g = true → d = false) := by
    intro bare
    rcases eq_or_ne g f with rfl | far
    · rw [set_self,Bool.or_eq_false_iff] at bare
      exact ⟨bare.1,fun _ cached => by simpa [cached] using bare.2⟩
    rw [set_ne far] at bare
    exact ⟨bare,fun same => absurd same far⟩
  refine clean.keep (fun g cached => cached) (fun g cached bare => (both g bare).1) (fun g cached bare unset j w' a' marked => ?_)
    fun g _ _ _ => ⟨rfl,rfl⟩
  rcases eq_or_ne j k with rfl | far
  · rw [entry] at marked
    cases marked
    cases (both f bare).2 rfl cached
  exact unset j w' a' ((set_ne far).trans marked)

lemma hashed (out : s.swap f = false) (dirty : ∀ g ≠ f,m g = s.dirty g) (data : ∀ g ≠ f,v g = s.data g)
    (this : m f = false → s.disk o = v f) : Clean {((s.hashed f o).activated f) with dirty:=m,data:=v,memMap:=n} := by
  intro g cached bare unset
  change s.disk (set s.index f o g) = v g
  rcases eq_or_ne g f with rfl | far
  · rw [set_self]
    exact this bare
  rw [set_ne far,data g far]
  exact clean g ((set_ne far).symm.trans cached) ((dirty g far).symm.trans bare) unset

lemma unhashed : Clean {((s.unlisted f).unhashed f) with memMap:=n} := by
  obtain ⟨pte,swap,index,data,disk,dirty,_⟩ := s.unlisted_fields f
  refine clean.keep (fun g cached => ?_) (fun g _ bare => dirty ▸ bare) (fun g _ _ unset => pte ▸ unset)
    fun g _ _ _ => ⟨congr disk (congrFun index g),congrFun data g⟩
  change set (s.unlisted f).swap f false g = true at cached
  rcases eq_or_ne g f with rfl | far
  · rw [set_self] at cached
    cases cached
  rwa [set_ne far,swap] at cached

lemma written (cache : Cache s) (cached : s.swap f = true) : Clean {s with disk:=set s.disk (s.index f) (s.data f),dirty:=set s.dirty f false} := by
  intro g swap bare unset
  change set s.disk (s.index f) (s.data f) (s.index g) = s.data g
  rcases eq_or_ne g f with rfl | far
  · rw [set_self]
  have slot : s.index g ≠ s.index f := fun same => far (cache.distinct g ((cache.hashed g).mpr swap) f ((cache.hashed f).mpr cached) same)
  rw [set_ne slot]
  exact clean g swap ((set_ne far).symm.trans bare) unset

lemma bits (entry : s.pte k = .present f w a d) (kept : d = true → d' = true ∨ s.swap f = false ∨ s.dirty f = true)
    (data : ∀ g,g ≠ f ∨ d' = false → v g = s.data g) : Clean {s with pte:=set s.pte k (.present f w' a' d'),data:=v} := by
  refine clean.keep (fun g cached => cached) (fun g _ bare => bare) (fun g cached bare unset j w₂ a₂ marked => ?_)
    fun g _ _ unset => ⟨rfl,data g ?_⟩
  · rcases eq_or_ne j k with rfl | far
    · rw [entry] at marked
      cases marked
      rcases kept rfl with rfl | out | dirty
      · exact unset j w' a' set_self
      · cases cached.symm.trans out
      cases dirty.symm.trans bare
    exact unset j w₂ a₂ ((set_ne far).trans marked)
  rcases eq_or_ne g f with rfl | far
  · cases d' with
    | false => exact .inr rfl
    | true => exact absurd set_self (unset k w' a')
  exact .inl far

end Clean

lemma Move.clean (move : Move l (b,s) (c,t)) (law : Law b s) (clean : Clean s) (keeps : l ≠ .lossy) : Clean t := by
  cases move with
  | settle => exact clean
  | alloc | reorder | pin | unpin | dup | undup | release => exact clean.same rfl rfl rfl rfl rfl fun f k w a entry => ⟨k,w,a,entry⟩
  | free => exact clean.freed
  | copy _ _ out =>
    refine clean.keep (fun g cached => cached) (fun g _ bare => bare) (fun g _ _ unset => unset) fun g cached _ _ => ⟨rfl,set_ne ?_⟩
    rintro rfl
    cases cached.symm.trans out
  | clear entry => exact clean.clear entry
  | drop entry | point entry | park entry =>
    refine clean.same rfl rfl rfl rfl rfl fun f j w a marked => ⟨j,w,a,(set_ne ?_).trans marked⟩
    rintro rfl
    rw [entry] at marked
    cases marked
  | adopt out =>
    refine clean.hashed out (fun g far => set_ne far) (fun g _ => rfl) fun bare => ?_
    rw [set_self] at bare
    cases bare
  | fetch _ _ out => exact clean.hashed out (fun g _ => rfl) (fun g far => set_ne far) fun _ => set_self.symm
  | steal => exact clean.unhashed
  | discard => exact clean.unhashed
  | activate | inactivate =>
    obtain ⟨pte,swap,index,data,disk,dirty,_⟩ := s.unlisted_fields _
    exact clean.same swap dirty index data disk fun f k w a entry => ⟨k,w,a,pte ▸ entry⟩
  | @soil b s f =>
    refine clean.keep (fun g cached => cached) (fun g _ bare => ?_) (fun g _ _ unset => unset) fun g _ _ _ => ⟨rfl,rfl⟩
    change set s.dirty f true g = false at bare
    rcases eq_or_ne g f with rfl | far
    · rw [set_self] at bare
      cases bare
    exact (set_ne far).symm.trans bare
  | write cached => exact clean.written law.cache cached
  | rebit entry alone kept => exact clean.bits entry kept fun _ _ => rfl
  | forget => exact absurd rfl keeps
  | store entry =>
    refine clean.bits entry (fun _ => .inl rfl) fun g far => set_ne ?_
    exact far.resolve_right (by decide)

-- An entry shows the same when it refers to no page and no slot that changed.
lemma view_eq (e : Pte) (data : ∀ f,e.Maps f → t.data f = s.data f)
    (slot : ∀ o,e.Holds o → (t.find o).elim (t.disk o) t.data = (s.find o).elim (s.disk o) s.data) : t.view e = s.view e := by
  cases e with
  | empty => rfl
  | present f w a d => exact congrArg some (data f rfl)
  | swapped o => exact congrArg some (slot o rfl)

lemma view_same (e : Pte) (hash : t.hash = s.hash) (index : t.index = s.index) (data : t.data = s.data) (disk : t.disk = s.disk) : t.view e = s.view e := by
  refine view_eq e (fun f _ => congrFun data f) fun o _ => ?_
  rw [Core.find,Core.find,hash,index,data,disk]

lemma view_data (cache : Cache s) (e : Pte) (hash : t.hash = s.hash) (index : t.index = s.index) (disk : t.disk = s.disk)
    (data : ∀ g ≠ f,t.data g = s.data g) (maps : ¬ e.Maps f) (holds : s.swap f = true → ¬ e.Holds (s.index f)) : t.view e = s.view e := by
  refine view_eq e (fun g here => data g fun same => maps (same ▸ here)) fun o held => ?_
  have find : t.find o = s.find o := by rw [Core.find,Core.find,hash,index]
  rw [find,disk]
  cases got : s.find o with
  | none => rfl
  | some g =>
    obtain ⟨cached,same⟩ := cache.find_iff.mp got
    exact data g fun eq => holds (eq ▸ cached) (by rw [← eq,same]; exact held)

lemma Law.view_unhashed (law : Law b s) (cached : s.swap f = true) (new : Cache t) (swap : t.swap = set s.swap f false) (index : t.index = s.index)
    (data : t.data = s.data) (disk : t.disk = s.disk) (e : Pte) (shown : e.Holds (s.index f) → s.disk (s.index f) = s.data f) : t.view e = s.view e := by
  refine view_eq e (fun g _ => congrFun data g) fun o held => ?_
  rcases eq_or_ne o (s.index f) with rfl | far
  · have gone : t.find (s.index f) = none := by
      cases got : t.find (s.index f) with
      | none => rfl
      | some g =>
        obtain ⟨still,same⟩ := new.find_iff.mp got
        rw [swap] at still
        have ne : g ≠ f := by
          rintro rfl
          rw [set_self] at still
          cases still
        rw [set_ne ne] at still
        rw [index] at same
        have got := law.cache.find_of still
        rw [same,law.cache.find_of cached] at got
        exact absurd (Option.some.inj got).symm ne
    rw [gone,law.cache.find_of cached,disk]
    exact shown held
  have find : t.find o = s.find o := by
    refine law.cache.find_eq new fun g => ?_
    rw [swap,index]
    rcases eq_or_ne g f with rfl | ne
    · exact ⟨fun both => absurd both.2.symm far,fun both => absurd both.2.symm far⟩
    rw [set_ne ne]
  rw [find,data,disk]

lemma Law.view_hashed (law : Law b s) (new : Cache t) (out : s.swap f = false) (swap : t.swap = set s.swap f true) (index : t.index = set s.index f o)
    (data : ∀ g ≠ f,t.data g = s.data g) (disk : t.disk = s.disk) (e : Pte) (maps : e.Maps f → t.data f = s.data f)
    (slot : e.Holds o → s.find o = none ∧ t.data f = s.disk o) : t.view e = s.view e := by
  have ne g : s.swap g = true → g ≠ f := by
    rintro cached rfl
    cases cached.symm.trans out
  refine view_eq e (fun g here => ?_) fun p held => ?_
  · rcases eq_or_ne g f with rfl | far
    · exact maps here
    exact data g far
  rcases eq_or_ne p o with rfl | far
  · obtain ⟨none,read⟩ := slot held
    have got : t.find p = some f := new.find_iff.mpr ⟨by rw [swap,set_self],by rw [index,set_self]⟩
    rw [got,none]
    exact read
  have find : t.find p = s.find p := by
    refine law.cache.find_eq new fun g => ?_
    rw [swap,index]
    rcases eq_or_ne g f with rfl | away
    · rw [set_self,set_self,out]
      exact ⟨fun both => absurd both.2.symm far,fun both => absurd both.1 (by decide)⟩
    rw [set_ne away,set_ne away]
  rw [find,disk]
  cases got : s.find p with
  | none => rfl
  | some g => exact data g (ne g (law.cache.find_iff.mp got).1)

lemma view_entry (pte : t.pte k = s.pte k) (same : t.view (s.pte k) = s.view (s.pte k)) : t.view (t.pte k) = s.view (s.pte k) := by
  rw [pte]
  exact same

-- The disk copy of a cached page is not what its entries show.
lemma Law.view_written (law : Law b s) (cached : s.swap f = true) (e : Pte) : ({s with disk:=set s.disk (s.index f) v,dirty:=m} : Core).view e = s.view e := by
  refine view_eq e (fun _ _ => rfl) fun o held => ?_
  change (s.find o).elim (set s.disk (s.index f) v o) s.data = _
  rcases eq_or_ne o (s.index f) with rfl | away
  · rw [law.cache.find_of cached]
    rfl
  rw [set_ne away]

lemma view_bits (old : s.pte j = .present f w a d) (k : Key) :
    ({s with pte:=set s.pte j (.present f w' a' d')} : Core).view (set s.pte j (.present f w' a' d') k) = s.view (s.pte k) := by
  rcases eq_or_ne k j with rfl | away
  · rw [set_self,old]
    rfl
  rw [set_ne away]
  exact view_same _ rfl rfl rfl rfl

def Label.touches (k : Key) : Label → Prop
  | .entry j => j = k
  | .store j => j = k
  | _ => False

-- Leaving the cache while entries hold the slot is safe for a clean page only.
lemma Move.view (move : Move l (b,s) (c,t)) (law : Law b s) (excl : Exclusive b s) (clean : l = .discard → Clean s) (k : Key)
    (far : ¬ l.touches k) : t.view (t.pte k) = s.view (s.pte k) := by
  have new := move.law law
  cases move with
  | settle => rfl
  | alloc | reorder | free | pin | unpin | dup | undup | release | soil => exact view_same _ rfl rfl rfl rfl
  | copy _ idle outside =>
    exact view_data law.cache _ rfl rfl rfl (fun g away => set_ne away) (law.unmapped idle k) fun cached => absurd (cached.symm.trans outside) (by decide)
  | clear | drop | point | park => exact view_entry (set_ne fun same => far same.symm) (view_same _ rfl rfl rfl rfl)
  | adopt outside out idle => exact law.view_hashed new.cache outside rfl rfl (fun _ _ => rfl) rfl _ (fun _ => rfl) fun held => absurd held (law.unheld (.inr idle) k)
  | fetch loose idle outside used got =>
    exact law.view_hashed new.cache outside rfl rfl (fun g away => set_ne away) rfl _ (fun maps => absurd maps (law.unmapped idle k))
      fun _ => ⟨got,set_self⟩
  | steal cached none =>
    obtain ⟨pte,swap,index,data,disk,_⟩ := s.unlisted_fields _
    exact view_entry (congrFun pte k) (law.view_unhashed cached new.cache (congrArg (set · _ false) swap) index data disk _
      fun held => absurd held (law.unheld (.inl none) k))
  | discard cached idle bare counted =>
    obtain ⟨pte,swap,index,data,disk,_⟩ := s.unlisted_fields _
    refine view_entry (congrFun pte k) (law.view_unhashed cached new.cache (congrArg (set · _ false) swap) index data disk _ fun _ => ?_)
    exact clean rfl _ cached bare fun j w a entry => law.unmapped idle j (entry ▸ rfl)
  | activate | inactivate =>
    obtain ⟨pte,_,index,data,disk,_,hash⟩ := s.unlisted_fields _
    exact view_entry (congrFun pte k) (view_same _ hash index data disk)
  | write cached => exact law.view_written cached _
  | rebit entry => exact view_bits entry k
  | forget entry => exact view_bits entry k
  | store entry =>
    obtain ⟨_,sole⟩ := excl _ _ _ _ entry
    have away : k ≠ _ := fun same => far same.symm
    exact view_entry (set_ne away) (view_data law.cache _ rfl rfl rfl (fun g ne => set_ne ne) (fun maps => away (sole.entries k maps))
      fun cached => sole.slot cached k)

end Ucore.Mm

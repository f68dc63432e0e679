import Ucore.Buddy.Free

namespace Ucore.Buddy
open Dyadic

variable {start : Nat → Page} {zones : List (Nat × Nat)} {s : Pmm} {busy : Set Nat} {z : Nat × Nat}

lemma initPages_spec (n p : Nat) (s : Pmm) (reserved : ∀ x,p ≤ x → x < p + n → (s.page x).pgReserved = true) :
    initPages s p n = .ok {s with page:=fun q => if p ≤ q ∧ q < p + n then
      {ref:=0,pgReserved:=false,pgProperty:=false,property:=0,zoneNum:=s.zoneNum} else s.page q} := by
  induction n generalizing s p with
  | zero =>
    have eq : (fun q => if p ≤ q ∧ q < p + 0 then
        ({ref:=0,pgReserved:=false,pgProperty:=false,property:=0,zoneNum:=s.zoneNum} : Page) else s.page q) = s.page := by
      funext q
      rw [if_neg (by omega)]
    rw [eq]
    rfl
  | succ n ih =>
    rw [initPages,if_pos (reserved p (le_refl _) (by omega)),ih]
    · congr 2
      funext q
      simp only [setPage_page,setPage_zoneNum]
      by_cases head : q = p
      · subst q; simp
      by_cases tail : p + 1 ≤ q ∧ q < p + 1 + n
      · rw [if_pos tail,if_pos (by omega)]
      rw [if_neg tail,if_neg head,if_neg (by omega)]
    intro x _ _
    have ne : x ≠ p := by omega
    simpa [ne] using reserved x (by omega) (by omega)

def newZone (s : Pmm) (base n : Nat) : Pmm :=
  {s with
    page:=fun q => if base ≤ q ∧ q < base + n then
      {ref:=0,pgReserved:=false,pgProperty:=false,property:=0,zoneNum:=s.zoneNum} else s.page q,
    memBase:=fun k => if k = s.zoneNum then base else s.memBase k,
    zoneNum:=s.zoneNum + 1}

lemma inZone_append : InZone (zones ++ [(base,n)]) k p ↔
    InZone zones k p ∨ (k = zones.length ∧ base ≤ p ∧ p < base + n) := by
  constructor
  · rintro ⟨z,got,low,high⟩
    rcases Nat.lt_trichotomy k zones.length with below | rfl | _
    · rw [List.getElem?_append_left below] at got
      exact .inl ⟨z,got,low,high⟩
    · rw [List.getElem?_concat_length] at got
      cases got
      exact .inr ⟨rfl,low,high⟩
    rw [List.getElem?_eq_none (by simp; omega)] at got
    cases got
  rintro (⟨z,got,low,high⟩ | ⟨rfl,low,high⟩)
  · have below : k < zones.length := (List.getElem?_eq_some_iff.mp got).1
    exact ⟨z,by rw [List.getElem?_append_left below]; exact got,low,high⟩
  exact ⟨(base,n),List.getElem?_concat_length,low,high⟩

lemma getElem_append {w : Nat × Nat} (got : (zones ++ [(base,n)])[k]? = some w) : zones[k]? = some w ∨ (k = zones.length ∧ w = (base,n)) := by
  rcases Nat.lt_trichotomy k zones.length with below | rfl | _
  · rw [List.getElem?_append_left below] at got
    exact .inl got
  · rw [List.getElem?_concat_length] at got
    cases got
    exact .inr ⟨rfl,rfl⟩
  rw [List.getElem?_eq_none (by simp; omega)] at got
  cases got

lemma Inv.newZone (inv : Inv start zones s busy) (room : s.zoneNum < maxZoneNum) (fits : base + n ≤ s.npage)
    (reserved : ∀ x,base ≤ x → x < base + n → (s.page x).pgReserved = true) :
    Inv start (zones ++ [(base,n)]) (newZone s base n) (busy ∪ range base n) := by
  have fresh l x : InZone zones l x → ¬ (base ≤ x ∧ x < base + n) := by
    intro old inside
    have := reserved x inside.1 inside.2
    rw [(inv.inside l x old).1] at this
    cases this
  have sitsOld : ∀ {l p o},Sits zones l p o → Sits (zones ++ [(base,n)]) l p o := by
    rintro l p o ⟨w,got,low,high,even⟩
    have below := (List.getElem?_eq_some_iff.mp got).1
    exact ⟨w,by rw [List.getElem?_append_left below]; exact got,low,high,even⟩
  refine ⟨⟨?_,?_,inv.small,?_,?_,?_,?_,?_,inv.reserved⟩,?_,inv.nodup,inv.counted,?_,inv.disjoint,?_,?_,?_⟩
  · simp [Buddy.newZone,inv.count]
  · rw [List.length_append,← inv.count]; exact room
  · intro k w got
    rcases getElem_append got with old | ⟨_,rfl⟩
    · exact inv.fits k w old
    exact fits
  · intro k w got
    rcases getElem_append got with old | ⟨rfl,rfl⟩
    · have below : k < zones.length := (List.getElem?_eq_some_iff.mp old).1
      have ne : k ≠ s.zoneNum := by rw [inv.count]; omega
      simpa [Buddy.newZone,ne] using inv.base k w old
    simp [Buddy.newZone,inv.count]
  · intro k l p one two
    rcases inZone_append.mp one with oldOne | ⟨rfl,inOne⟩ <;> rcases inZone_append.mp two with oldTwo | ⟨rfl,inTwo⟩
    · exact inv.apart k l p oldOne oldTwo
    · exact (fresh k p oldOne inTwo).elim
    · exact (fresh l p oldTwo inOne).elim
    rfl
  · intro k p mem
    rcases inZone_append.mp mem with old | ⟨rfl,inside⟩
    · simpa [Buddy.newZone,fresh k p old] using inv.inside k p old
    simp [Buddy.newZone,inside,inv.count]
  · intro p nowhere
    have notNew : ¬ (base ≤ p ∧ p < base + n) := fun inside => nowhere zones.length (inZone_append.mpr (.inr ⟨rfl,inside⟩))
    have notOld : ∀ k,¬ InZone zones k p := fun k old => nowhere k (inZone_append.mpr (.inl old))
    simpa [Buddy.newZone,notNew] using inv.outside p notOld
  · intro o p
    by_cases inside : base ≤ p ∧ p < base + n
    · have unlisted : p ∉ s.freeList o := by
        intro listed
        obtain ⟨⟨l,old⟩,_⟩ := (inv.listed o p).mp listed
        exact fresh l p old inside
      simpa [Buddy.newZone,inside] using unlisted
    have zone : (∃ k,InZone (zones ++ [(base,n)]) k p) ↔ ∃ k,InZone zones k p := by
      simp only [inZone_append]
      exact ⟨fun ⟨k,h⟩ => h.elim (fun old => ⟨k,old⟩) (fun new => (inside new.2).elim),fun ⟨k,h⟩ => ⟨k,.inl h⟩⟩
    rw [zone]
    simpa [Buddy.newZone,inside] using inv.listed o p
  · intro o p listed
    obtain ⟨cap,l,sits⟩ := inv.block o p listed
    exact ⟨cap,l,sitsOld sits⟩
  · intro k x mem
    rcases inZone_append.mp mem with old | ⟨rfl,inside⟩
    · have away : x ∉ range base n := fresh k x old
      have split : x ∉ busy ∪ range base n ↔ x ∉ busy := by simp [away]
      rw [split]
      exact inv.covers k x old
    constructor
    · intro free
      exact (free (.inr inside)).elim
    rintro ⟨o,p,listed,within⟩
    obtain ⟨_,l,sits⟩ := inv.block o p listed
    exact (fresh l x (sits.inZone within) inside).elim
  · rintro x (used | inside)
    · obtain ⟨k,old⟩ := inv.held x used
      exact ⟨k,inZone_append.mpr (.inl old)⟩
    exact ⟨zones.length,inZone_append.mpr (.inr ⟨rfl,inside⟩)⟩
  intro k w o p got sits listed below near
  rcases getElem_append got with old | ⟨rfl,rfl⟩
  · have less : k < zones.length := (List.getElem?_eq_some_iff.mp old).1
    have spot : Sits zones k p o := by
      obtain ⟨w',found',low,high,even⟩ := sits
      rw [List.getElem?_append_left less] at found'
      exact ⟨w',found',low,high,even⟩
    have inside : InZone zones k (w.1 + buddy (p - w.1) o) := (inZone_append.mp near).elim id (fun new => by omega)
    exact inv.coalesced k w o p old spot listed below inside
  obtain ⟨_,l,spot⟩ := inv.block o p listed
  have home := sits.inZone (within_head p o)
  rcases inZone_append.mp home with old | ⟨_,inside⟩
  · obtain ⟨v,bad,_⟩ := old
    have less := (List.getElem?_eq_some_iff.mp bad).1
    omega
  exact (fresh l p (spot.inZone (within_head p o)) inside).elim

def Start (z : Nat × Nat) (order p n : Nat) : Prop :=
  Aligned (p - z.1) order ∧
    (order < maxOrder → n < 2^order ∨ (Aligned (p - z.1) (order+1) ∧ n < 2^(order+1)))

lemma put_front (inv : Inv start zones s busy) (span : Span zones k busy p n) (got : zones[k]? = some z)
    (all : p + n = z.1 + z.2) (fits : 2^order ≤ n) (cap : order ≤ maxOrder) (ready : Start z order p n) :
    Inv start zones (s.insertBlock order p) (busy \ blockSet p order) ∧
      Span zones k (busy \ blockSet p order) (p + 2^order) (n - 2^order) ∧ Start z order (p + 2^order) (n - 2^order) := by
  obtain ⟨used,w,found',low,_⟩ := span
  obtain rfl : z = w := Option.mem_unique got found'
  obtain ⟨even,lone⟩ := ready
  have pos := Nat.two_pow_pos order
  have shift : p + 2^order - z.1 = (p - z.1) + 2^order := by omega
  refine ⟨?_,⟨?_,z,got,by omega,by omega⟩,by rw [shift]; exact even.add_pow,?_⟩
  · apply inv.put ⟨z,got,low,by omega,even⟩ cap (fun x inside => used x inside.1 (by have := inside.2; omega)) got
    intro below near listed
    rcases lone below with less | ⟨up,_⟩
    · omega
    rw [buddy_left up] at near listed
    obtain ⟨w,found'',_,inside⟩ := near
    obtain rfl : z = w := Option.mem_unique got found''
    exact inv.head_free listed (within_head _ _) (used _ (by omega) (by omega))
  · intro x _ below
    refine ⟨used x (by omega) (by omega),?_⟩
    rintro ⟨_,_⟩
    omega
  intro below
  have double : 2^(order+1) = 2^order + 2^order := by rw [Nat.pow_succ]; ring
  rcases lone below with less | ⟨_,_⟩
  · omega
  exact .inl (by omega)

lemma initBlocks_spec (got : zones[k]? = some z) (fuel order p n : Nat) (enough : n ≤ fuel) (cap : order ≤ maxOrder)
    (all : p + n = z.1 + z.2) (ready : Start z order p n) (span : Span zones k busy p n) (inv : Inv start zones s busy) :
    ∃ t q m,initBlocks order fuel s p n = (t,q,m) ∧ m < 2^order ∧ Aligned (q - z.1) order ∧ Freed start zones k busy p n t q m := by
  induction fuel generalizing s p n busy with
  | zero =>
    obtain rfl : n = 0 := by omega
    exact ⟨s,p,0,rfl,Nat.two_pow_pos order,ready.1,.none inv span⟩
  | succ _ ih =>
    by_cases fits : 2^order ≤ n
    · obtain ⟨after,rest,next⟩ := put_front inv span got all fits cap ready
      have pos := Nat.two_pow_pos order
      obtain ⟨t,q,m,ran,less,even,later⟩ := ih (p + 2^order) (n - 2^order) (by omega) (by omega) next rest after
      exact ⟨t,q,m,by simpa [initBlocks,fits] using ran,less,even,later.step fits⟩
    exact ⟨s,p,n,by simp [initBlocks,fits],by omega,ready.1,.none inv span⟩

lemma Freed.trans (one : Freed start zones k busy base n t b m)
    (two : Freed start zones k (busy \ range base (b - base)) b m u c l) : Freed start zones k busy base n u c l := by
  obtain ⟨_,_,_,_⟩ := one
  obtain ⟨_,_,inv,span⟩ := two
  have union : (busy \ range base (b - base)) \ range b (c - b) = busy \ range base (c - base) := by
    ext x
    simp only [Set.mem_sdiff,mem_range]
    constructor
    · rintro ⟨⟨used,_⟩,_⟩; exact ⟨used,by omega⟩
    rintro ⟨used,_⟩; exact ⟨⟨used,by omega⟩,by omega⟩
  rw [union] at inv span
  exact ⟨by omega,by omega,inv,span⟩

lemma initOrders_spec (got : zones[k]? = some z) (order p n : Nat) (cap : order ≤ maxOrder)
    (all : p + n = z.1 + z.2) (ready : Start z order p n) (span : Span zones k busy p n) (inv : Inv start zones s busy) :
    ∃ t,initOrders order s p n = t ∧ Freed start zones k busy p n t (p + n) 0 := by
  induction order generalizing s p n busy with
  | zero =>
    obtain ⟨t,q,m,ran,less,_,freed⟩ := initBlocks_spec got n 0 p n (le_refl _) cap all ready span inv
    obtain rfl : m = 0 := by simpa using less
    obtain rfl : q = p + n := by have := freed.same; omega
    exact ⟨t,by simp [initOrders,ran],freed⟩
  | succ order ih =>
    by_cases done : n = 0
    · subst n
      exact ⟨s,by simp [initOrders],.none inv span⟩
    obtain ⟨t,q,m,ran,less,even,freed⟩ := initBlocks_spec got n (order+1) p n (le_refl _) cap all ready span inv
    have eq := freed.same
    have next : Start z order q m := ⟨even.mono (by omega),fun _ => .inr ⟨even,less⟩⟩
    obtain ⟨u,rest,later⟩ := ih q m (by omega) (by omega) next freed.span freed.inv
    refine ⟨u,by simp [initOrders,done,ran,rest],?_⟩
    have joined := freed.trans later
    rwa [eq] at joined

lemma buddyInitMemmap_spec (inv : Inv start zones s busy) (has : 0 < n) (room : s.zoneNum < maxZoneNum)
    (fits : base + n ≤ s.npage) (reserved : ∀ x,base ≤ x → x < base + n → (s.page x).pgReserved = true) :
    ∃ t,buddyInitMemmap s base n = .ok t ∧ Inv start (zones ++ [(base,n)]) t busy := by
  have created := inv.newZone room fits reserved
  have got : (zones ++ [(base,n)])[zones.length]? = some (base,n) := List.getElem?_concat_length
  have span : Span (zones ++ [(base,n)]) zones.length (busy ∪ range base n) base n :=
    ⟨fun x low high => .inr ⟨low,high⟩,(base,n),got,le_refl _,le_refl _⟩
  have ready : Start (base,n) maxOrder base n := ⟨by simp [Aligned],fun below => absurd below (lt_irrefl _)⟩
  obtain ⟨t,ran,freed⟩ := initOrders_spec got maxOrder base n (le_refl _) rfl ready span created
  refine ⟨t,?_,freed.inv.congr_busy ?_⟩
  · simp only [buddyInitMemmap,has,room,and_self,if_true,initPages_spec n base s reserved,bind,Except.bind]
    exact congrArg Except.ok ran
  intro x
  have new : x ∈ busy → ¬ (base ≤ x ∧ x < base + n) := by
    intro used inside
    obtain ⟨k,old⟩ := inv.held x used
    have := reserved x inside.1 inside.2
    rw [(inv.inside k x old).1] at this
    cases this
  simp only [Set.mem_sdiff,Set.mem_union,mem_range]
  constructor
  · intro used; exact ⟨.inl used,fun out => new used (by omega)⟩
  rintro ⟨used | _,out⟩
  · exact used
  exact (out (by omega)).elim

end Ucore.Buddy

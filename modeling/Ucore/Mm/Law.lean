import Ucore.Mm.Moves

-- Every move keeps the counting laws.
namespace Ucore.Mm
open Bytes Tally List
variable {b : Books} {s : Core}

namespace Refs
variable (refs : Refs b s)
include refs

lemma maps_finite (f : Nat) : {k | (s.pte k).Maps f}.Finite :=
  refs.finite.subset fun k maps empty => by
    rw [Set.mem_ofPred_eq,empty] at maps
    exact maps

lemma holds_finite (o : Nat) : {k | (s.pte k).Holds o}.Finite :=
  refs.finite.subset fun k holds empty => by
    rw [Set.mem_ofPred_eq,empty] at holds
    exact holds

lemma mapped_set (k : Key) (e : Pte) (f : Nat) : tally (set s.pte k e) (Pte.Maps f) + one ((s.pte k).Maps f) = s.mapped f + one (e.Maps f) :=
  tally_update (refs.maps_finite f) k e

lemma held_set (k : Key) (e : Pte) (o : Nat) : tally (set s.pte k e) (Pte.Holds o) + one ((s.pte k).Holds o) = s.held o + one (e.Holds o) :=
  tally_update (refs.holds_finite o) k e

lemma finite_set (k : Key) (e : Pte) : {j | set s.pte k e j ≠ .empty}.Finite := update_finite (q:=fun e => e ≠ .empty) refs.finite k e

lemma same (maps : ∀ f,(s.pte k).Maps f ↔ e.Maps f) : Refs b {s with pte:=set s.pte k e} where
  finite := refs.finite_set k e
  refs f := by
    rw [show ({s with pte:=set s.pte k e} : Core).mapped f = s.mapped f from tally_unchanged (refs.maps_finite f) (maps f)]
    exact refs.refs f

end Refs

lemma Slots.same (slots : Slots b s) (refs : Refs b s) (holds : ∀ o,(s.pte k).Holds o ↔ e.Holds o) : Slots b {s with pte:=set s.pte k e} where
  counts o := by
    rw [show ({s with pte:=set s.pte k e} : Core).held o = s.held o from tally_unchanged (refs.holds_finite o) (holds o)]
    exact slots.counts o
  range := slots.range

lemma Refs.paid {c : Books} (refs : Refs b s) (k : Key) (e : Pte) (pins : ∀ g,c.pin g + one (e.Maps g) = b.pin g + one ((s.pte k).Maps g)) :
    Refs c {s with pte:=set s.pte k e} where
  finite := refs.finite_set k _
  refs g := by
    have step := refs.mapped_set k e g
    have old := refs.refs g
    have pin := pins g
    change s.ref g = tally (set s.pte k e) (Pte.Maps g) + c.pin g
    omega

lemma Slots.paid {c : Books} (slots : Slots b s) (refs : Refs b s) (k : Key) (e : Pte) (duties : ∀ p,c.duty p + one (e.Holds p) = b.duty p + one ((s.pte k).Holds p)) :
    Slots c {s with pte:=set s.pte k e} where
  counts p := by
    have step := refs.held_set k e p
    have old := slots.counts p
    have duty := duties p
    change s.memMap p = swapUnused ∧ tally (set s.pte k e) (Pte.Holds p) + c.duty p = 0 ∨ s.memMap p < swapUnused ∧ s.memMap p = tally (set s.pte k e) (Pte.Holds p) + c.duty p
    omega
  range := slots.range

lemma set_more (g : Nat → Nat) (n m : Nat) : set g n (g n + 1) m = g m + one (n = m) := by
  rcases eq_or_ne m n with rfl | far
  · rw [set_self,one_pos rfl]
  rw [set_ne far,one_neg far.symm,add_zero]

lemma set_less (g : Nat → Nat) (pos : 0 < g n) (m : Nat) : set g n (g n - 1) m + one (n = m) = g m := by
  rcases eq_or_ne m n with rfl | far
  · rw [set_self,one_pos rfl,Nat.sub_add_cancel pos]
  rw [set_ne far,one_neg far.symm,add_zero]

lemma Refs.clear (refs : Refs b s) (entry : s.pte k = .present f w a d) : Refs {b with pin:=set b.pin f (b.pin f + 1)} {s with pte:=set s.pte k .empty} := by
  refine refs.paid k .empty fun g => ?_
  rw [entry,one_neg (by simp)]
  simpa using set_more b.pin f g

lemma Refs.point (refs : Refs b s) (empty : s.pte k = .empty) (pinned : 0 < b.pin f) :
    Refs {b with pin:=set b.pin f (b.pin f - 1)} {s with pte:=set s.pte k (.present f w a d)} := by
  refine refs.paid k _ fun g => ?_
  rw [empty,one_neg (p := Pte.Maps g .empty) (by simp)]
  simpa using set_less b.pin pinned g

lemma Slots.drop (slots : Slots b s) (refs : Refs b s) (entry : s.pte k = .swapped o) :
    Slots {b with duty:=set b.duty o (b.duty o + 1)} {s with pte:=set s.pte k .empty} := by
  refine slots.paid refs k .empty fun p => ?_
  rw [entry,one_neg (by simp)]
  simpa using set_more b.duty o p

lemma Slots.park (slots : Slots b s) (refs : Refs b s) (empty : s.pte k = .empty) (due : 0 < b.duty o) :
    Slots {b with duty:=set b.duty o (b.duty o - 1)} {s with pte:=set s.pte k (.swapped o)} := by
  refine slots.paid refs k _ fun p => ?_
  rw [empty,one_neg (p := Pte.Holds p .empty) (by simp)]
  simpa using set_less b.duty due p

lemma Refs.recount (refs : Refs b s) (f n p : Nat) (paid : n + b.pin f = s.ref f + p) : Refs {b with pin:=set b.pin f p} {s with ref:=set s.ref f n} where
  finite := refs.finite
  refs g := by
    have old := refs.refs g
    change set s.ref f n g = s.mapped g + set b.pin f p g
    rcases eq_or_ne g f with rfl | far
    · rw [set_self,set_self]
      omega
    rw [set_ne far,set_ne far]
    exact old

lemma Slots.recount (slots : Slots b s) (low : 0 < o ∧ o < s.maxSwapOffset)
    (paid : n = swapUnused ∧ s.held o + p = 0 ∨ n < swapUnused ∧ n = s.held o + p) :
    Slots {b with duty:=set b.duty o p} {s with memMap:=set s.memMap o n} where
  counts q := by
    change set s.memMap o n q = swapUnused ∧ s.held q + set b.duty o p q = 0 ∨ set s.memMap o n q < swapUnused ∧ set s.memMap o n q = s.held q + set b.duty o p q
    rcases eq_or_ne q o with rfl | far
    · rw [set_self,set_self]
      exact paid
    rw [set_ne far,set_ne far]
    exact slots.counts q
  range q used := by
    rcases eq_or_ne q o with rfl | far
    · exact low
    exact slots.range q (by simpa only [set_ne far] using used)

lemma Slots.refund (slots : Slots b s) (low : 0 < o ∧ o < s.maxSwapOffset)
    (paid : n = swapUnused ∧ s.held o + b.duty o = 0 ∨ n < swapUnused ∧ n = s.held o + b.duty o) :
    Slots b {s with memMap:=set s.memMap o n} := by
  have kept := slots.recount low paid
  rwa [set_same] at kept

lemma Cache.find_some (cache : Cache s) (got : s.find o = some f) : f ∈ s.hash ∧ s.swap f = true ∧ s.index f = o := by
  have member := List.mem_of_find?_eq_some got
  have same := List.find?_some got
  exact ⟨member,(cache.hashed f).mp member,by simpa using same⟩

lemma find_none (got : s.find o = none) : ∀ f ∈ s.hash,s.index f ≠ o := by simpa [Core.find] using got

lemma Cache.find_of (cache : Cache s) (cached : s.swap f = true) : s.find (s.index f) = some f := by
  have member := (cache.hashed f).mpr cached
  cases got : s.find (s.index f) with
  | none => exact absurd rfl (find_none got f member)
  | some g =>
    obtain ⟨ne,_,same⟩ := cache.find_some got
    rw [cache.distinct g ne f member same]

lemma Cache.recount (cache : Cache s) (free : n ≠ 0 ∨ ∃ f ∈ s.hash,s.index f = o) (used : n ≠ swapUnused ∨ ∀ f ∈ s.hash,s.index f ≠ o) :
    Cache {s with memMap:=set s.memMap o n} where
  zero p none := by
    rcases eq_or_ne p o with rfl | far
    · refine free.resolve_left fun some => some ?_
      simpa using none
    exact cache.zero p (by simpa only [set_ne far] using none)
  known f member := by
    change set s.memMap o n (s.index f) ≠ swapUnused
    rcases eq_or_ne (s.index f) o with same | far
    · rw [same,set_self]
      exact used.resolve_right fun none => none f member same
    rw [set_ne far]
    exact cache.known f member
  distinct := cache.distinct
  hashOnce := cache.hashOnce
  hashed := cache.hashed

lemma Cache.add (cache : Cache s) (outside : s.swap f = false) (new : ∀ g ∈ s.hash,s.index g ≠ o) (used : n ≠ swapUnused) :
    Cache {(s.hashed f o) with memMap:=set s.memMap o n} := by
  have out : f ∉ s.hash := fun member => by simp [(cache.hashed f).mp member] at outside
  have ne : ∀ g ∈ s.hash,set s.index f o g = s.index g := fun g member => set_ne fun same => out (same ▸ member)
  have this : set s.index f o f = o := set_self
  constructor
  · intro p none
    change set s.memMap o n p = 0 at none
    rcases eq_or_ne p o with rfl | far
    · exact ⟨f,mem_cons_self,this⟩
    rw [set_ne far] at none
    obtain ⟨g,member,index⟩ := cache.zero p none
    exact ⟨g,mem_cons_of_mem f member,(ne g member).trans index⟩
  · intro g member
    change set s.memMap o n (set s.index f o g) ≠ swapUnused
    rcases mem_cons.mp member with rfl | member
    · rw [this,set_self]
      exact used
    rw [ne g member,set_ne (new g member)]
    exact cache.known g member
  · intro g one h two same
    change set s.index f o g = set s.index f o h at same
    rcases mem_cons.mp one with rfl | old <;> rcases mem_cons.mp two with rfl | seen
    · rfl
    · rw [this,ne h seen] at same
      exact absurd same.symm (new h seen)
    · rw [this,ne g old] at same
      exact absurd same (new g old)
    rw [ne g old,ne h seen] at same
    exact cache.distinct g old h seen same
  · exact nodup_cons.mpr ⟨out,cache.hashOnce⟩
  intro g
  change g ∈ f :: s.hash ↔ set s.swap f true g = true
  rcases eq_or_ne g f with rfl | far
  · simp
  simp [far,cache.hashed]

lemma Cache.remove (cache : Cache s) (cached : s.swap f = true) (counted : n ≠ 0) : Cache {(s.unhashed f) with memMap:=set s.memMap (s.index f) n} := by
  have member := (cache.hashed f).mpr cached
  have ne : ∀ g ∈ s.hash.erase f,g ∈ s.hash ∧ s.index g ≠ s.index f := fun g left => by
    obtain ⟨far,old⟩ := cache.hashOnce.mem_erase_iff.mp left
    exact ⟨old,fun same => far (cache.distinct g old f member same)⟩
  constructor
  · intro p none
    change set s.memMap (s.index f) n p = 0 at none
    rcases eq_or_ne p (s.index f) with rfl | far
    · rw [set_self] at none
      exact absurd none counted
    rw [set_ne far] at none
    obtain ⟨g,member,index⟩ := cache.zero p none
    have far : g ≠ f := by
      rintro rfl
      exact far index.symm
    exact ⟨g,(mem_erase_of_ne far).mpr member,index⟩
  · intro g left
    change set s.memMap (s.index f) n (s.index g) ≠ swapUnused
    rw [set_ne (ne g left).2]
    exact cache.known g (ne g left).1
  · exact fun g one h two => cache.distinct g (ne g one).1 h (ne h two).1
  · exact cache.hashOnce.erase f
  intro g
  change g ∈ s.hash.erase f ↔ set s.swap f false g = true
  rw [cache.hashOnce.mem_erase_iff,cache.hashed]
  rcases eq_or_ne g f with rfl | far
  · simp
  simp [far]

-- One of the two page lists with its counter: the pages of q, each once.
structure Row (l : List Nat) (n : Nat) (q : Nat → Prop) : Prop where
  once : l.Nodup
  member : ∀ f,f ∈ l ↔ q f
  count : n = l.length

lemma Row.congr (row : Row l n q) (same : ∀ g,p g ↔ q g) : Row l n p := ⟨row.once,fun g => (row.member g).trans (same g).symm,row.count⟩

lemma Row.add (row : Row l n q) (out : ¬ q f) (same : ∀ g,p g ↔ q g ∨ g = f) : Row (l ++ [f]) (n + 1) p where
  once := nodup_append.mpr ⟨row.once,nodup_singleton f,fun g old h last => by
    rw [mem_singleton.mp last]
    exact fun here => out (here ▸ (row.member g).mp old)⟩
  member g := by rw [mem_append,row.member,mem_singleton,same]
  count := by rw [row.count,length_append,length_singleton]

lemma Row.drop (row : Row l n q) (here : q f) (same : ∀ g,p g ↔ g ≠ f ∧ q g) : Row (l.erase f) (n - 1) p where
  once := row.once.erase f
  member g := by rw [row.once.mem_erase_iff,row.member,same]
  count := by rw [row.count,length_erase_of_mem ((row.member f).mpr here)]

lemma listed_rows : Listed s ↔ Row s.activeList s.nrActive (fun f => s.swap f = true ∧ s.active f = true) ∧
    Row s.inactiveList s.nrInactive (fun f => s.swap f = true ∧ s.active f = false) :=
  ⟨fun ⟨a,b,c,d,e,f⟩ => ⟨⟨a,b,c⟩,⟨d,e,f⟩⟩,fun ⟨⟨a,b,c⟩,⟨d,e,f⟩⟩ => ⟨a,b,c,d,e,f⟩⟩

lemma Listed.activated (mem : Listed s) (out : s.swap f = false) : Listed (({s with swap:=set s.swap f true} : Core).activated f) := by
  obtain ⟨active,inactive⟩ := listed_rows.mp mem
  refine listed_rows.mpr ⟨active.add (by simp [out]) fun g => ?_,inactive.congr fun g => ?_⟩
  all_goals rcases eq_or_ne g f with rfl | far
  all_goals simp [Core.activated, *]

lemma Listed.inactivated (mem : Listed s) (out : s.swap f = false) : Listed (({s with swap:=set s.swap f true} : Core).inactivated f) := by
  obtain ⟨active,inactive⟩ := listed_rows.mp mem
  refine listed_rows.mpr ⟨active.congr fun g => ?_,inactive.add (by simp [out]) fun g => ?_⟩
  all_goals rcases eq_or_ne g f with rfl | far
  all_goals simp [Core.inactivated, *]

lemma Listed.unlisted (mem : Listed s) (cached : s.swap f = true) : Listed {(s.unlisted f) with swap:=set s.swap f false} := by
  obtain ⟨active,inactive⟩ := listed_rows.mp mem
  unfold Core.unlisted
  split
  next here =>
    refine listed_rows.mpr ⟨active.drop ⟨cached,here⟩ fun g => ?_,inactive.congr fun g => ?_⟩
    all_goals rcases eq_or_ne g f with rfl | far
    all_goals simp [*]
  rename_i there
  have here : s.active f = false := by simpa using there
  refine listed_rows.mpr ⟨active.congr fun g => ?_,inactive.drop ⟨cached,here⟩ fun g => ?_⟩
  all_goals rcases eq_or_ne g f with rfl | far
  all_goals simp [*]

lemma Listed.moved (mem : Listed s) (cached : s.swap f = true) : Listed ((s.unlisted f).activated f) ∧ Listed ((s.unlisted f).inactivated f) := by
  have off := mem.unlisted cached
  have out : set s.swap f false f = false := set_self
  have back : set (set s.swap f false) f true = (s.unlisted f).swap := by
    unfold Core.unlisted
    split <;> simp [← cached]
  have one := off.activated out
  have two := off.inactivated out
  simp only [back] at one two
  exact ⟨one,two⟩

lemma Pool.reload (pool : Pool b s) (kept : ∀ f,f ∉ s.free → 0 < s.ref f ∨ s.swap f = true ∨ f ∈ b.loose →
      0 < t.ref f ∨ t.swap f = true ∨ f ∈ c.loose) (frames : t.frames = s.frames) (free : t.free = s.free)
    (still : ∀ f ∈ s.free,t.ref f = 0 ∧ t.swap f = false ∧ f ∉ c.loose) : Pool c t where
  freeOnce := free ▸ pool.freeOnce
  free := free ▸ still
  used f low used := kept f (free ▸ used) (pool.used f (frames ▸ low) (free ▸ used))

lemma Core.unlisted_frames (s : Core) (f : Nat) : (s.unlisted f).frames = s.frames ∧ (s.unlisted f).free = s.free ∧
    (s.unlisted f).ref = s.ref ∧ (s.unlisted f).swap = s.swap := by
  unfold Core.unlisted
  split <;> exact ⟨rfl,rfl,rfl,rfl⟩

lemma Core.unlisted_cache (s : Core) (f : Nat) : (s.unlisted f).memMap = s.memMap ∧ (s.unlisted f).hash = s.hash ∧
    (s.unlisted f).index = s.index ∧ (s.unlisted f).maxSwapOffset = s.maxSwapOffset ∧ (s.unlisted f).pte = s.pte := by
  unfold Core.unlisted
  split <;> exact ⟨rfl,rfl,rfl,rfl,rfl⟩

-- Taking a page off its list touches nothing but the lists.
lemma Refs.unlisted (refs : Refs b s) : Refs b (s.unlisted f) := by
  unfold Core.unlisted
  split <;> exact {refs with}

lemma Slots.unlisted (slots : Slots b s) : Slots b (s.unlisted f) := by
  unfold Core.unlisted
  split <;> exact {slots with}

lemma Cache.unlisted (cache : Cache s) : Cache (s.unlisted f) := by
  unfold Core.unlisted
  split <;> exact {cache with}

lemma Pool.unlisted (pool : Pool b s) : Pool b (s.unlisted f) := by
  unfold Core.unlisted
  split <;> exact {pool with}

namespace Law
variable (law : Law b s)
include law

lemma used (used : 0 < s.ref f ∨ s.swap f = true ∨ f ∈ b.loose) : f ∉ s.free := fun free => by
  obtain ⟨none,out,tight⟩ := law.pool.free f free
  rcases used with held | cached | loose
  · omega
  · simp [out] at cached
  exact tight loose

lemma alloc (one : s.free = f :: rest) : Law {b with loose:=insert f b.loose} {s with free:=rest} := by
  have once : (f :: rest).Nodup := one ▸ law.pool.freeOnce
  have member : ∀ g ∈ rest,g ∈ s.free := fun g member => one ▸ mem_cons_of_mem f member
  refine ⟨{law.refs with},{law.slots with},{law.cache with},{law.listed with},?_⟩
  refine ⟨once.of_cons,fun g low => ?_,fun g low out => ?_⟩
  · obtain ⟨none,outside,tight⟩ := law.pool.free g (member g low)
    refine ⟨none,outside,fun loose => ?_⟩
    rcases loose with rfl | loose
    · exact (nodup_cons.mp once).1 low
    exact tight loose
  rcases eq_or_ne g f with rfl | far
  · exact .inr (.inr (.inl rfl))
  have gone : g ∉ s.free := by
    rw [one]
    exact fun member => (mem_cons.mp member).elim far out
  exact (law.pool.used g low gone).imp_right (Or.imp_right .inr)

lemma freed (loose : f ∈ b.loose) (idle : s.ref f = 0) (outside : s.swap f = false) : Law {b with loose:=b.loose \ {f}} (s.freed f) := by
  have gone := law.used (.inr (.inr loose))
  have refs : set s.ref f 0 = s.ref := by rw [← idle]; exact Function.update_eq_self f s.ref
  have swap : set s.swap f false = s.swap := by rw [← outside]; exact Function.update_eq_self f s.swap
  have unlisted : f ∉ s.activeList ∧ f ∉ s.inactiveList := by
    rw [law.listed.active,law.listed.inactive,outside]
    simp
  unfold Core.freed
  rw [refs,swap]
  refine ⟨{law.refs with},{law.slots with},{law.cache with},?_,?_⟩
  · refine {law.listed with active:=fun g => ?_,inactive:=fun g => ?_}
    · rcases eq_or_ne g f with rfl | far
      · simp [unlisted.1]
      simpa [far] using law.listed.active g
    rcases eq_or_ne g f with rfl | far
    · simp [unlisted.2,outside]
    simpa [far] using law.listed.inactive g
  refine ⟨nodup_cons.mpr ⟨gone,law.pool.freeOnce⟩,fun g low => ?_,fun g low out => ?_⟩
  · rcases mem_cons.mp low with rfl | low
    · exact ⟨idle,outside,fun loose => loose.2 rfl⟩
    obtain ⟨none,outside,tight⟩ := law.pool.free g low
    exact ⟨none,outside,fun loose => tight loose.1⟩
  have far : g ≠ f := fun same => out (same ▸ mem_cons_self)
  refine (law.pool.used g low fun member => out (mem_cons_of_mem f member)).imp_right (Or.imp_right fun loose => ⟨loose,far⟩)

lemma recount (paid : n + b.pin f = s.ref f + p) (used : 0 < s.ref f ∨ s.swap f = true ∨ f ∈ b.loose)
    (wider : b.loose ⊆ l) (cap : ∀ g ∈ l,g = f ∨ g ∈ b.loose) (still : 0 < n ∨ s.swap f = true ∨ f ∈ l) :
    Law ⟨l,set b.pin f p,b.duty⟩ {s with ref:=set s.ref f n} := by
  have refs := law.refs.recount f n p paid
  refine ⟨{refs with},{law.slots with},{law.cache with},{law.listed with},?_⟩
  refine law.pool.reload (fun g _ old => ?_) rfl rfl fun g free => ?_
  · change 0 < set s.ref f n g ∨ s.swap g = true ∨ g ∈ l
    rcases eq_or_ne g f with rfl | far
    · rw [set_self]
      exact still
    rw [set_ne far]
    exact old.imp_right (Or.imp_right fun loose => wider loose)
  have far : g ≠ f := by
    rintro rfl
    exact law.used used free
  obtain ⟨none,out,tight⟩ := law.pool.free g free
  exact ⟨(set_ne far).trans none,out,fun loose => (cap g loose).elim far tight⟩

lemma settle (used : 0 < s.ref f ∨ s.swap f = true) : Law {b with loose:=b.loose \ {f}} s := by
  refine ⟨{law.refs with},{law.slots with},law.cache,law.listed,?_⟩
  refine law.pool.reload (fun g _ old => ?_) rfl rfl fun g free => ?_
  · rcases eq_or_ne g f with rfl | far
    · exact used.imp_right .inl
    exact old.imp_right (Or.imp_right fun loose => ⟨loose,far⟩)
  obtain ⟨none,out,tight⟩ := law.pool.free g free
  exact ⟨none,out,fun loose => tight loose.1⟩

lemma entries (refs : Refs c {s with pte:=e}) (slots : Slots c {s with pte:=e}) (loose : c.loose = b.loose) : Law c {s with pte:=e} :=
  ⟨refs,slots,{law.cache with},{law.listed with},⟨law.pool.freeOnce,loose ▸ law.pool.free,loose ▸ law.pool.used⟩⟩

-- What the laws say nothing about: contents, dirty flags and the swap disk.
lemma contents : Law b {s with data:=data,dirty:=dirty,disk:=disk} := ⟨{law.refs with},{law.slots with},{law.cache with},{law.listed with},{law.pool with}⟩

lemma counted (slots : Slots {b with duty:=d} {s with memMap:=m}) (cache : Cache {s with memMap:=m}) : Law {b with duty:=d} {s with memMap:=m} :=
  ⟨{law.refs with},slots,cache,{law.listed with},{law.pool with}⟩

lemma hashed (outside : s.swap f = false) (out : f ∉ s.free) (slots : Slots b {s with memMap:=m})
    (cache : Cache {(s.hashed f o) with memMap:=m}) : Law b {((s.hashed f o).activated f) with memMap:=m} := by
  have lists := law.listed.activated outside
  refine ⟨{law.refs with},{slots with},{cache with},{lists with},?_⟩
  refine law.pool.reload (fun g _ old => ?_) rfl rfl fun g free => ?_
  · change 0 < s.ref g ∨ set s.swap f true g = true ∨ g ∈ b.loose
    rcases eq_or_ne g f with rfl | far
    · exact .inr (.inl set_self)
    rw [set_ne far]
    exact old
  have far : g ≠ f := by
    rintro rfl
    exact out free
  obtain ⟨none,outside,tight⟩ := law.pool.free g free
  exact ⟨none,(set_ne far).trans outside,tight⟩

lemma unhashed (cached : s.swap f = true) (counted : n ≠ 0) (slots : Slots b {s with memMap:=set s.memMap (s.index f) n}) :
    Law {b with loose:=insert f b.loose} {((s.unlisted f).unhashed f) with memMap:=set s.memMap (s.index f) n} := by
  obtain ⟨frames,free,ref,swap⟩ := s.unlisted_frames f
  obtain ⟨memMap,hash,index,top,pte⟩ := s.unlisted_cache f
  have cache := law.cache.unlisted.remove (f:=f) (n:=n) (by rw [swap]; exact cached) counted
  have lists := law.listed.unlisted cached
  have refs := law.refs.unlisted (f:=f)
  rw [← swap] at lists
  rw [memMap,index] at cache
  refine ⟨{refs with},?_,cache,{lists with},?_⟩
  · refine ⟨fun o => ?_,fun o used => ?_⟩
    · rw [show ({((s.unlisted f).unhashed f) with memMap:=set s.memMap (s.index f) n} : Core).held o = s.held o by
        unfold Core.held Core.unhashed
        rw [pte]]
      exact slots.counts o
    have low := slots.range o used
    rwa [← top] at low
  refine (law.pool.unlisted (f:=f)).reload (fun g _ old => ?_) rfl rfl fun g low => ?_
  · change 0 < (s.unlisted f).ref g ∨ set (s.unlisted f).swap f false g = true ∨ g ∈ insert f b.loose
    rcases eq_or_ne g f with rfl | far
    · exact .inr (.inr (.inl rfl))
    rw [set_ne far]
    exact old.imp_right (Or.imp_right .inr)
  have far : g ≠ f := by
    rintro rfl
    exact law.used (.inr (.inl cached)) (free ▸ low)
  obtain ⟨none,out,tight⟩ := (law.pool.unlisted (f:=f)).free g low
  refine ⟨none,(set_ne far).trans out,fun loose => ?_⟩
  exact loose.elim far tight

lemma moved (lists : Listed {(s.unlisted f) with activeList:=l,nrActive:=n,inactiveList:=r,nrInactive:=m,active:=a}) :
    Law b {(s.unlisted f) with activeList:=l,nrActive:=n,inactiveList:=r,nrInactive:=m,active:=a} := by
  have refs := law.refs.unlisted (f:=f)
  have slots := law.slots.unlisted (f:=f)
  have cache := law.cache.unlisted (f:=f)
  have pool := law.pool.unlisted (f:=f)
  exact ⟨{refs with},{slots with},{cache with},lists,{pool with}⟩

lemma pin_used (pinned : 0 < b.pin f) : 0 < s.ref f := by
  have := law.refs.refs f
  omega

lemma due (due : 0 < b.duty o) : s.memMap o ≠ swapUnused ∧ s.memMap o < swapUnused ∧ s.memMap o = s.held o + b.duty o ∧ 0 < o ∧ o < s.maxSwapOffset := by
  have counts := law.slots.counts o
  have used : s.memMap o ≠ swapUnused := by omega
  exact ⟨used,by omega,by omega,law.slots.range o used⟩

lemma holder (holds : (s.pte k).Holds o) : 0 < s.held o := tally_pos (law.refs.holds_finite o) holds

lemma holds_used (holds : (s.pte k).Holds o) :
    s.memMap o ≠ swapUnused ∧ s.memMap o < swapUnused ∧ s.memMap o = s.held o + b.duty o ∧ 0 < s.memMap o ∧ 0 < o ∧ o < s.maxSwapOffset := by
  have counts := law.slots.counts o
  have some := law.holder holds
  have used : s.memMap o ≠ swapUnused := by omega
  exact ⟨used,by omega,by omega,by omega,law.slots.range o used⟩

lemma maps_used (maps : (s.pte k).Maps f) : 0 < s.ref f := by
  have some : 0 < s.mapped f := tally_pos (law.refs.maps_finite f) maps
  have := law.refs.refs f
  omega

lemma pinned (used : 0 < s.ref f ∨ s.swap f = true ∨ f ∈ b.loose) : Law {b with pin:=set b.pin f (b.pin f + 1)} {s with ref:=set s.ref f (s.ref f + 1)} :=
  law.recount (by omega) used (fun _ loose => loose) (fun _ loose => .inr loose) (.inl (by omega))

lemma unpinned (pinned : 0 < b.pin f) : Law ⟨insert f b.loose,set b.pin f (b.pin f - 1),b.duty⟩ {s with ref:=set s.ref f (s.ref f - 1)} := by
  have used := law.pin_used pinned
  exact law.recount (by omega) (.inl used) (Set.subset_insert _ _) (fun _ loose => loose) (.inr (.inr (.inl rfl)))

lemma clear (entry : s.pte k = .present f w a d) : Law {b with pin:=set b.pin f (b.pin f + 1)} {s with pte:=set s.pte k .empty} := by
  have same := law.slots.same (e:=.empty) law.refs fun o => by rw [entry]; simp
  exact law.entries (law.refs.clear entry) {same with} rfl

lemma drop (entry : s.pte k = .swapped o) : Law {b with duty:=set b.duty o (b.duty o + 1)} {s with pte:=set s.pte k .empty} := by
  have same := law.refs.same (e:=.empty) fun f => by rw [entry]; simp
  exact law.entries {same with} (law.slots.drop law.refs entry) rfl

lemma point (empty : s.pte k = .empty) (pinned : 0 < b.pin f) : Law {b with pin:=set b.pin f (b.pin f - 1)} {s with pte:=set s.pte k (.present f w a d)} := by
  have same := law.slots.same (e:=.present f w a d) law.refs fun o => by rw [empty]; simp
  exact law.entries (law.refs.point empty pinned) {same with} rfl

lemma park (empty : s.pte k = .empty) (due : 0 < b.duty o) : Law {b with duty:=set b.duty o (b.duty o - 1)} {s with pte:=set s.pte k (.swapped o)} := by
  have same := law.refs.same (e:=.swapped o) fun f => by rw [empty]; simp
  exact law.entries {same with} (law.slots.park law.refs empty due) rfl

lemma bits (entry : s.pte k = .present f w a d) : Law b {s with pte:=set s.pte k (.present f w' a' d')} :=
  law.entries (law.refs.same fun g => by rw [entry]; simp) (law.slots.same law.refs fun o => by rw [entry]; simp) rfl

lemma dup (few : s.memMap o < maxSwapRef) : Law {b with duty:=set b.duty o (b.duty o + 1)} {s with memMap:=set s.memMap o (s.memMap o + 1)} := by
  have counts := law.slots.counts o
  have limit : s.memMap o + 1 < swapUnused := Nat.succ_lt_succ few
  have used : s.memMap o ≠ swapUnused := by omega
  exact law.counted (law.slots.recount (law.slots.range o used) (by omega)) (law.cache.recount (.inl (by omega)) (.inl (by omega)))

lemma undup (due : 0 < b.duty o) (last : s.memMap o = 1 → ∃ f ∈ s.hash,s.index f = o) :
    Law {b with duty:=set b.duty o (b.duty o - 1)} {s with memMap:=set s.memMap o (s.memMap o - 1)} := by
  obtain ⟨used,small,count,low⟩ := law.due due
  refine law.counted (law.slots.recount low (by omega)) (law.cache.recount ?_ (.inl (by omega)))
  by_cases one : s.memMap o = 1
  · exact .inr (last one)
  exact .inl (by omega)

lemma release (due : 0 < b.duty o) (lone : s.memMap o = 1) (alone : ∀ f ∈ s.hash,s.index f ≠ o) :
    Law {b with duty:=set b.duty o 0} {s with memMap:=set s.memMap o swapUnused} := by
  obtain ⟨used,small,count,low⟩ := law.due due
  exact law.counted (law.slots.recount low (.inl ⟨rfl,by omega⟩)) (law.cache.recount (.inl (by decide)) (.inr alone))

lemma adopt (outside : s.swap f = false) (out : f ∉ s.free) (idle : s.memMap o = swapUnused)
    (low : 0 < o) (high : o < s.maxSwapOffset) : Law b {((s.hashed f o).activated f) with memMap:=set s.memMap o 0} := by
  have new : ∀ g ∈ s.hash,s.index g ≠ o := fun g member same => law.cache.known g member (same ▸ idle)
  have counts := law.slots.counts o
  have small : 0 < swapUnused := by decide
  exact law.hashed outside out (law.slots.refund ⟨low,high⟩ (by omega)) (law.cache.add outside new (by decide))

lemma fetch (loose : f ∈ b.loose) (out : s.swap f = false) (used : s.memMap o ≠ swapUnused)
    (got : s.find o = none) : Law b ((s.hashed f o).activated f) := by
  have cache := law.cache.add out (find_none got) used
  rw [set_same] at cache
  exact law.hashed out (law.used (.inr (.inr loose))) law.slots cache

lemma steal (cached : s.swap f = true) (none : s.memMap (s.index f) = 0) :
    Law {b with loose:=insert f b.loose} {((s.unlisted f).unhashed f) with memMap:=set s.memMap (s.index f) swapUnused} := by
  have counts := law.slots.counts (s.index f)
  have low := law.slots.range _ (law.cache.known f ((law.cache.hashed f).mpr cached))
  have big : 0 < swapUnused := by decide
  exact law.unhashed cached (by decide) (law.slots.refund low (.inl ⟨rfl,by omega⟩))

lemma discard (cached : s.swap f = true) (counted : s.memMap (s.index f) ≠ 0) : Law {b with loose:=insert f b.loose} ((s.unlisted f).unhashed f) := by
  have removed := law.unhashed cached counted (by rw [set_same]; exact law.slots)
  rw [set_same] at removed
  have same : ({((s.unlisted f).unhashed f) with memMap:=s.memMap} : Core) = (s.unlisted f).unhashed f := by
    rw [← (s.unlisted_cache f).1]
    rfl
  rwa [same] at removed

lemma reordered (same : rest.Perm s.free) : Law b {s with free:=rest} where
  refs := {law.refs with}
  slots := {law.slots with}
  cache := {law.cache with}
  listed := {law.listed with}
  pool := ⟨same.nodup_iff.mpr law.pool.freeOnce,fun f member => law.pool.free f (same.mem_iff.mp member),
    fun f low out => law.pool.used f low fun member => out (same.mem_iff.mpr member)⟩

end Law

lemma Move.law (move : Move l (b,s) (c,t)) (law : Law b s) : Law c t := by
  cases move with
  | alloc first => exact law.alloc first
  | reorder same => exact law.reordered same
  | free loose idle outside => exact law.freed loose idle outside
  | settle used => exact law.settle used
  | copy => exact law.contents
  | pin used => exact law.pinned used
  | unpin pinned => exact law.unpinned pinned
  | clear entry => exact (law.clear entry).contents
  | drop entry => exact law.drop entry
  | point empty pinned => exact law.point empty pinned
  | park empty due => exact law.park empty due
  | dup few => exact law.dup few
  | undup due last => exact law.undup due last
  | release due lone alone => exact law.release due lone alone
  | adopt outside out idle low high => exact (law.adopt outside out idle low high).contents
  | fetch loose idle outside used got => exact (law.fetch loose outside used got).contents
  | steal cached none => exact law.steal cached none
  | discard cached idle clean counted => exact law.discard cached counted
  | activate cached => exact law.moved (law.listed.moved cached).1
  | inactivate cached => exact law.moved (law.listed.moved cached).2
  | soil => exact law.contents
  | write => exact law.contents
  | rebit entry => exact law.bits entry
  | forget entry => exact law.bits entry
  | store entry => exact (law.bits entry).contents

end Ucore.Mm

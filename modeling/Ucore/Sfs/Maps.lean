import Ucore.Sfs.History

-- A directory as a finite map from names to inode numbers.
namespace Ucore.Sfs
open Bytes Outcomes Runs Call Ns Slots
open List (not_mem_nil)
open Prod (mk)

abbrev Bindings := Nat → Set (CStr × Nat)

def Ns.bindings (ns : Ns) : Bindings := fun d => {b | ∃ k,ns.entry d k = some (b.2,b.1)}

def Bindings.at (b : Bindings) (d : Nat) (f : Set (CStr × Nat) → Set (CStr × Nat)) : Bindings := fun i => if i = d then f (b i) else b i

def Bindings.Free (b : Bindings) (d : Nat) (name : CStr) : Prop := ∀ x,(name,x) ∉ b d

def Change.remap (b : Bindings) : Change → Bindings
  | .create d _ i name | .mkdir d _ i name | .link d _ i name => b.at d (insert (name,i))
  | .unlinkFile d _ x name | .rmdir d _ x name | .lose d _ x name _ => b.at d (· \ {(name,x)})
  | .retitle d _ x name newName => (b.at d (· \ {(name,x)})).at d (insert (newName,x))
  | .move d _ x name d' _ newName _ => (b.at d (· \ {(name,x)})).at d' (insert (newName,x))
  | _ => b

def Slots.bindings (e : Slots) : Bindings := fun d => {b | ∃ k,e d k = some (b.2,b.1)}

def Slots.Distinct (e : Slots) : Prop := ∀ d k l x y n,e d k = some (x,n) → e d l = some (y,n) → k = l

section Slots
variable {e : Slots} {d k x : Nat} {name : CStr}

lemma Slots.bindings_enter (free : e d k = none) : (e.put d k (some (x,name))).bindings = e.bindings.at d (insert (name,x)) := by
  funext i
  ext ⟨n,y⟩
  unfold Bindings.at
  split
  next here =>
    subst here
    constructor
    · rintro ⟨l,held⟩
      by_cases eq : l = k
      · have : some (x,name) = some (y,n) := by simpa [put,eq] using held
        cases this
        exact .inl rfl
      exact .inr ⟨l,by simpa [put,eq] using held⟩
    rintro (new | ⟨l,held⟩)
    · obtain ⟨rfl,rfl⟩ := mk.inj new
      exact ⟨k,by simp [put]⟩
    have ne : l ≠ k := by rintro rfl; rw [free] at held; cases held
    exact ⟨l,by simpa [put,ne] using held⟩
  next ne =>
    have eq : ∀ l,e.put d k (some (x,name)) i l = e i l := fun l => by simp [put,ne]
    simp only [bindings,eq]

lemma Slots.bindings_leave (once : e.Distinct) (held : e d k = some (x,name)) : (e.put d k none).bindings = e.bindings.at d (· \ {(name,x)}) := by
  funext i
  ext ⟨n,y⟩
  unfold Bindings.at
  split
  next here =>
    subst here
    constructor
    · rintro ⟨l,left⟩
      have ne : l ≠ k := by rintro rfl; simp [put] at left
      have old : e i l = some (y,n) := by simpa [put,ne] using left
      refine ⟨⟨l,old⟩,fun eq => ?_⟩
      obtain ⟨rfl,rfl⟩ := mk.inj eq
      exact ne (once i l k y y n old held)
    rintro ⟨⟨l,old⟩,differs⟩
    have ne : l ≠ k := by
      rintro rfl
      obtain ⟨rfl,rfl⟩ := mk.inj (Option.mem_unique held old)
      exact differs rfl
    exact ⟨l,by simpa [put,ne] using old⟩
  next ne =>
    have eq : ∀ l,e.put d k none i l = e i l := fun l => by simp [put,ne]
    simp only [bindings,eq]

lemma Slots.put_put (e : Slots) (d k : Nat) (v w : Option (Nat × CStr)) : (e.put d k v).put d k w = e.put d k w := by
  funext i l
  unfold put
  split <;> rfl

end Slots

section Maps
variable {ns : Ns} {s t u : SfsFs} {d x k : Nat} {r : Item} {name : CStr}

lemma Ns.Mid.entry_distinct (sane : ns.Sane) : ns.entry.Distinct := by
  intro d k l x y n one two
  obtain ⟨r,got,slot⟩ := entry_some one
  rw [entry_found got] at two
  exact sane.distinct d r k l x y n got slot two

lemma Ns.Into.vacant_entry (into : ns.Into d k name r) : ns.entry d k = none := (entry_found into.found k).trans into.vacant.empty

lemma Change.bindings (sane : ns.Sane) (bounded : ns.Bounded) (c : Change) (valid : c.Valid ns) : (c.apply ns).bindings = c.remap ns.bindings := by
  have edited := Change.entry sane bounded c valid
  change (c.apply ns).entry.bindings = c.remap ns.entry.bindings
  rw [edited]
  cases c with
  | create d k i name =>
    obtain ⟨-,r,into⟩ := valid
    exact bindings_enter into.vacant_entry
  | mkdir d k i name =>
    obtain ⟨-,r,into,-⟩ := valid
    exact bindings_enter into.vacant_entry
  | link d k i name =>
    obtain ⟨r,q,into,-⟩ := valid
    exact bindings_enter into.vacant_entry
  | unlinkFile d k x name =>
    obtain ⟨r,q,entry,-⟩ := valid
    exact bindings_leave sane.entry_distinct entry.entry
  | rmdir d k x name =>
    obtain ⟨r,q,entry,-⟩ := valid
    exact bindings_leave sane.entry_distinct entry.entry
  | lose d k x name isdir =>
    obtain ⟨r,q,entry,-⟩ := valid
    exact bindings_leave sane.entry_distinct entry.entry
  | retitle d k x name newName =>
    obtain ⟨r,q,entry,-⟩ := valid
    have free : ns.entry.put d k none d k = none := by simp [put]
    change (ns.entry.put d k (some (x,newName))).bindings = _
    rw [← put_put ns.entry d k none,bindings_enter free,bindings_leave sane.entry_distinct entry.entry]
    rfl
  | move d k x _ d' k' newName _ =>
    obtain ⟨r,_,q,entry,into,ne,-⟩ := valid
    have free : ns.entry.put d k none d' k' = none := by
      rw [put,if_neg fun both => ne both.1]
      exact into.vacant_entry
    change ((ns.entry.put d k none).put d' k' (some (x,newName))).bindings = _
    rw [bindings_enter free,bindings_leave sane.entry_distinct entry.entry]
    rfl
  | _ => rfl

def Call.Remaps (b b' : Bindings) : Call → Prop
  | .create d name excl => (∃ i,b.Free d name ∧ b' = b.at d (insert (name,i))) ∨ (excl = false ∧ b' = b)
  | .mkdir d name => ∃ i,b.Free d name ∧ b' = b.at d (insert (name,i))
  | .link d name x => b.Free d name ∧ b' = b.at d (insert (name,x))
  | .unlink d name => ∃ x,(name,x) ∈ b d ∧ b' = b.at d (· \ {(name,x)})
  | .rename d name d' newName => (d = d' ∧ name = newName ∧ b' = b) ∨
      ∃ x,(name,x) ∈ b d ∧ b.Free d' newName ∧ b' = (b.at d (· \ {(name,x)})).at d' (insert (newName,x))
  | _ => b' = b

lemma unbound_free (got : ns d = some r) (unbound : ∀ l y,r.slot l ≠ some (y,name)) : ns.bindings.Free d name := by
  rintro x ⟨k,held⟩
  rw [entry_found got] at held
  exact unbound k x held

lemma Ns.Into.free (into : ns.Into d k name r) : ns.bindings.Free d name := unbound_free into.found into.vacant.unbound

lemma Ns.Entry.bound (entry : ns.Entry d k x name r q) : (name,x) ∈ ns.bindings d := ⟨k,entry.entry⟩

lemma Call.makes_remaps (c : Call) (makes : c.Makes ch) (based : ch.Based ns) : c.Remaps ns.bindings (ch.remap ns.bindings) := by
  cases c with
  | create d name _ =>
    obtain ⟨k,i,rfl⟩ | ⟨shared,i,rfl⟩ := makes
    · obtain ⟨-,r,into⟩ := based
      exact .inl ⟨i,into.free,rfl⟩
    exact .inr ⟨shared,rfl⟩
  | mkdir d name =>
    obtain ⟨k,i,rfl⟩ := makes
    obtain ⟨-,r,into⟩ := based
    exact ⟨i,into.free,rfl⟩
  | link d name x =>
    obtain ⟨k,rfl⟩ := makes
    obtain ⟨r,q,into,-⟩ := based
    exact ⟨into.free,rfl⟩
  | unlink d name =>
    obtain ⟨k,x,rfl | rfl⟩ := makes
    · obtain ⟨r,q,entry,-⟩ := based
      exact ⟨x,entry.bound,rfl⟩
    obtain ⟨r,q,entry,-⟩ := based
    exact ⟨x,entry.bound,rfl⟩
  | rename d _ _ _ =>
    obtain ⟨eq,equal,rfl⟩ | ⟨rfl,k,x,rfl⟩ | ⟨_,k,x,_,_,rfl⟩ := makes
    · exact .inl ⟨eq,equal,rfl⟩
    · obtain ⟨r,q,entry,unbound⟩ := based
      exact .inr ⟨x,entry.bound,unbound_free entry.found unbound,rfl⟩
    obtain ⟨r,_,q,entry,into,-⟩ := based
    exact .inr ⟨x,entry.bound,into.free,rfl⟩
  | lookup d _ => obtain ⟨x,rfl⟩ := makes; rfl
  | _ => cases makes; rfl

lemma Ns.Mid.bindings_size (sane : ns.Sane) (got : ns d = some r) (dir : r.type = sfsTypeDir) : (ns.bindings d).ncard = r.info := by
  rw [sane.slots d r got dir]
  symm
  refine Set.ncard_congr (fun k _ => ((r.slot k).elim ⟨[],by simp⟩ Prod.snd,(r.slot k).elim 0 Prod.fst)) ?_ ?_ ?_
  · intro k held
    cases slot : r.slot k with
    | none => exact absurd slot held
    | some v => exact ⟨k,by rw [entry_found got,slot]; rfl⟩
  · intro k l one two eq
    cases slot : r.slot k with
    | none => exact absurd slot one
    | some v =>
      cases slot' : r.slot l with
      | none => exact absurd slot' two
      | some w =>
        rw [slot,slot'] at eq
        have name : v.2 = w.2 := (mk.inj eq).1
        exact sane.distinct d r k l v.1 w.1 v.2 got slot (by rw [slot',name])
  rintro ⟨n,x⟩ ⟨k,held⟩
  rw [entry_found got] at held
  exact ⟨k,by simp [Item.taken,held],by rw [held]; rfl⟩

end Maps

section Codes
variable {s : SfsFs} {d d' x y : Nat} {r r' : Item} {name newName : CStr}

lemma slot_short (held : s.slot d k = some (x,name)) : name.strlen ≤ sfsMaxFnameLen := by
  unfold SfsFs.slot at held
  split at held
  next => cases held
  dsimp only at held
  split at held
  next => cases held
  next =>
    obtain ⟨-,rfl⟩ := mk.inj (Option.some.inj held)
    exact cstr_length _ _ _

lemma Open.bound (opened : Open s d r) (bound : (name,x) ∈ s.ns.bindings d) : ∃ k,r.slot k = some (x,name) ∧ name.strlen ≤ sfsMaxFnameLen := by
  obtain ⟨k,held⟩ := bound
  rw [entry_found opened.found] at held
  exact ⟨k,held,slot_short (by rw [opened.slot]; exact held)⟩

lemma Open.present (opened : Open s d r) (cons : Consistent s) (bound : (name,x) ∈ s.ns.bindings d) : (s.node d).removed = false := by
  obtain ⟨k,held,-⟩ := opened.bound bound
  exact opened.removed.trans (cons.sane.named d r k x name opened.found held).2.1

lemma search_bound (cons : Consistent s) (opened : Open s d r) (bound : (name,x) ∈ s.ns.bindings d) (mem : s.heap s.tick = true) :
    ∃ k,sfsDirentSearchNolock d name s = .ok (.found x k) s.asked := by
  obtain ⟨k,held,short⟩ := opened.bound bound
  obtain ⟨full,-⟩ | ⟨-,a,ran,seek⟩ := search_open cons.tidy opened short
  · rw [mem] at full
    cases full
  cases a with
  | noent l => exact absurd held (seek.2.2.1 k x)
  | found y l =>
    have eq := cons.sane.distinct d r l k y x name opened.found seek.2 held
    subst eq
    obtain ⟨rfl,-⟩ := mk.inj (Option.mem_unique seek.2 held)
    exact ⟨l,ran⟩

lemma search_free (cons : Consistent s) (opened : Open s d r) (free : s.ns.bindings.Free d name) (short : name.strlen ≤ sfsMaxFnameLen)
    (mem : s.heap s.tick = true) : ∃ k,sfsDirentSearchNolock d name s = .ok (.noent k) s.asked := by
  obtain ⟨full,-⟩ | ⟨-,a,ran,seek⟩ := search_open cons.tidy opened short
  · rw [mem] at full
    cases full
  cases a with
  | noent l => exact ⟨l,ran⟩
  | found y l => exact absurd ⟨l,(entry_found opened.found l).trans seek.2⟩ (free y)

def Refuses (o : Outcome Err Fault SfsFs α) (e : Err) : Prop := ∃ u,o = .err e u

section Exists
variable (cons : Consistent s) (opened : Open s d r) (bound : (name,x) ∈ s.ns.bindings d) (mem : s.heap s.tick = true)
include cons opened bound mem

lemma make_exists : Refuses ((Call.create d name true).act s) .eExists ∧ Refuses ((Call.mkdir d name).act s) .eExists := by
  obtain ⟨k,_,short⟩ := opened.bound bound
  obtain ⟨l,ran⟩ := search_bound cons opened bound mem
  simp only [act,sfsCreate,sfsMkdir,rules,ite_run]
  rw [if_neg (not_lt.mpr short),if_neg (not_lt.mpr short)]
  split
  next => exact ⟨⟨_,rfl⟩,_,rfl⟩
  next =>
    rw [trylock_free (opened.present cons bound) not_mem_nil,next_ok,next_ok]
    simp only [sfsCreateNolock,sfsMkdirNolock,rules,ran]
    exact ⟨⟨_,rfl⟩,_,rfl⟩

lemma link_exists (goal : s.ns y = some q) (held : 0 < q.refs) (file : q.type ≠ sfsTypeDir) : Refuses ((Call.link d name y).act s) .eExists := by
  obtain ⟨k,-,short⟩ := opened.bound bound
  obtain ⟨l,ran⟩ := search_bound cons opened bound mem
  have kind : (s.node y).din.type ≠ sfsTypeDir := by
    have eq := congrArg Item.type (listed_of goal held).2
    exact fun dir => file (eq.symm.trans dir)
  simp only [act,sfsLink,bind_run,ite_run]
  rw [if_neg (not_lt.mpr short)]
  split
  next => exact ⟨_,rfl⟩
  next =>
    rw [state_run,next_ok,ite_run,if_neg kind,bind_run,trylock_free (opened.present cons bound) not_mem_nil,next_ok]
    simp only [sfsLinkNolock,bind_run,ran,next_ok]
    exact ⟨_,rfl⟩

lemma rename_exists (proper : name ≠ dot ∧ name ≠ dotDot) (opened' : Open s d' r') (taken : (newName,y) ∈ s.ns.bindings d')
    (differs : ¬ (d = d' ∧ name = newName)) (mem' : s.heap (s.tick + 1) = true) :
    Refuses ((Call.rename d name d' newName).act s) .eExists := by
  obtain ⟨k,-,_⟩ := opened.bound bound
  obtain ⟨_,-,_⟩ := opened'.bound taken
  obtain ⟨l,ran⟩ := search_bound cons opened bound mem
  obtain ⟨_,ran'⟩ := search_bound cons.asked opened'.asked taken mem'
  simp only [act,sfsRename,rules,ite_run]
  rw [if_neg (by omega),if_neg (by tauto)]
  split
  next => exact ⟨_,rfl⟩
  rw [trylock_free (opened.present cons bound) not_mem_nil,next_ok]
  by_cases eq : d = d'
  · subst eq
    rw [ite_run,if_pos rfl]
    simp only [sfsRename1Nolock,ite_run]
    rw [if_neg fun equal => differs ⟨rfl,equal⟩]
    simp only [rules,ran,ran']
    exact ⟨_,rfl⟩
  rw [ite_run,if_neg eq,bind_run,trylock_free (opened'.present cons taken) (by simpa using Ne.symm eq),next_ok]
  simp only [sfsRename2Nolock,rules,ran,ran']
  exact ⟨_,rfl⟩

lemma lookup_bound (seen : ∀ q,s.ns x = some q → Known q.type) :
    (sfsLookupOnce d name s).Meets (fun y t => y = x ∧ t.ns.bindings = s.ns.bindings) (fun e _ => e = .eNoMem) (fun _ => False) := by
  obtain ⟨l,ran⟩ := search_bound cons opened bound mem
  obtain ⟨k,held,-⟩ := opened.bound bound
  obtain ⟨q,goal,-,-,loads⟩ := load_entry cons.asked opened.asked.found held
  simp only [sfsLookupOnce,rules]
  rw [trylock_free (opened.present cons bound) not_mem_nil,next_ok,bind_run,ran,next_ok]
  obtain ⟨-,t,failed,-⟩ | ⟨-,unknown,-⟩ | ⟨-,-,t,got,load⟩ := loads
  · simp only [failed]
    rfl
  · exact absurd (seen q goal) unknown
  simp only [got]
  refine ⟨rfl,?_⟩
  change t.ns.entry.bindings = _
  rw [load.went.ns,entry_hold]
  rfl

end Exists

lemma lookup_free (cons : Consistent s) (opened : Open s d r) (free : s.ns.bindings.Free d name) (short : name.strlen ≤ sfsMaxFnameLen)
    (mem : s.heap s.tick = true) : Refuses (sfsLookupOnce d name s) .eNoent := by
  simp only [sfsLookupOnce,rules]
  cases gone : (s.node d).removed with
  | true =>
    rw [trylock_gone gone]
    exact ⟨_,rfl⟩
  | false =>
    obtain ⟨l,ran⟩ := search_free cons opened free short mem
    rw [trylock_free gone not_mem_nil,next_ok,bind_run,ran,next_ok]
    exact ⟨_,rfl⟩

end Codes

structure Answers (s : SfsFs) : Prop where
  create : ∀ d r name x,Open s d r → (name,x) ∈ s.ns.bindings d → Refuses ((Call.create d name true).act s) .eExists
  mkdir : ∀ d r name x,Open s d r → (name,x) ∈ s.ns.bindings d → Refuses ((Call.mkdir d name).act s) .eExists
  link : ∀ d r name x y q,Open s d r → (name,x) ∈ s.ns.bindings d → s.ns y = some q → 0 < q.refs → q.type ≠ sfsTypeDir →
    Refuses ((Call.link d name y).act s) .eExists
  rename : ∀ d r name x d' r' newName y,Open s d r → (name,x) ∈ s.ns.bindings d → name ≠ dot ∧ name ≠ dotDot → Open s d' r' →
    (newName,y) ∈ s.ns.bindings d' → ¬ (d = d' ∧ name = newName) → Refuses ((Call.rename d name d' newName).act s) .eExists
  bound : ∀ d r name x,Open s d r → (name,x) ∈ s.ns.bindings d → (∀ q,s.ns x = some q → Known q.type) →
    (sfsLookupOnce d name s).Meets (fun y t => y = x ∧ t.ns.bindings = s.ns.bindings) (fun e _ => e = .eNoMem) (fun _ => False)
  free : ∀ d r name,Open s d r → s.ns.bindings.Free d name → name.strlen ≤ sfsMaxFnameLen → Refuses (sfsLookupOnce d name s) .eNoent

lemma Consistent.answers (cons : Consistent s) (mem : s.heap s.tick = true) (mem' : s.heap (s.tick + 1) = true) : Answers s where
  create _ _ _ _ opened bound := (make_exists cons opened bound mem).1
  mkdir _ _ _ _ opened bound := (make_exists cons opened bound mem).2
  link _ _ _ _ _ _ opened bound goal held file := link_exists cons opened bound mem goal held file
  rename _ _ _ _ _ _ _ _ opened bound proper opened' taken differs := rename_exists cons opened bound mem proper opened' taken differs mem'
  bound _ _ _ _ opened bound seen := lookup_bound cons opened bound mem seen
  free _ _ _ opened free short := lookup_free cons opened free short mem

theorem directories_refine_maps (cons : Consistent s) (path : Path (Calls step Faithful) s calls t) :
    t.ns.entry.Distinct ∧
    (∀ d r,t.ns d = some r → r.type = sfsTypeDir → (t.ns.bindings d).ncard = r.info) ∧
    (∀ c u,Calls success Faithful t c u → c.Remaps t.ns.bindings u.ns.bindings) ∧
    (t.heap t.tick = true → t.heap (t.tick + 1) = true → Answers t) := by
  have cons := faithful_consistent path cons
  refine ⟨cons.sane.entry_distinct,fun d r found dir => cons.sane.bindings_size found dir,fun c u next => ?_,cons.answers⟩
  obtain ⟨ch,makes,based,went⟩ := c.success_via cons (.inr next.2.2) next.1
  have valid := based.valid ch (c.makes_counted makes based next.2.1)
  rw [went.ns,Change.bindings cons.sane cons.tidy.bounded ch valid]
  exact c.makes_remaps makes based

theorem directories_refine_maps_fresh : ∃ t u : SfsFs,Path (Calls step Faithful) (freshDisk fun _ => true) early t ∧
    (Call.unlink 1 nameC).Remaps t.ns.bindings u.ns.bindings ∧ ∀ d r,t.ns d = some r → r.type = sfsTypeDir → (t.ns.bindings d).ncard = r.info := by
  obtain ⟨t,u,_,path,last,-⟩ := fresh_early
  have path := path.mono fun _ _ _ => Careful.faithful
  obtain ⟨-,size,remaps,-⟩ := directories_refine_maps fresh_consistent path
  exact ⟨t,u,path,remaps _ u ⟨last.success,last.roomy,last.straight⟩,size⟩

-- A file renamed to the name it has: the name exists and 0 is returned.
set_option maxRecDepth 100000 in
theorem rename_onto_itself : runs (sfsCreate 1 nameA true (freshDisk fun _ => true)) (fun s =>
    s.slot 1 0 = some (3,nameA) && runs ((Call.rename 1 nameA 1 nameA).act s) (fun t => t.slot 1 0 = some (3,nameA))) = true := by
  decide +kernel

end Ucore.Sfs

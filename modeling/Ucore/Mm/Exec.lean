import Ucore.Mm.Memory

-- The ways in which a process gets a page it has not written: a fault in an area
-- of mmap, brk or the stack, a fault in shared memory, and load_icode. Which of
-- the bytes it then reads are whatever the frame held before.
namespace Ucore.Mm
open Bytes Outcomes Runs
variable {s t u : Vm} {m first last start : Nat} {w : Bool} {W : Nat → Prop} {c : Nat → UInt8}

structure Segment where
  va : Nat
  filesz : Nat
  memsz : Nat
  offset : Nat
  read : Bool
  write : Bool
  exec : Bool

section Load

def fillPage (page off size : Nat) (src : Buf) : VmM Unit := modify fun s => {s with data:=set s.data page (copy (s.data page) off size src)}

-- load_icode_read into a page: the file offset goes with the address.
def readPage (file : Buf) (seg : Segment) (page off size start : Nat) : VmM Unit := do
  if ← granted then fillPage page off size fun i => file (seg.offset + (start + i - seg.va)) else fail .eIo

def clearPage (page off size _start : Nat) : VmM Unit := fillPage page off size zero

-- The two loops of load_icode over the pages of a segment: the bytes from start
-- to stop go to fresh pages. At most n rounds.
def pageLoop (m : Nat) (w : Bool) (stop : Nat) (fill : Nat → Nat → Nat → Nat → VmM Unit) : Nat → Nat → Nat → Nat → VmM (Nat × Nat × Nat)
  | 0,start,la,page => pure (start,la,page)
  | n+1,start,la,page =>
    if start < stop then do
      match ← pgdirAllocPage (m,la / 4096) w with
      | none => fail .eNoMem
      | some page => do
        let off := start - la
        let la := la + 4096
        let size := if stop < la then 4096 - off - (la - stop) else 4096 - off
        fill page off size start
        pageLoop m w stop fill n (start + size) la page
    else pure (start,la,page)

-- Between the loops: the rest of the page in which the file part ends.
def clearTail (start la page stop : Nat) : VmM Nat := do
  let off := start + 4096 - la
  let size := if stop < la then 4096 - off - (la - stop) else 4096 - off
  clearPage page off size start
  check ((stop < la && start + size == stop) || (stop ≥ la && start + size == la)) .loadIcode
  pure (start + size)

def clearRest (m : Nat) (w : Bool) (stop start la page : Nat) : VmM Unit := do
  if start < la ∧ start = stop then pure ()
  else
    let start ← if start < la then clearTail start la page stop else pure start
    let _ ← pageLoop m w stop clearPage (stop - start) start la page

def loadSegment (m : Nat) (w : Bool) (file : Buf) (seg : Segment) : VmM Unit := do
  if seg.filesz > seg.memsz then fail .eInvalElf
  else
    mmMap m ⟨seg.va / 4096,(seg.va + seg.memsz + 4095) / 4096,seg.read,seg.write,seg.exec,false⟩
    let (start,la,page) ← pageLoop m w (seg.va + seg.filesz) (readPage file seg) seg.filesz seg.va (4096 * (seg.va / 4096)) 0
    clearRest m w (seg.va + seg.memsz) start la page

structure Shmem where
  node : Nat → Bool
  entry : Nat → Pte

def shmemNode (sh : Shmem) (index : Nat) : VmM Bool :=
  if sh.node (index / 512) then pure true
  else do
    if ← granted then granted else pure false

-- shmem_get_entry with create set.
def shmemGetEntry (sh : Shmem) (index : Nat) : VmM (Option Shmem) := do
  if ← shmemNode sh index then
    let sh := {sh with node:=set sh.node (index / 512) true}
    if sh.entry index = .empty then
      match ← allocPage with
      | none => pure (some sh)
      | some page => do
        setRef page ((← state).ref page + 1)
        pure (some {sh with entry:=set sh.entry index (.present page false false false)})
    else pure (some sh)
  else pure none

-- do_pgfault in a VM_SHARE area, for an address that has no entry yet.
def sharedFault (k : Key) (w : Bool) (sh : Shmem) (index : Nat) : VmM Unit := do
  if ← getPte k then
    match ← shmemGetEntry sh index with
    | none => fail .eNoMem
    | some sh =>
      match sh.entry index with
      | .empty => fail .eNoMem
      | .present page _ _ _ => do
        let _ ← pageInsert page k w false false
      | .swapped o => do
        swapDuplicate 0
        setPte k (.swapped o)
  else fail .eNoMem

end Load

def Vm.refilled (s : Vm) (d : Nat → Buf) : Vm := {s with data:=d}

def Blind (act : VmM α) : Prop := ∀ s a t,act s = .ok a t → t.toCore = s.toCore ∧ ∀ d,act (s.refilled d) = .ok a (t.refilled d)

lemma Blind.pure (a : α) : Blind (Pure.pure a) := by
  rintro s _ _ ⟨⟩
  exact ⟨rfl,fun _ => rfl⟩

lemma Blind.fail (e : Err) : Blind (Outcomes.fail e : VmM α) := fun _ _ _ ran => by cases ran

lemma Blind.check (b : Bool) (x : Fault) : Blind (Outcomes.check b x) := by
  intro s a t ran
  cases b with
  | true => cases ran; exact ⟨rfl,fun _ => rfl⟩
  | false => cases ran

lemma Blind.granted : Blind granted := by
  rintro s _ _ ⟨⟩
  exact ⟨rfl,fun _ => rfl⟩

lemma Blind.bind {act : VmM α} {f : α → VmM β} (first : Blind act) (rest : ∀ a,Blind (f a)) : Blind (act >>= f) := by
  intro s b t ran
  rw [bind_run] at ran
  obtain ⟨a,u,one,ran⟩ := next_inv ran
  obtain ⟨core,again⟩ := first s a u one
  obtain ⟨core',again'⟩ := rest a u b t ran
  refine ⟨core'.trans core,fun d => ?_⟩
  rw [bind_run,again,next_ok,again']

lemma Blind.state {f : Vm → VmM β} (eq : ∀ s d,f (s.refilled d) = f s) (rest : ∀ s,Blind (f s)) : Blind (state >>= f) := by
  intro s b t ran
  obtain ⟨core,again⟩ := rest s s b t ran
  refine ⟨core,fun d => ?_⟩
  rw [bind_run,state_run,next_ok,eq]
  exact again d

lemma Blind.ite {c : Prop} [Decidable c] {one two : VmM α} (yes : Blind one) (no : Blind two) : Blind (if c then one else two) := by
  split
  · exact yes
  exact no

lemma setAreas_blind (m : Nat) (l : List Vma) : Blind (setAreas m l) := by
  rintro s _ _ ⟨⟩
  exact ⟨rfl,fun _ => rfl⟩

lemma mmMap_blind (m : Nat) (vma : Vma) : Blind (mmMap m vma) := by
  have insert : ∀ vma,Blind (insertVmaStruct m vma) := fun vma =>
    (Blind.check _ _).bind fun _ => .state (fun _ _ => rfl) fun _ => (Blind.check _ _).bind fun _ => (Blind.check _ _).bind fun _ => setAreas_blind m _
  have create : Blind (vmaCreate vma) := Blind.granted.bind fun _ => .ite (.pure _) (.fail _)
  exact .ite (.fail _) (.state (fun _ _ => rfl) fun _ => .ite (.fail _) (create.bind insert))

lemma getPte_blind (k : Key) : Blind (getPte k) := by
  have write : ∀ f : (Nat → Nat → Bool) → Nat → Nat → Bool,Blind (modify fun s => {s with table:=f s.table} : VmM Unit) := by
    rintro f s _ _ ⟨⟩
    exact ⟨rfl,fun _ => rfl⟩
  exact .state (fun _ _ => rfl) fun s => .ite (.pure _) (Blind.granted.bind fun _ =>
    .ite ((write fun table => set table k.1 (set (table k.1) (k.2 / 512) true)).bind fun _ => .pure _) (.pure _))

lemma insert_empty (empty : u.pte k = .empty) (ran : getPte k s = .ok true u) :
    pageInsert f k w false false s = .ok true {u with ref:=set u.ref f (u.ref f + 1),pte:=set u.pte k (.present f w false false)} := by
  simp [pageInsert,ran,setRef_run,empty,setPte_run]

lemma fresh_insert (empty : s.pte k = .empty) (ran : pageInsert f k w false false s = .ok r t) :
    t.free = s.free ∧ t.data = s.data ∧ t.pte = (if r then set s.pte k (.present f w false false) else s.pte) ∧ t.mmap = s.mmap ∧
      ∀ d,pageInsert f k w false false (s.refilled d) = .ok r (t.refilled d) := by
  obtain ⟨found,u,got,rest⟩ := next_inv ran
  obtain ⟨core,blind⟩ := getPte_blind k s found u got
  have empty' : u.pte k = .empty := by rw [core]; exact empty
  obtain ⟨_,_,again,_,mmap,_⟩ := getPte_cases (s:=s) k
  cases got.symm.trans again
  cases found with
  | true =>
    rw [insert_empty empty' got] at ran
    cases ran
    exact ⟨by rw [core],by rw [core],by rw [core]; rfl,mmap,fun d => insert_empty (u:=u.refilled d) empty' (blind d)⟩
  | false =>
    cases rest
    refine ⟨by rw [core],by rw [core],by rw [core]; rfl,mmap,fun d => ?_⟩
    simp [pageInsert,blind]

lemma alloc_fresh (ran : allocPage s = .ok (some f) t) :
    s.free = f :: t.free ∧ t.data = s.data ∧ t.pte = s.pte ∧ t.mmap = s.mmap ∧ ∀ d,allocPage (s.refilled d) = .ok (some f) (t.refilled d) := by
  simp only [allocPage,rules,granted_run,ite_run] at ran
  cases mem : s.mem s.tick with
  | false => simp only [mem,rules] at ran; cases ran
  | true =>
    simp only [mem,if_true] at ran
    cases free : s.free with
    | nil => simp only [free,rules] at ran; cases ran
    | cons g _ =>
      simp only [free,rules] at ran
      cases ran
      refine ⟨rfl,rfl,rfl,rfl,fun d => ?_⟩
      simp [allocPage,granted_run,Vm.refilled,mem,free]

lemma fresh_page (empty : s.pte k = .empty) (ran : pgdirAllocPage k w s = .ok (some f) t) :
    s.free = f :: t.free ∧ t.data = s.data ∧ t.pte = set s.pte k (.present f w false false) ∧ t.mmap = s.mmap ∧
      ∀ d,pgdirAllocPage k w (s.refilled d) = .ok (some f) (t.refilled d) := by
  simp only [pgdirAllocPage,rules] at ran
  obtain ⟨r,u,got,ran⟩ := next_inv ran
  cases r with
  | none => cases ran
  | some g =>
    obtain ⟨free,data,pte,mmap,blind⟩ := alloc_fresh got
    simp only [rules] at ran
    obtain ⟨r,v,put,ran⟩ := next_inv ran
    obtain ⟨free',data',pte',mmap',blind'⟩ := fresh_insert (by rw [pte]; exact empty) put
    cases r with
    | false => simp only [rules,freePage_run] at ran; cases ran
    | true =>
      simp only [rules] at ran
      cases ran
      refine ⟨by rw [free,free'],data'.trans data,by rw [pte',pte]; rfl,mmap'.trans mmap,fun d => ?_⟩
      simp [pgdirAllocPage,blind,blind']

structure Poured (m : Nat) (w : Bool) (first last : Nat) (W : Nat → Prop) (c : Nat → UInt8) (s t : Vm) : Prop where
  order : first ≤ last
  free : t.free = s.free.drop (last - first)
  page : ∀ p,first ≤ p → p < last → ∃ f,s.free[p - first]? = some f ∧ t.pte (m,p) = .present f w false false ∧
    ∀ i < 4096,(W (4096 * p + i) → t.data f i = c (4096 * p + i)) ∧ (¬ W (4096 * p + i) → t.data f i = s.data f i)
  others : ∀ k,¬ (k.1 = m ∧ first ≤ k.2 ∧ k.2 < last) → t.pte k = s.pte k
  kept : ∀ f,f ∉ s.free.take (last - first) → t.data f = s.data f

section Pour
variable {lo size f : Nat} {v : Vm} {src : Buf}

lemma Poured.alloc (once : s.free.Nodup) (fed : Poured m w first last W c s u) (beyond : ∀ i < 4096,¬ W (4096 * last + i))
    (free : u.free = f :: v.free) (data : v.data = u.data) (pte : v.pte = set u.pte (m,last) (.present f w false false)) :
    Poured m w first (last + 1) W c s v ∧ s.free[last - first]? = some f := by
  have order := fed.order
  have taken : s.free.drop (last - first) = f :: v.free := fed.free.symm.trans free
  have spot : s.free[last - first]? = some f := by
    rw [← List.head?_drop,taken]
    rfl
  refine ⟨⟨Nat.le_succ_of_le order,?_,fun p least most => ?_,fun k away => ?_,fun g gone => ?_⟩,spot⟩
  · rw [Nat.succ_sub order,← List.tail_drop,taken]
    rfl
  · rcases Nat.lt_succ_iff_lt_or_eq.mp most with early | rfl
    · obtain ⟨g,at_,entry,bytes⟩ := fed.page p least early
      exact ⟨g,at_,by rw [pte,set_ne (fun eq => by cases eq; omega)]; exact entry,data ▸ bytes⟩
    refine ⟨f,spot,by rw [pte,set_self],fun i small => ⟨fun inside => absurd inside (beyond i small),fun _ => ?_⟩⟩
    rw [data,fed.kept f fun early => List.disjoint_take_drop once le_rfl early (taken ▸ List.mem_cons_self)]
  · rw [pte,set_ne (by rintro rfl; exact away ⟨rfl,order,Nat.lt_succ_self last⟩)]
    exact fed.others k fun inside => away ⟨inside.1,inside.2.1,Nat.lt_succ_of_lt inside.2.2⟩
  rw [data]
  exact fed.kept g fun early => gone (List.take_subset_take_left _ (by omega) early)

lemma Poured.fill (once : s.free.Nodup) (fed : Poured m w first last (fun a => lo ≤ a ∧ a < start) c s u) (solid : first < last)
    (spot : s.free[last - 1 - first]? = some f) (low : 4096 * (last - 1) ≤ start) (high : start + size ≤ 4096 * last) (base : lo ≤ start)
    (eq : ∀ i < size,src i = c (start + i)) (free : v.free = u.free) (pte : v.pte = u.pte)
    (data : v.data = set u.data f (copy (u.data f) (start - 4096 * (last - 1)) size src)) :
    Poured m w first last (fun a => lo ≤ a ∧ a < start + size) c s v := by
  refine ⟨fed.order,free.trans fed.free,fun p least most => ?_,fun k away => pte ▸ fed.others k away,fun g gone => ?_⟩
  · obtain ⟨g,at_,entry,bytes⟩ := fed.page p least most
    refine ⟨g,at_,pte ▸ entry,fun i small => ?_⟩
    obtain ⟨old,none⟩ := bytes i small
    rw [data]
    by_cases mine : g = f
    · subst mine
      have here := (List.getElem?_inj (List.getElem?_eq_some_iff.mp spot).1 once).mp (spot.trans at_.symm)
      rw [set_self,copy]
      split
      next inside =>
        rw [eq _ (by omega),show start + (i - (start - 4096 * (last - 1))) = 4096 * p + i by omega]
        exact ⟨fun _ => rfl,fun out => absurd (by omega) out⟩
      next out => exact ⟨fun inside => old (by omega),fun out => none (by omega)⟩
    have there : p ≠ last - 1 := by
      rintro rfl
      exact mine (Option.some.inj (at_.symm.trans spot))
    rw [set_ne mine]
    exact ⟨fun inside => old (by omega),fun out => none (by omega)⟩
  rw [data,set_ne]
  · exact fed.kept g gone
  rintro rfl
  refine gone (List.mem_iff_getElem?.mpr ⟨last - 1 - first,?_⟩)
  rw [List.getElem?_take,if_pos (by omega)]
  exact spot

end Pour

def Pours (fill : Nat → Nat → Nat → Nat → VmM Unit) (c : Nat → UInt8) : Prop :=
  ∀ s u page off size start,fill page off size start s = .ok () u →
    u.data = set s.data page (copy (s.data page) off size fun i => c (start + i)) ∧ u.free = s.free ∧ u.pte = s.pte ∧
      ∀ d,∃ e,fill page off size start (s.refilled d) = .ok () (u.refilled e)

section Loop
variable {v : Vm} {stop : Nat} {fill : Nat → Nat → Nat → Nat → VmM Unit} {c' : Nat → UInt8}

lemma readPage_pours (file : Buf) (seg : Segment) : Pours (readPage file seg) fun a => file (seg.offset + (a - seg.va)) := by
  intro s u page off size start ran
  simp only [readPage,rules,granted_run,ite_run] at ran
  cases mem : s.mem s.tick with
  | false => rw [mem] at ran; cases ran
  | true =>
    rw [mem] at ran
    cases ran
    refine ⟨rfl,rfl,rfl,fun d => ⟨set d page (copy (d page) off size fun i => file (seg.offset + (start + i - seg.va))),?_⟩⟩
    simp only [readPage,rules,granted_run,ite_run,Vm.refilled,mem]
    rfl

lemma readPage_calm (ran : readPage file seg page off size start s = .ok () u) : u.mmap = s.mmap := by
  simp only [readPage,rules,granted_run,ite_run] at ran
  split at ran <;> cases ran
  rfl

lemma clearPage_pours : Pours clearPage fun _ => 0 := by
  intro s u _ _ _ _ ran
  cases ran
  exact ⟨rfl,rfl,rfl,fun d => ⟨_,rfl⟩⟩

lemma pageLoop_done (past : stop ≤ start) : pageLoop m w stop fill n start la page s = .ok (start,la,page) s := by
  cases n with
  | zero => rfl
  | succ n => rw [pageLoop,if_neg (by omega)]; rfl

-- Each round maps the page last and fills it to its end or to stop.
lemma pageLoop_run (pours : Pours fill c') (calm : ∀ {s u page off size start},fill page off size start s = .ok () u → u.mmap = s.mmap)
    (once : s.free.Nodup) (agree : ∀ a,start ≤ a → a < stop → c' a = c a)
    (empty : ∀ p,first ≤ p → 4096 * p < stop → s.pte (m,p) = .empty) (n : Nat) (fed : Poured m w first last (fun a => lo ≤ a ∧ a < start) c s u)
    (low : 4096 * last ≤ start) (near : start < 4096 * (last + 1)) (edge : start = 4096 * last ∨ start = lo) (base : lo ≤ start) (more : start < stop)
    (enough : stop - start ≤ n) (ran : pageLoop m w stop fill n start (4096 * last) page u = .ok r t) :
    ∃ last' page',r = (stop,4096 * last',page') ∧ Poured m w first last' (fun a => lo ≤ a ∧ a < stop) c s t ∧
      s.free[last' - 1 - first]? = some page' ∧ first < last' ∧ 4096 * (last' - 1) < stop ∧ stop ≤ 4096 * last' ∧ t.mmap = u.mmap ∧
      ∀ d,∃ e,pageLoop m w stop fill n start (4096 * last) page (u.refilled d) = .ok r (t.refilled e) := by
  induction n generalizing start last page u with
  | zero => omega
  | succ n ih =>
    have order := fed.order
    have here : 4096 * last / 4096 = last := Nat.mul_div_cancel_left last (by decide)
    rw [pageLoop,if_pos more,here,bind_run] at ran
    obtain ⟨got',x,got,ran⟩ := next_inv ran
    cases got' with
    | none => cases ran
    | some f =>
      simp only [rules] at ran
      obtain ⟨size,sized⟩ : ∃ size,size = if stop < 4096 * last + 4096 then 4096 - (start - 4096 * last) - (4096 * last + 4096 - stop) else 4096 - (start - 4096 * last) :=
        ⟨_,rfl⟩
      rw [← sized] at ran
      have reach : start + size = min stop (4096 * (last + 1)) := by
        rw [sized]
        split <;> omega
      obtain ⟨_,v,filled,ran⟩ := next_inv ran
      have hole : u.pte (m,last) = .empty := (fed.others _ (by simp)).trans (empty last order (by omega))
      obtain ⟨free,data,pte,mmap,blind⟩ := fresh_page hole got
      obtain ⟨data',free',pte',blind'⟩ := pours x v f _ size start filled
      have mmap := (calm filled).trans mmap
      obtain ⟨fed,spot⟩ := fed.alloc once (by omega) free data pte
      have fed := fed.fill once (by omega) spot (by omega) (by omega) base (fun i small => agree _ (by omega) (by omega)) free' pte' data'
      have step : ∀ d,∃ e,pageLoop m w stop fill (n + 1) start (4096 * last) page (u.refilled d) =
          pageLoop m w stop fill n (start + size) (4096 * (last + 1)) f (v.refilled e) := fun d => by
        obtain ⟨e,again⟩ := blind' d
        refine ⟨e,?_⟩
        rw [pageLoop,if_pos more,here,bind_run,blind d]
        simp only [rules]
        rw [← sized,again]
        rfl
      rcases lt_or_ge (start + size) stop with more | _
      · obtain ⟨last',page',rfl,fed,spot,solid,close,past,eq,rest⟩ := ih (fun a low => agree a (by omega)) fed (by omega) (by omega) (by omega) (by omega) more (by omega) ran
        refine ⟨last',page',rfl,fed,spot,solid,close,past,eq.trans mmap,fun d => ?_⟩
        obtain ⟨e,again⟩ := step d
        rw [again]
        exact rest e
      obtain all : start + size = stop := by omega
      rw [all] at fed ran step
      rw [pageLoop_done le_rfl] at ran
      cases ran
      refine ⟨last + 1,f,rfl,fed,spot,by omega,by omega,by omega,mmap,fun d => ?_⟩
      obtain ⟨e,again⟩ := step d
      exact ⟨e,again.trans (pageLoop_done le_rfl)⟩

def Segment.content (seg : Segment) (file : Buf) (a : Nat) : UInt8 := if a < seg.va + seg.filesz then file (seg.offset + (a - seg.va)) else 0

def Segment.Has (seg : Segment) (a : Nat) : Prop := seg.va ≤ a ∧ a < seg.va + seg.memsz

section Clear
variable (once : s.free.Nodup) (base : lo ≤ start) (rest : start ≤ stop) (zeros : ∀ a,start ≤ a → c a = 0)
  (empty : ∀ p,first ≤ p → 4096 * p < stop → s.pte (m,p) = .empty)
  (fed : Poured m w first last (fun a => lo ≤ a ∧ a < start) c s u)
include once base rest zeros empty fed

lemma clearLoop_run (edge : start < stop → 4096 * last ≤ start ∧ start < 4096 * (last + 1) ∧ (start = 4096 * last ∨ start = lo))
    (ends : last = first ∨ 4096 * (last - 1) < stop) (past : lo < start → start ≤ 4096 * last)
    (ran : (pageLoop m w stop clearPage (stop - start) start (4096 * last) page u).next (fun _ => pure ()) = .ok () t) :
    ∃ last',Poured m w first last' (fun a => lo ≤ a ∧ a < stop) c s t ∧ (last' = first ∨ 4096 * (last' - 1) < stop) ∧ (lo < stop → stop ≤ 4096 * last') ∧ t.mmap = u.mmap ∧
      ∀ d,∃ e,(pageLoop m w stop clearPage (stop - start) start (4096 * last) page (u.refilled d)).next (fun _ => pure ()) = .ok () (t.refilled e) := by
  obtain ⟨_,_,ran,done⟩ := next_inv ran
  cases done
  rcases lt_or_ge start stop with more | done
  · obtain ⟨low,near,edge⟩ := edge more
    obtain ⟨last',_,_,fed,_,_,close,past,mmap,again⟩ := pageLoop_run clearPage_pours (fun ran => by cases ran; rfl) once
      (fun a above _ => (zeros a above).symm) empty _ fed low near edge base more le_rfl ran
    refine ⟨last',fed,.inr close,fun _ => past,mmap,fun d => ?_⟩
    obtain ⟨e,again⟩ := again d
    exact ⟨e,by rw [again]; rfl⟩
  rw [pageLoop_done done] at ran
  cases ran
  exact ⟨last,le_antisymm rest done ▸ fed,ends,fun _ => by omega,rfl,fun d => ⟨d,by rw [pageLoop_done done]; rfl⟩⟩

lemma clearRest_run (spot : s.free[last - 1 - first]? = some page)
    (solid : first < last) (order : 4096 * (last - 1) < start) (past : start ≤ 4096 * last)
    (ran : clearRest m w stop start (4096 * last) page u = .ok () t) :
    ∃ last',Poured m w first last' (fun a => lo ≤ a ∧ a < stop) c s t ∧ (last' = first ∨ 4096 * (last' - 1) < stop) ∧ (lo < stop → stop ≤ 4096 * last') ∧ t.mmap = u.mmap ∧
      ∀ d,∃ e,clearRest m w stop start (4096 * last) page (u.refilled d) = .ok () (t.refilled e) := by
  by_cases all : start < 4096 * last ∧ start = stop
  · simp only [clearRest,if_pos all] at ran ⊢
    cases ran
    exact ⟨last,all.2 ▸ fed,.inr (by omega),fun _ => by omega,rfl,fun d => ⟨d,rfl⟩⟩
  simp only [clearRest,if_neg all] at ran ⊢
  by_cases short : start < 4096 * last
  · obtain ⟨size,sized⟩ : ∃ size,size = if stop < 4096 * last then 4096 - (start + 4096 - 4096 * last) - (4096 * last - stop) else 4096 - (start + 4096 - 4096 * last) :=
      ⟨_,rfl⟩
    have reach : start + size = min stop (4096 * last) := by
      rw [sized]
      split <;> omega
    have tail (u : Vm) : clearTail start (4096 * last) page stop u =
        .ok (start + size) {u with data:=set u.data page (copy (u.data page) (start + 4096 - 4096 * last) size zero)} := by
      simp only [clearTail,clearPage,fillPage,rules]
      rw [← sized,if_pos]
      · rfl
      simp only [Bool.or_eq_true,Bool.and_eq_true,decide_eq_true_eq,beq_iff_eq]
      omega
    have fed : Poured m w first last (fun a => lo ≤ a ∧ a < start + size) c s {u with data:=set u.data page (copy (u.data page) (start + 4096 - 4096 * last) size zero)} :=
      fed.fill once solid spot (le_of_lt order) (by omega) base (fun i _ => (zeros _ (by omega)).symm) rfl rfl (congrArg (fun off => set u.data page (copy (u.data page) off size zero)) (by omega))
    simp only [if_pos short,rules,tail] at ran ⊢
    obtain ⟨last',fed,ends,past,mmap,again⟩ := clearLoop_run once (by omega) (by omega) (fun a above => zeros a (by omega)) empty fed (by omega) (by omega) (by omega) ran
    exact ⟨last',fed,ends,past,mmap,fun d => again _⟩
  simp only [if_neg short] at ran ⊢
  exact clearLoop_run once base rest zeros empty fed (by omega) (by omega) (fun _ => past) ran

end Clear

lemma loadSegment_run (once : s.free.Nodup) (seg : Segment) (empty : ∀ p,seg.va / 4096 ≤ p → 4096 * p < seg.va + seg.memsz → s.pte (m,p) = .empty)
    (ran : loadSegment m w file seg s = .ok () t) :
    ∃ last v,Poured m w (seg.va / 4096) last seg.Has (seg.content file) s t ∧ (last = seg.va / 4096 ∨ 4096 * (last - 1) < seg.va + seg.memsz) ∧
      (0 < seg.memsz → seg.va / 4096 < last) ∧
      mmMap m ⟨seg.va / 4096,(seg.va + seg.memsz + 4095) / 4096,seg.read,seg.write,seg.exec,false⟩ s = .ok () v ∧ t.mmap = v.mmap ∧
      ∀ d,∃ e,loadSegment m w file seg (s.refilled d) = .ok () (t.refilled e) := by
  by_cases large : seg.filesz > seg.memsz
  · rw [loadSegment,if_pos large] at ran
    cases ran
  simp only [loadSegment,if_neg large,rules] at ran ⊢
  obtain ⟨_,u,mapped,ran⟩ := next_inv ran
  obtain ⟨core,again⟩ := mmMap_blind m _ s () u mapped
  simp only [again,rules] at ran ⊢
  have fed : Poured m w (seg.va / 4096) (seg.va / 4096) (fun a => seg.va ≤ a ∧ a < seg.va) (seg.content file) s u := by
    refine ⟨le_rfl,?_,fun p low high => by omega,fun _ _ => ?_,fun _ _ => ?_⟩ <;> rw [core]
    rw [Nat.sub_self]
    rfl
  have zeros : ∀ a,seg.va + seg.filesz ≤ a → seg.content file a = 0 := fun a above => by rw [Segment.content,if_neg (by omega)]
  rcases Nat.eq_zero_or_pos seg.filesz with none | _
  · rw [none,add_zero] at zeros
    have rest : ∀ v,clearRest m w (seg.va + seg.memsz) seg.va (4096 * (seg.va / 4096)) 0 v =
        (pageLoop m w (seg.va + seg.memsz) clearPage (seg.va + seg.memsz - seg.va) seg.va (4096 * (seg.va / 4096)) 0 v).next fun _ => pure () := fun v => by
      rw [clearRest,if_neg (by omega),if_neg (by omega)]
      rfl
    simp only [pageLoop_done (show seg.va + seg.filesz ≤ seg.va by omega),rules,rest] at ran ⊢
    obtain ⟨last,fed,ends,past,mmap,again⟩ := clearLoop_run once le_rfl (by omega) zeros empty fed (fun _ => by omega) (.inl rfl) (by omega) ran
    exact ⟨last,u,fed,ends,fun some => by have := past (by omega); omega,mapped,mmap,again⟩
  obtain ⟨_,v,loop,ran⟩ := next_inv ran
  obtain ⟨_,_,rfl,fed,spot,solid,order,past,mmap,blind⟩ := pageLoop_run (readPage_pours file seg) readPage_calm once (fun a _ below => by rw [Segment.content,if_pos below])
    (fun p low high => empty p low (by omega)) _ fed (by omega) (by omega) (.inr rfl) le_rfl (by omega) (by omega) loop
  obtain ⟨last',fed,ends,past,mmap',blind'⟩ := clearRest_run once (by omega) (by omega) zeros empty fed spot solid order past ran
  refine ⟨last',u,fed,ends,fun some => by have := past (by omega); omega,mapped,mmap'.trans mmap,fun d => ?_⟩
  obtain ⟨e,first⟩ := blind d
  rw [first]
  exact blind' e

end Loop

inductive Acquire where
  | touch (k : Key) (write : Bool)
  | share (k : Key) (w : Bool) (sh : Shmem) (index : Nat)
  | exec (m : Nat) (w : Bool) (file : Buf) (seg : Segment)

def Acquire.act : Acquire → VmM Unit
  | .touch k write => doPgfault k false write
  | .share k w sh index => sharedFault k w sh index
  | .exec m w file seg => loadSegment m w file seg

def Acquire.Fresh (s : Vm) : Acquire → Prop
  | .touch k _ => s.pte k = .empty
  | .share k _ sh index => s.pte k = .empty ∧ sh.entry index = .empty
  | .exec m _ _ seg => ∀ p,seg.va / 4096 ≤ p → 4096 * p < seg.va + seg.memsz → s.pte (m,p) = .empty

def Acquire.Fills (m a : Nat) : Acquire → Prop
  | .exec n _ _ seg => m = n ∧ seg.Has a
  | _ => False

def Acquire.content (a : Nat) : Acquire → UInt8
  | .exec _ _ file seg => seg.content file a
  | _ => 0

def Vm.byteAt (s : Vm) (m a : Nat) : Option UInt8 :=
  match s.pte (m,a / 4096) with
  | .present f _ _ _ => some (s.data f (a % 4096))
  | _ => none

def Alike (s t : Vm) : Prop := ∃ d,t = s.refilled d ∧ ∀ f,f ∉ s.free → d f = s.data f

structure Given (acq : Acquire) (s t : Vm) : Prop where
  page : ∀ m a,s.pte (m,a / 4096) = .empty → t.pte (m,a / 4096) ≠ .empty → ∃ f w,f ∈ s.free ∧ t.pte (m,a / 4096) = .present f w false false ∧
    (acq.Fills m a → t.data f (a % 4096) = acq.content a) ∧ (¬ acq.Fills m a → t.data f (a % 4096) = s.data f (a % 4096))
  blind : ∀ d,∃ e,acq.act (s.refilled d) = .ok () (t.refilled e)

section Acquire
variable {acq : Acquire} {a : Nat}

lemma doPgfault_fresh (empty : s.pte k = .empty) (ran : doPgfault k false write s = .ok () t) :
    ∃ f w,f ∈ s.free ∧ t.pte = set s.pte k (.present f w false false) ∧ t.data = s.data ∧ ∀ d,doPgfault k false write (s.refilled d) = .ok () (t.refilled d) := by
  simp only [doPgfault,rules] at ran
  cases found : findVma (s.mmap k.1) k.2 with
  | none => rw [found] at ran; cases ran
  | some vma =>
    rw [found] at ran
    simp only [ite_run] at ran
    by_cases low : vma.start > k.2
    · rw [if_pos low] at ran; cases ran
    rw [if_neg low] at ran
    by_cases guard : (vma.stack && decide (k.2 < vma.start + 1)) = true
    · rw [if_pos guard] at ran; cases ran
    rw [if_neg guard] at ran
    by_cases refused : (!mayAccess vma false write) = true
    · rw [if_pos refused] at ran; cases ran
    rw [if_neg refused,bind_run] at ran
    have run : ∀ d,doPgfault k false write (s.refilled d) = (getPte k (s.refilled d)).next fun r => if r then servePte k write vma else fail .eNoMem := fun d => by
      simp only [doPgfault,rules]
      rw [show findVma ((s.refilled d).mmap k.1) k.2 = some vma from found]
      simp only [ite_run,if_neg low,if_neg guard,if_neg refused]
      rfl
    obtain ⟨r,u,got,ran⟩ := next_inv ran
    obtain ⟨core,blind⟩ := getPte_blind k s r u got
    cases r with
    | false => cases ran
    | true =>
      have serve : ∀ v : Vm,v.pte k = .empty → servePte k write vma v = (pgdirAllocPage k vma.write v).next fun
          | none => fail .eNoMem
          | some _ => pure () := fun v none => by
        simp only [servePte,rules,none] <;> rfl
      have empty' : u.pte k = .empty := by rw [core]; exact empty
      have ran : servePte k write vma u = .ok () t := ran
      rw [serve u empty'] at ran
      obtain ⟨r,v,page,ran⟩ := next_inv ran
      cases r with
      | none => cases ran
      | some f =>
        cases ran
        obtain ⟨free,data,pte,_,blind'⟩ := fresh_page empty' page
        refine ⟨f,vma.write,by rw [← core,free]; exact List.mem_cons_self,by rw [pte,core],by rw [data,core],fun d => ?_⟩
        rw [run,blind,next_ok]
        show servePte k write vma (u.refilled d) = _
        rw [serve (u.refilled d) empty',blind',next_ok]
        rfl

lemma touch_given (empty : s.pte k = .empty) (ran : doPgfault k false write s = .ok () t) : Given (.touch k write) s t := by
  obtain ⟨f,w,free,pte,data,blind⟩ := doPgfault_fresh empty ran
  refine ⟨fun m a hole there => ⟨f,w,free,?_,False.elim,fun _ => by rw [data]⟩,fun d => ⟨d,blind d⟩⟩
  rw [pte] at there ⊢
  by_cases eq : (m,a / 4096) = k
  · rw [eq,set_self]
  rw [set_ne eq] at there
  exact absurd hole there

lemma shmemNode_blind (sh : Shmem) (index : Nat) : Blind (shmemNode sh index) := .ite (.pure _) (Blind.granted.bind fun _ => .ite .granted (.pure _))

lemma shmemGetEntry_fresh (empty : sh.entry index = .empty) (ran : shmemGetEntry sh index s = .ok (some sh') t) : sh'.entry index = .empty ∨
    ∃ f,f ∈ s.free ∧ sh'.entry index = .present f false false false ∧ t.pte = s.pte ∧ t.data = s.data ∧
      ∀ d,shmemGetEntry sh index (s.refilled d) = .ok (some sh') (t.refilled d) := by
  obtain ⟨made,u,node,ran⟩ := next_inv ran
  obtain ⟨core,blind⟩ := shmemNode_blind sh index s made u node
  cases made with
  | false => cases ran
  | true =>
    simp only [rules,empty] at ran
    obtain ⟨r,v,got,ran⟩ := next_inv ran
    cases r with
    | none =>
      cases ran
      exact .inl empty
    | some f =>
      obtain ⟨free,data,pte,_,blind'⟩ := alloc_fresh got
      cases ran
      refine .inr ⟨f,by rw [← core,free]; exact List.mem_cons_self,set_self,by rw [pte,core],by rw [data,core],fun d => ?_⟩
      simp only [shmemGetEntry,rules,blind,empty,blind',setRef_run]
      rfl

lemma share_given (empty : s.pte k = .empty) (none : sh.entry index = .empty) (ran : sharedFault k w sh index s = .ok () t) : Given (.share k w sh index) s t := by
  simp only [sharedFault,bind_run] at ran
  obtain ⟨r,u,found,ran⟩ := next_inv ran
  obtain ⟨core,blind⟩ := getPte_blind k s r u found
  cases r with
  | false => cases ran
  | true =>
    simp only [if_true,bind_run] at ran
    obtain ⟨r,v,got,ran⟩ := next_inv ran
    cases r with
    | none => cases ran
    | some _ =>
      rcases shmemGetEntry_fresh none got with still | ⟨f,free,entry,pte,data,blind'⟩
      · simp only [still] at ran
        cases ran
      simp only [entry,bind_run] at ran
      have hole : v.pte k = .empty := by rw [pte,core]; exact empty
      obtain ⟨r,x,put,ran⟩ := next_inv ran
      cases ran
      obtain ⟨_,data',pte',_,blind''⟩ := fresh_insert hole put
      refine ⟨fun m a hole' there => ?_,fun d => ⟨d,?_⟩⟩
      · cases r with
        | false => exact absurd (by rw [pte',pte,core]; exact hole') there
        | true =>
          have written : t.pte = set s.pte k (.present f w false false) := by rw [pte',pte,core]; rfl
          rw [written] at there ⊢
          by_cases eq : (m,a / 4096) = k
          · exact ⟨f,w,by rw [← core]; exact free,by rw [eq,set_self],False.elim,fun _ => by rw [data',data,core]⟩
          rw [set_ne eq] at there
          exact absurd hole' there
      simp only [Acquire.act,sharedFault,bind_run,blind,next_ok,if_true,blind',entry,blind'']
      rfl

lemma exec_given (once : s.free.Nodup) (seg : Segment)
    (empty : ∀ p,seg.va / 4096 ≤ p → 4096 * p < seg.va + seg.memsz → s.pte (m,p) = .empty) (ran : loadSegment m w file seg s = .ok () t) :
    Given (.exec m w file seg) s t := by
  obtain ⟨last,_,fed,_,_,_,_,blind⟩ := loadSegment_run once seg empty ran
  refine ⟨fun n a hole there => ?_,blind⟩
  have inside : n = m ∧ seg.va / 4096 ≤ a / 4096 ∧ a / 4096 < last := by
    by_contra out
    exact there ((fed.others (n,a / 4096) out).trans hole)
  obtain ⟨rfl,low,high⟩ := inside
  obtain ⟨f,spot,entry,bytes⟩ := fed.page (a / 4096) low high
  obtain ⟨written,left⟩ := bytes (a % 4096) (Nat.mod_lt _ (by decide))
  rw [Nat.div_add_mod] at written left
  exact ⟨f,w,List.mem_of_getElem? spot,entry,fun fills => written fills.2,fun none => left fun has => none ⟨rfl,has⟩⟩

lemma Given.of_run (once : s.free.Nodup) (new : acq.Fresh s) (ran : acq.act s = .ok () t) : Given acq s t := by
  cases acq with
  | touch k _ => exact touch_given new ran
  | share k w _ _ => exact share_given new.1 new.2 ran
  | exec m w _ seg => exact exec_given once seg new ran

lemma Given.byte (given : Given acq s t) (hole : s.pte (m,a / 4096) = .empty) (read : t.byteAt m a = some v) :
    ∃ f w,f ∈ s.free ∧ t.pte (m,a / 4096) = .present f w false false ∧ (acq.Fills m a → v = acq.content a) ∧ (¬ acq.Fills m a → v = s.data f (a % 4096)) := by
  have there : t.pte (m,a / 4096) ≠ .empty := fun none => by
    rw [Vm.byteAt,none] at read
    cases read
  obtain ⟨f,w,free,entry,written,left⟩ := given.page m a hole there
  rw [Vm.byteAt,entry] at read
  cases read
  exact ⟨f,w,free,entry,written,left⟩

-- Of the memory a process gets, exactly the bytes that load_icode puts there do
-- not depend on what the free frames held.
theorem fresh_bytes_fixed (once : s.free.Nodup) (fresh : acq.Fresh s) (hole : s.pte (m,a / 4096) = .empty) (ran : acq.act s = .ok () t)
    (read : t.byteAt m a = some v) :
    (∀ s' t' v',Alike s s' → acq.act s' = .ok () t' → t'.byteAt m a = some v' → v' = v) ↔ acq.Fills m a := by
  have given := Given.of_run once fresh ran
  constructor
  · intro same
    by_contra none
    obtain ⟨f,w,free,entry,_,left⟩ := given.byte hole read
    let d : Nat → Buf := set s.data f fun i => s.data f i + 1
    obtain ⟨e,again⟩ := given.blind d
    have alike : Alike s (s.refilled d) := ⟨d,rfl,fun g busy => set_ne fun same => busy (same ▸ free)⟩
    have given' : Given acq (s.refilled d) (t.refilled e) := .of_run once (by cases acq <;> exact fresh) again
    obtain ⟨v',read'⟩ : ∃ v',(t.refilled e).byteAt m a = some v' := ⟨e f (a % 4096),by rw [Vm.byteAt,show (t.refilled e).pte _ = _ from entry]; rfl⟩
    obtain ⟨g,_,_,entry',_,left'⟩ := given'.byte hole read'
    obtain rfl : g = f := by
      have both := (show (t.refilled e).pte (m,a / 4096) = t.pte (m,a / 4096) from rfl).symm.trans entry'
      rw [entry] at both
      cases both
      rfl
    have equal := same _ _ v' alike again read'
    rw [left none,left' none] at equal
    have differs : s.data g (a % 4096) + 1 = s.data g (a % 4096) := by
      rw [← equal]
      show _ = set s.data g _ g _
      rw [set_self,equal]
    exact absurd differs (by simp)
  rintro fills s' t' v' ⟨d,rfl,_⟩ ran' read'
  have given' : Given acq (s.refilled d) t' := .of_run once (by cases acq <;> exact fresh) ran'
  obtain ⟨_,_,_,_,written,_⟩ := given.byte hole read
  obtain ⟨_,_,_,_,written',_⟩ := given'.byte hole read'
  rw [written fills,written' fills]

lemma runs_to (act : VmM Unit) (s : Vm) (test : Vm → Bool) (good : (match act s with
    | .ok _ t => test t
    | _ => false) = true) : ∃ t,act s = .ok () t ∧ test t = true := by
  cases ran : act s with
  | ok _ t => exact ⟨t,rfl,by rwa [ran] at good⟩
  | err e t => rw [ran] at good; cases good
  | fault x => rw [ran] at good; cases good

lemma run_reads (acq : Acquire) (s : Vm) (m a : Nat) (test : UInt8 → Bool) (good : (match acq.act s with
    | .ok _ t => (t.byteAt m a).any test
    | _ => false) = true) : ∃ t v,acq.act s = .ok () t ∧ t.byteAt m a = some v ∧ test v = true := by
  obtain ⟨t,ran,good⟩ := runs_to acq.act s (fun t => (t.byteAt m a).any test) good
  obtain ⟨v,read,passed⟩ := (Option.any_eq_true _ _).mp good
  exact ⟨t,v,ran,read,passed⟩

def smallSegment : Segment := ⟨0x1000064,10,20,0,true,true,false⟩

set_option maxRecDepth 100000 in
theorem fresh_bytes_fixed_segment : ∃ t,(Acquire.exec 0 true (fun i => UInt8.ofNat i) smallSegment).act machine = .ok () t ∧ t.byteAt 0 0x1000069 = some 5 ∧
    ∀ s' t' v',Alike machine s' → (Acquire.exec 0 true (fun i => UInt8.ofNat i) smallSegment).act s' = .ok () t' → t'.byteAt 0 0x1000069 = some v' → v' = 5 := by
  obtain ⟨t,v,ran,read,five⟩ := run_reads (.exec 0 true (fun i => UInt8.ofNat i) smallSegment) machine 0 0x1000069 (fun v => v == 5) (by decide +kernel)
  cases beq_iff_eq.mp five
  exact ⟨t,ran,read,(fresh_bytes_fixed (by decide) (show Acquire.Fresh machine (.exec 0 true _ smallSegment) from fun _ _ _ => rfl) rfl ran read).mpr ⟨rfl,by decide,by decide⟩⟩

def frameBytes (v : UInt8) : Nat → Buf := fun f => if f < 4 then fun _ => v else zero

def leftover (v : UInt8) : Vm := {machine with mmap:=set machine.mmap 0 [onePage],tick:=1,data:=frameBytes v}

lemma leftover_reachable (v : UInt8) : Reachable (leftover v) := by
  refine ⟨{machine with data:=frameBytes v},[(.mmap 0 onePage,.ok none)],⟨rfl,.refl _,rfl,rfl,rfl,⟨rfl,rfl,rfl,rfl⟩,rfl,machine_boot.slots,rfl,rfl⟩,.step .nil ⟨trivial,?_⟩⟩
  rfl

-- A read of a page that was never written shows what its frame held.
set_option maxRecDepth 100000 in
theorem residue_read : ∃ s s' t t',Reachable s ∧ Reachable s' ∧ Alike s s' ∧ (Acquire.touch (0,0x1000) false).act s = .ok () t ∧
    (Acquire.touch (0,0x1000) false).act s' = .ok () t' ∧ t.byteAt 0 0x1000000 = some 0 ∧ t'.byteAt 0 0x1000000 = some 7 := by
  obtain ⟨t,v,ran,read,zero⟩ := run_reads (.touch (0,0x1000) false) (leftover 0) 0 0x1000000 (fun v => v == 0) (by decide +kernel)
  obtain ⟨t',v',ran',read',seven⟩ := run_reads (.touch (0,0x1000) false) (leftover 7) 0 0x1000000 (fun v => v == 7) (by decide +kernel)
  cases beq_iff_eq.mp zero
  cases beq_iff_eq.mp seven
  refine ⟨leftover 0,leftover 7,t,t',leftover_reachable 0,leftover_reachable 7,⟨frameBytes 7,rfl,fun f busy => ?_⟩,ran,ran',read,read'⟩
  have far : ¬ f < 4 := fun near => busy (List.mem_range.mpr near)
  show frameBytes 7 f = frameBytes 0 f
  rw [frameBytes,frameBytes,if_neg far,if_neg far]

end Acquire
end Ucore.Mm

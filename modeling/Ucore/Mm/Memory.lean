import Ucore.Mm.Events

-- What processes see: the contents of a page are the latest stores to it, across
-- fork and page replacement, as long as no fault forgets a store.
namespace Ucore.Mm
open Bytes Outcomes Runs Tally Event

def Under (allow : Vm → Event → Prop) (s : Vm) (seen : Seen) (t : Vm) : Prop := allow s seen.1 ∧ Steps s seen t

section Play
variable (allow : Vm → Event → Prop) [∀ s e,Decidable (allow s e)]

def Event.run (s : Vm) (e : Event) : Option (Except Err (Option UInt8) × Vm) :=
  if allow s e ∧ e.Enabled s then
    match e.act s with
    | .ok v t => some (.ok v,t)
    | .err x t => some (.error x,t)
    | .fault _ => none
  else none

def play : List Event → List Seen → Vm → Option (List Seen × Vm)
  | [],seen,s => some (seen,s)
  | e :: rest,seen,s =>
    match e.run allow s with
    | some (r,t) => play rest (seen ++ [(e,r)]) t
    | none => none

lemma Event.run_under {e : Event} (ran : e.run allow s = some (r,t)) : Under allow s (e,r) t := by
  unfold run at ran
  split at ran
  next able =>
    cases acted : e.act s with
    | ok v u => rw [acted] at ran; cases ran; exact ⟨able.1,able.2,acted⟩
    | err x u => rw [acted] at ran; cases ran; exact ⟨able.1,able.2,acted⟩
    | fault x => rw [acted] at ran; cases ran
  next => cases ran

lemma play_path (path : Path (Under allow) s seen u) (ran : play allow events seen u = some (labels,t)) : Path (Under allow) s labels t := by
  induction events generalizing seen u with
  | nil => cases ran; exact path
  | cons e _ ih =>
    rw [play] at ran
    cases one : e.run allow u with
    | none => rw [one] at ran; cases ran
    | some _ =>
      rw [one] at ran
      exact ih (path.step (run_under allow one)) ran

lemma play_check (check : List Seen → Vm → Bool) (good : (play allow events [] s).any (fun x => check x.1 x.2) = true) :
    ∃ labels t,Path (Under allow) s labels t ∧ check labels t = true := by
  cases ran : play allow events [] s with
  | none => rw [ran] at good; cases good
  | some x =>
    rw [ran] at good
    exact ⟨x.1,x.2,play_path allow .nil ran,good⟩

end Play

def machine : Vm where
  pte := fun _ => .empty
  frames := 4
  free := [0,1,2,3]
  ref := fun _ => 0
  swap := fun _ => false
  active := fun _ => false
  dirty := fun _ => false
  index := fun _ => 0
  data := fun _ => zero
  hash := []
  activeList := []
  nrActive := 0
  inactiveList := []
  nrInactive := 0
  memMap := fun _ => swapUnused
  maxSwapOffset := 512
  disk := fun _ => zero
  next := 1
  table := fun _ _ => false
  mmap := fun _ => []
  mem := fun _ => true
  tick := 0

lemma machine_boot : Boot machine := ⟨rfl,.refl _,rfl,rfl,rfl,⟨rfl,rfl,rfl,rfl⟩,rfl,by decide,rfl,rfl⟩

def onePage : Vma := ⟨0x1000,0x1001,true,true,false,false⟩

def anyEvent (_ : Vm) (_ : Event) : Prop := True

instance (s : Vm) (e : Event) : Decidable (anyEvent s e) := by unfold anyEvent; infer_instance

abbrev Contents := Key → Nat → Option UInt8

instance (k : Key) : Decidable (Within m la n k) := by unfold Within; infer_instance
instance (k : Key) : Decidable (Inhabits m k) := by unfold Inhabits; infer_instance

def remember (mem : Contents) : Seen → Contents
  | (.store k off v,_) => fun j o => if j = k ∧ o = off then some v else mem j o
  | (.fork target source,.ok _) => fun j o => if Inhabits target j then mem (source,j.2) o else mem j o
  | (.munmap m start stop,.ok _) => fun j o => if Within m start (stop - start) j then none else mem j o
  | (.exit m,_) => fun j o => if Inhabits m j then none else mem j o
  | _ => mem

def Vm.contents (s : Vm) : Contents := fun k off => (s.view (s.pte k)).map fun page => page off

def Shows (s : Vm) (mem : Contents) : Prop := ∀ k off v,mem k off = some v → s.contents k off = some v

section Contents
variable {s t : Vm} {e : Event} {mem : Contents} {m start stop : Nat}

lemma contents_there (shown : s.contents k off = some v) : s.pte k ≠ .empty := fun none => by
  rw [Vm.contents,none] at shown
  cases shown

lemma contents_view (view : t.view (t.pte k) = s.view (s.pte j)) (off : Nat) : t.contents k off = s.contents j off := by
  rw [Vm.contents,Vm.contents,view]

lemma Did.shows (did : Did e s t) (clean : e = .launder → Clean s.toCore) (ne : ¬ e.Writes k) (shown : s.contents k off = some v) :
    t.contents k off = some v := by
  rw [contents_view (did.view clean k ne (contents_there shown)) off]
  exact shown

lemma store_contents (kept : Kept s) (step : Steps s (.store k off v,r) t) (o : Nat) :
    t.contents k o = if o = off then some v else s.contents k o := by
  obtain ⟨⟨writable,_⟩,ran⟩ := step
  cases entry : s.pte k with
  | empty => rw [entry] at writable; cases writable
  | swapped o => rw [entry] at writable; cases writable
  | present f w a d =>
    obtain rfl : w = true := by rwa [entry] at writable
    obtain ⟨u,did,_,_,view⟩ := storeByte_run kept entry off v
    have eq : u = t := by
      cases r with
      | ok x => exact (Outcome.ok.inj (did.symm.trans ran)).2
      | error x => cases did.symm.trans ran
    subst eq
    rw [Vm.contents,view,Vm.contents,entry]
    show some (set (s.data f) off v o) = if o = off then some v else some (s.data f o)
    split
    next eq => rw [eq,set_self]
    next away => rw [set_ne away]

lemma fork_contents (kept : Kept s) (step : Steps s (.fork goal source,.ok x) t) (la off : Nat) : t.contents (goal,la) off = s.contents (source,la) off := by
  obtain ⟨⟨ne,new⟩,ran⟩ := step
  have met : (silent (copyMm goal source) s).Meets (fun _ t => ∀ la,t.view (t.pte (goal,la)) = s.view (s.pte (source,la))) (fun _ _ => True) _ :=
    silent_meets ((copyMm_run kept ne new).mono (fun _ _ done => done.2.2) (fun _ _ _ => trivial) fun _ => id)
  rw [show silent (copyMm goal source) s = .ok x t from ran] at met
  exact contents_view (met la) off

lemma unmap_refused (kept : Kept s) (step : Steps s (.munmap m start stop,.error x) t) : Did .refill s t := by
  obtain ⟨_,ran⟩ := step
  have met : (silent (mmUnmap m start stop) s).Meets (fun _ _ => True) (fun _ t => Kept t ∧ Ran Still s t) _ :=
    silent_meets ((mmUnmap_run kept m start stop).mono (fun _ _ _ => trivial) (fun _ _ => id) fun _ => id)
  rw [show silent (mmUnmap m start stop) s = .err x t from ran] at met
  exact .still rfl kept met.1 met.2

lemma fresh_contents (kept : Kept s) (new : s.mmap m = []) : s.contents (m,la) off = none := by
  by_contra there
  obtain ⟨v,shown⟩ := Option.ne_none_iff_exists'.mp there
  obtain ⟨a,member,_⟩ := kept.inside _ (contents_there shown)
  rw [show s.mmap (m,la).1 = [] from new] at member
  cases member

lemma Shows.step (shows : Shows s mem) (kept : Kept s) (clean : e = .launder → Clean s.toCore) (step : Steps s (e,r) t) : Shows t (remember mem (e,r)) := by
  have did := step.did kept
  intro j o w told
  cases e with
  | store k off v =>
    simp only [remember] at told
    rcases eq_or_ne j k with rfl | away
    · rw [store_contents kept step]
      by_cases here : o = off
      · rw [if_pos here]
        rw [if_pos ⟨rfl,here⟩] at told
        exact told
      rw [if_neg here]
      rw [if_neg fun both => here both.2] at told
      exact shows j o w told
    rw [if_neg fun both => away both.1] at told
    exact did.shows clean (fun eq => away eq.symm) (shows j o w told)
  | fork goal _ =>
    cases r with
    | ok x =>
      simp only [remember] at told
      by_cases here : Inhabits goal j
      · rw [if_pos here] at told
        obtain ⟨m,la⟩ := j
        cases here
        exact (fork_contents kept step la o).trans (shows _ o w told)
      rw [if_neg here] at told
      exact did.shows clean here (shows j o w told)
    | error x =>
      have shown : s.contents j o = some w := shows j o w told
      refine did.shows clean (fun here => ?_) shown
      obtain ⟨m,_⟩ := j
      cases here
      cases (fresh_contents kept step.1.2).symm.trans shown
  | munmap m start stop =>
    cases r with
    | ok x =>
      simp only [remember] at told
      by_cases here : Within m start (stop - start) j
      · rw [if_pos here] at told
        cases told
      rw [if_neg here] at told
      exact did.shows clean here (shows j o w told)
    | error x => exact (unmap_refused kept step).shows nofun id (shows j o w told)
  | exit m =>
    simp only [remember] at told
    by_cases here : Inhabits m j
    · rw [if_pos here] at told
      cases told
    rw [if_neg here] at told
    exact did.shows clean here (shows j o w told)
  | _ => exact did.shows clean id (shows j o w told)

lemma load_contents (kept : Kept s) (step : Steps s (.load k off,.ok (some v)) t) : s.contents k off = some v := by
  obtain ⟨⟨present,_⟩,ran⟩ := step
  cases entry : s.pte k with
  | empty => rw [entry] at present; cases present
  | swapped o => rw [entry] at present; cases present
  | present f w a d =>
    obtain ⟨u,did,_⟩ := loadByte_run kept entry off
    rw [Vm.contents,entry]
    exact (Outcome.ok.inj (did.symm.trans ran)).1

lemma Path.shows (path : Path (Under allow) s labels t) (kept : Kept s) (shows : Shows s mem) (good : Vm → Prop) (base : good s)
    (keeps : ∀ s seen t,Kept s → good s → Under allow s seen t → good t)
    (clean : ∀ s,good s → allow s .launder → Clean s.toCore) : Kept t ∧ good t ∧ Shows t (labels.foldl remember mem) := by
  induction path with
  | nil => exact ⟨kept,base,shows⟩
  | @step _ _ seen _ _ step ih =>
    obtain ⟨kept',good',shows'⟩ := ih
    obtain ⟨e,r⟩ := seen
    rw [List.foldl_append]
    refine ⟨(step.2.did kept').kept,keeps _ _ _ kept' good' step,?_⟩
    exact shows'.step kept' (fun eq => clean _ good' (eq ▸ step.1)) step.2

end Contents

def Event.Replaces : Event → Prop
  | .swapOut _ _ _ _ | .launder | .refill | .steal => True
  | _ => False

instance (e : Event) : Decidable e.Replaces := by cases_type Event <;> unfold Event.Replaces <;> infer_instance

def Plain (_ : Vm) (e : Event) : Prop := ¬ e.Replaces

def Careful (s : Vm) : Event → Prop
  | .fault k _ => ¬ Lossy s.toCore k
  | _ => True

def Core.lossy (s : Core) (k : Key) : Bool :=
  match s.pte k with
  | .present f false _ true => s.swap f && !s.dirty f && decide (s.ref f + s.memMap (s.index f) ≤ 1)
  | _ => false

lemma Core.lossy_iff (s : Core) (k : Key) : s.lossy k = true ↔ Lossy s k := by
  unfold Core.lossy Lossy
  split
  next f a entry =>
    rw [entry]
    constructor
    · intro all
      simp only [Bool.and_eq_true,Bool.not_eq_true',decide_eq_true_eq] at all
      exact ⟨f,a,rfl,all.1.1,all.1.2,all.2⟩
    rintro ⟨_,_,eq,cached,clean,few⟩
    cases eq
    simp [cached,clean,few]
  next ne =>
    refine ⟨nofun,?_⟩
    rintro ⟨f,a,entry,_⟩
    exact (ne f a entry).elim

instance (s : Core) (k : Key) : Decidable (Lossy s k) := decidable_of_iff _ (s.lossy_iff k)
instance (s : Vm) (e : Event) : Decidable (Careful s e) := by cases_type Event <;> unfold Careful <;> infer_instance
instance (s : Vm) (e : Event) : Decidable (Plain s e) := by unfold Plain; infer_instance

section Transparency
variable {s t u : Vm}

lemma Under.clean (step : Under Careful s seen t) (kept : Kept s) (clean : Clean s.toCore) : Clean t.toCore := by
  obtain ⟨e,r⟩ := seen
  obtain ⟨careful,step⟩ := step
  refine (step.did kept).ran.way.clean kept.sound.law clean fun l allowed => ?_
  cases e with
  | store k _ v => rintro rfl; cases allowed
  | fault k _ =>
    rcases allowed with rfl | rfl | ⟨_,lossy⟩
    · exact nofun
    · exact nofun
    exact absurd lossy careful
  | munmap _ _ _ | fork _ _ | exit _ | swapOut _ _ _ _ => rcases allowed with rfl | ⟨k,_,rfl⟩ <;> exact nofun
  | launder => rcases allowed with rfl | rfl <;> exact nofun
  | _ => cases allowed; exact nofun

lemma Boot.clean (boot : Boot s) : Clean s.toCore := fun f cached => by
  rw [boot.swap] at cached
  cases cached

lemma machine_loads (allow : Vm → Event → Prop) [∀ s e,Decidable (allow s e)] (events : List Event) (k : Key) (off : Nat) (mem : Contents)
    (test : UInt8 → Bool) (w : UInt8) (good : (play allow events [] machine).any (fun x => ((load k off).run anyEvent x.2).any (fun y => match y.1 with
      | .ok (some v) => test v
      | _ => false) && x.1.foldl remember mem k off == some w) = true) :
    ∃ labels t u v,Path (Under allow) machine labels t ∧ Steps t (.load k off,.ok (some v)) u ∧ labels.foldl remember mem k off = some w ∧ test v = true := by
  obtain ⟨labels,t,path,checked⟩ := play_check allow (fun labels t => ((load k off).run anyEvent t).any (fun y => match y.1 with
      | .ok (some v) => test v
      | _ => false) && labels.foldl remember mem k off == some w) good
  obtain ⟨loaded,stored⟩ := Bool.and_eq_true_iff.mp checked
  obtain ⟨⟨r,u⟩,ran,tested⟩ := (Option.any_eq_true _ _).mp loaded
  cases r with
  | error x => cases tested
  | ok v =>
    cases v with
    | none => cases tested
    | some v => exact ⟨labels,t,u,v,path,(run_under anyEvent ran).2,beq_iff_eq.mp stored,tested⟩

lemma careful_shows (path : Path (Under Careful) s labels t) (kept : Kept s) (clean : Clean s.toCore) (shows : Shows s mem) :
    Kept t ∧ Clean t.toCore ∧ Shows t (labels.foldl remember mem) :=
  Path.shows path kept shows (fun s => Clean s.toCore) clean (fun _ _ _ kept clean step => step.clean kept clean) fun _ clean _ => clean

-- In a run without careless faults a load returns the latest store.
theorem load_latest_store (boot : Boot s) (path : Path (Under Careful) s labels t) (step : Steps t (.load k off,.ok (some v)) u)
    (stored : labels.foldl remember (fun _ _ => none) k off = some w) : v = w := by
  obtain ⟨kept,_,shows⟩ := careful_shows path boot.kept boot.clean (show Shows s (fun _ _ => none) from nofun)
  exact Option.some.inj ((load_contents kept step).symm.trans (shows k off w stored))

set_option maxRecDepth 100000 in
theorem load_latest_store_swapped : ∃ labels t u v,Path (Under Careful) machine labels t ∧ Steps t (.load (0,0x1000) 5,.ok (some v)) u ∧ v = 7 := by
  obtain ⟨labels,t,u,v,path,step,stored,_⟩ := machine_loads Careful
    [.mmap 0 onePage,.fault (0,0x1000) true,.store (0,0x1000) 5 7,.swapOut 0 onePage 0x1000 1,.swapOut 0 onePage 0x1000 1,.refill,.launder,
      .fault (0,0x1000) false] (0,0x1000) 5 (fun _ _ => none) (fun _ => true) 7 (by decide +kernel)
  exact ⟨labels,t,u,v,path,step,load_latest_store machine_boot path step stored⟩

-- The page is laundered and read back, stored to, shared with a child that ends,
-- and a write fault gives the writer its page back with a clean entry.
set_option maxRecDepth 100000 in
theorem forgotten_store : ∃ s labels t u,Boot s ∧ Path Steps s labels t ∧ Steps t (.load (0,0x1000) 0,.ok (some 1)) u ∧
    labels.foldl remember (fun _ _ => none) (0,0x1000) 0 = some 2 := by
  obtain ⟨labels,t,u,v,path,step,stored,one⟩ := machine_loads anyEvent
    [.mmap 0 onePage,.fault (0,0x1000) true,.store (0,0x1000) 0 1,.swapOut 0 onePage 0x1000 1,.swapOut 0 onePage 0x1000 1,.refill,.launder,
      .fault (0,0x1000) false,.fault (0,0x1000) true,.store (0,0x1000) 0 2,.fork 1 0,.exit 1,.fault (0,0x1000) true,.swapOut 0 onePage 0x1000 1,
      .refill,.launder,.fault (0,0x1000) false] (0,0x1000) 0 (fun _ _ => none) (fun v => v == 1) 2 (by decide +kernel)
  cases beq_iff_eq.mp one
  exact ⟨machine,labels,t,u,machine_boot,path.mono fun _ _ _ step => step.2,step,stored⟩

lemma replaced_same {labels : List Seen} (only : ∀ seen ∈ labels,seen.1.Replaces) : labels.foldl remember mem = mem := by
  induction labels with
  | nil => rfl
  | cons seen _ ih =>
    have replaces := only seen List.mem_cons_self
    have eq : remember mem seen = mem := by
      obtain ⟨e,r⟩ := seen
      cases e <;> first | rfl | exact replaces.elim
    rw [List.foldl_cons,eq,ih fun x mem => only x (List.mem_cons_of_mem _ mem)]

-- Page replacement changes no byte of any process.
theorem replacement_unseen (boot : Boot s) (careful : Path (Under Careful) s earlier t) (path : Path (Under Careful) t labels u)
    (only : ∀ seen ∈ labels,seen.1.Replaces) (held : t.contents k off = some v) : u.contents k off = some v := by
  obtain ⟨kept,clean,_⟩ := careful_shows careful boot.kept boot.clean (show Shows s (fun _ _ => none) from fun _ _ _ no => by cases no)
  obtain ⟨_,_,shows⟩ := careful_shows path kept clean (show Shows t t.contents from fun _ _ _ => id)
  exact shows k off v (by rwa [replaced_same only])

set_option maxRecDepth 100000 in
theorem replacement_unseen_stored : ∃ earlier t labels u,Path (Under Careful) machine earlier t ∧ Path (Under Careful) t labels u ∧
    (u.pte (0,0x1000)).isPresent = false ∧ u.free.length = 4 ∧ u.contents (0,0x1000) 5 = some 7 := by
  have ran : (play Careful [.mmap 0 onePage,.fault (0,0x1000) true,.store (0,0x1000) 5 7] [] machine).any (fun x => x.2.contents (0,0x1000) 5 == some 7 &&
      (play Careful [.swapOut 0 onePage 0x1000 1,.swapOut 0 onePage 0x1000 1,.refill,.launder] [] x.2).any fun y =>
        !(y.2.pte (0,0x1000)).isPresent && y.2.free.length == 4 && y.1.all fun seen => seen.1.Replaces) = true := by decide +kernel
  obtain ⟨⟨earlier,t⟩,one,rest⟩ := (Option.any_eq_true _ _).mp ran
  obtain ⟨stored,rest⟩ := Bool.and_eq_true_iff.mp rest
  obtain ⟨⟨labels,u⟩,two,rest⟩ := (Option.any_eq_true _ _).mp rest
  obtain ⟨gone,only⟩ := Bool.and_eq_true_iff.mp rest
  obtain ⟨out,all⟩ := Bool.and_eq_true_iff.mp gone
  have careful := play_path Careful .nil one
  have path := play_path Careful .nil two
  exact ⟨_,t,_,u,careful,path,by simpa using out,beq_iff_eq.mp all,replacement_unseen machine_boot careful path (by simpa using only) (beq_iff_eq.mp stored)⟩

-- From any state on, without page replacement, every process has its own copy.
theorem fork_isolation (reachable : Reachable s) (path : Path (Under Plain) s labels t) (step : Steps t (.load k off,.ok (some v)) u)
    (stored : labels.foldl remember s.contents k off = some w) : v = w := by
  obtain ⟨kept,_,shows⟩ := Path.shows path reachable.kept (show Shows s s.contents from fun _ _ _ => id) (fun _ => True) trivial (fun _ _ _ _ _ _ => trivial)
    fun _ _ plain => absurd trivial plain
  exact Option.some.inj ((load_contents kept step).symm.trans (shows k off w stored))

set_option maxRecDepth 100000 in
theorem fork_isolation_machine : ∃ labels t u v,Path (Under Plain) machine labels t ∧ Steps t (.load (1,0x1000) 0,.ok (some v)) u ∧ v = 1 := by
  obtain ⟨labels,t,u,v,path,step,stored,_⟩ := machine_loads Plain
    [.mmap 0 onePage,.fault (0,0x1000) true,.store (0,0x1000) 0 1,.fork 1 0,.fault (0,0x1000) true,.store (0,0x1000) 0 2]
    (1,0x1000) 0 machine.contents (fun _ => true) 1 (by decide +kernel)
  exact ⟨labels,t,u,v,path,step,fork_isolation ⟨machine,[],machine_boot,.nil⟩ path step stored⟩

end Transparency
end Ucore.Mm

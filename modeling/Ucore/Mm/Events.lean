import Ucore.Lib.Runs
import Ucore.Mm.Spaces

-- Runs of the memory system: what processes and the page replacement do, call by
-- call. What a call may change is said once for each kind of event; the laws of
-- the page counts follow for every state that a run reaches.
namespace Ucore.Mm
open Bytes Outcomes Runs Tally

-- fault is an access that the entry does not allow, swapIn and steal the calls of
-- swap_in_page and try_alloc_swap_entry from elsewhere; reorder is the order in
-- which the page allocator hands out its frames.
inductive Event where
  | load (k : Key) (off : Nat)
  | store (k : Key) (off : Nat) (v : UInt8)
  | fault (k : Key) (write : Bool)
  | mmap (m : Nat) (vma : Vma)
  | munmap (m start stop : Nat)
  | fork (target source : Nat)
  | exit (m : Nat)
  | swapOut (m : Nat) (vma : Vma) (addr require : Nat)
  | launder
  | refill
  | swapIn (offset : Nat)
  | steal
  | reorder (free : List Nat)

def loadByte (k : Key) (off : Nat) : VmM (Option UInt8) := do
  match (← state).pte k with
  | .present page w _ d => do
    setPte k (.present page w true d)
    pure (some ((← state).data page off))
  | _ => pure none

def storeByte (k : Key) (off : Nat) (v : UInt8) : VmM (Option UInt8) := do
  match (← state).pte k with
  | .present page true _ _ => do
    modify fun s => {s with data:=set s.data page (set (s.data page) off v),pte:=set s.pte k (.present page true true true)}
    pure (some v)
  | _ => pure none

def silent (act : VmM α) : VmM (Option UInt8) := do
  let _ ← act
  pure none

def Event.act : Event → VmM (Option UInt8)
  | .load k off => loadByte k off
  | .store k off v => storeByte k off v
  | .fault k write => do silent (doPgfault k ((← state).pte k).isPresent write)
  | .mmap m vma => silent (mmMap m vma)
  | .munmap m start stop => silent (mmUnmap m start stop)
  | .fork target source => silent (copyMm target source)
  | .exit m => silent (exitMm m)
  | .swapOut m vma addr require => silent (swapOutVma m vma addr require)
  | .launder => silent pageLaunder
  | .refill => silent refillInactiveScan
  | .swapIn o => silent (swapInPage o)
  | .steal => silent tryAllocSwapEntry
  | .reorder rest => silent (modify fun s => {s with free:=rest})

instance (e : Pte) (write : Bool) : Decidable (e.Raises write) := by unfold Pte.Raises; infer_instance

def Event.Enabled (s : Vm) : Event → Prop
  | .load k off => (s.pte k).isPresent = true ∧ off < 4096
  | .store k off _ => (s.pte k).isWritable = true ∧ off < 4096
  | .fault k write => (s.pte k).Raises write
  | .fork target source => target ≠ source ∧ s.mmap target = []
  | .swapIn o => s.memMap o ≠ swapUnused
  | .reorder rest => rest.Perm s.free
  | _ => True

instance (s : Vm) (e : Event) : Decidable (e.Enabled s) := by cases e <;> unfold Event.Enabled <;> infer_instance

-- An event with the value or the error code that its caller gets.
abbrev Seen := Event × Except Err (Option UInt8)

def Steps (s : Vm) (seen : Seen) (t : Vm) : Prop :=
  seen.1.Enabled s ∧ (match seen.2 with
    | .ok v => seen.1.act s = .ok v t
    | .error e => seen.1.act s = .err e t)

-- After pmm_init and swap_init: nothing is mapped, the slots are unused.
structure Boot (s : Vm) : Prop where
  pte : s.pte = fun _ => .empty
  free : s.free.Perm (List.range s.frames)
  ref : s.ref = fun _ => 0
  swap : s.swap = fun _ => false
  hash : s.hash = []
  lists : s.activeList = [] ∧ s.nrActive = 0 ∧ s.inactiveList = [] ∧ s.nrInactive = 0
  memMap : s.memMap = fun _ => swapUnused
  slots : 512 ≤ s.maxSwapOffset ∧ s.maxSwapOffset < 2^24
  next : s.next = 1
  mmap : s.mmap = fun _ => []

def Reachable (s : Vm) : Prop := Reached Boot Steps s

section Kinds
variable {s t : Vm} {e : Event}

def Event.Labels (s : Core) : Event → Label → Prop
  | .store k _ _ => fun l => l = .store k
  | .fault k _ => Faulting s k
  | .munmap m start stop => Touching (Within m start (stop - start))
  | .fork target _ => Touching (Inhabits target)
  | .exit m => Touching (Inhabits m)
  | .swapOut _ _ _ _ => Touching fun _ => True
  | .launder => Cleaning
  | _ => Still

lemma Beside.kept (near : Beside s t) (kept : Kept s) (way : Way allow (.none,s.toCore) (.none,t.toCore)) : Kept t where
  sound := kept.sound.ran (near.ran way)
  inside k entry := by
    rw [near.pte] at entry
    exact (kept.inside k entry).mono fun a mem => by rwa [near.mmap]
  ordered m := by
    rw [near.mmap]
    exact kept.ordered m

lemma Kept.of_same (kept : Kept s) (ran : Ran allow s t) (mmap : t.mmap = s.mmap) (eq : ∀ k,t.pte k ≠ .empty → s.pte k ≠ .empty ∨ s.Covers k) :
    Kept t where
  sound := kept.sound.ran ran
  inside k entry := ((eq k entry).elim (kept.inside k) id).mono fun a mem => by rwa [mmap]
  ordered m := by
    rw [mmap]
    exact kept.ordered m

lemma Faulted.stays (faulted : Faulted k s t) (kept : Kept s) : Kept t :=
  kept.of_same faulted.ran faulted.mmap fun j entry => by
    rcases eq_or_ne j k with rfl | away
    · exact faulted.covered entry
    rw [faulted.same j away] at entry
    exact .inl entry

lemma loadByte_run (kept : Kept s) (entry : s.pte k = .present f w a d) (off : Nat) :
    ∃ t,loadByte k off s = .ok (some (s.data f off)) t ∧ Kept t ∧ Ran Still s t := by
  have wrote : Wrote k (.present f w true d) s {s with pte:=set s.pte k (.present f w true d)} := ⟨rfl,rfl,rfl,id⟩
  have ran := wrote.ran (Way.still (.rebit entry (fun on off => absurd (on.symm.trans off) (by decide)) .inl)) fun _ => kept.sound.tabled k (by rw [entry]; exact nofun)
  refine ⟨_,by simp only [loadByte,rules,entry,setPte_run],kept.of_same ran rfl fun j there => ?_,ran⟩
  rcases eq_or_ne j k with rfl | away
  · exact .inl (by rw [entry]; exact nofun)
  have there : set s.pte k (.present f w true d) j ≠ .empty := there
  rw [set_ne away] at there
  exact .inl there

lemma storeByte_run (kept : Kept s) (entry : s.pte k = .present f true a d) (off : Nat) (v : UInt8) :
    ∃ t,storeByte k off v s = .ok (some v) t ∧ Kept t ∧ Ran (fun l => l = .store k) s t ∧ t.view (t.pte k) = some (set (s.data f) off v) := by
  let t : Vm := {s with data:=set s.data f (set (s.data f) off v),pte:=set s.pte k (.present f true true true)}
  have wrote : Wrote k (.present f true true true) s t := ⟨rfl,rfl,rfl,id⟩
  have ran := wrote.ran (Way.one (.store entry) rfl : Way (fun l => l = .store k) _ _) fun _ => kept.sound.tabled k (by rw [entry]; exact nofun)
  refine ⟨t,by simp only [storeByte,rules,entry]; rfl,kept.of_same ran rfl fun j there => ?_,ran,?_⟩
  · rcases eq_or_ne j k with rfl | away
    · exact .inl (by rw [entry]; exact nofun)
    have there : set s.pte k (.present f true true true) j ≠ .empty := there
    rw [set_ne away] at there
    exact .inl there
  show t.view (set s.pte k _ k) = _
  rw [set_self]
  show some (set s.data f _ f) = _
  rw [set_self]

def Event.Writes : Event → Key → Prop
  | .store j _ _,k => j = k
  | .munmap m start stop,k => Within m start (stop - start) k
  | .fork target _,k => Inhabits target k
  | .exit m,k => Inhabits m k
  | _,_ => False

structure Did (e : Event) (s t : Vm) : Prop where
  kept : Kept t
  ran : Ran (e.Labels s.toCore) s t
  view : (e = .launder → Clean s.toCore) → ∀ k,¬ e.Writes k → s.pte k ≠ .empty → t.view (t.pte k) = s.view (s.pte k)

lemma Did.still (labels : e.Labels s.toCore = Still) (pre : Kept s) (kept : Kept t) (ran : Ran Still s t) : Did e s t where
  kept := kept
  ran := by rw [labels]; exact ran
  view _ k _ _ := ran.way.view pre.sound.law pre.sound.excl (.inl (by rintro l rfl; exact nofun)) k (by rintro l rfl; exact id)

lemma Did.touching (labels : e.Labels s.toCore = Touching e.Writes) (pre : Kept s) (kept : Kept t) (ran : Ran (Touching e.Writes) s t) : Did e s t where
  kept := kept
  ran := by rw [labels]; exact ran
  view _ k ne _ := ran.view pre.sound ne

lemma silent_meets {good bad : Vm → Prop} (met : (act s).Meets (fun _ t => good t) (fun _ t => bad t) broken) :
    (silent act s).Meets (fun _ t => good t) (fun _ t => bad t) broken := by
  simp only [silent,rules]
  exact met.next (fun _ _ => id) (fun _ _ => id) fun _ => id

lemma Still.beside (near : Beside s t) (kept : Kept s) (way : Way Still (.none,s.toCore) (.none,t.toCore)) (labels : e.Labels s.toCore = Still) :
    Did e s t := .still labels kept (near.kept kept way) (near.ran way)

lemma Fault.Excused.areas (x : Fault) (area : x.ofAreas) : x.Excused := fun swap => by rcases area with rfl | rfl <;> cases swap

lemma Faulted.did (faulted : Faulted k s t) (kept : Kept s) (write : Bool) : Did (.fault k write) s t := by
  refine ⟨faulted.stays kept,faulted.ran,fun _ j _ there => ?_⟩
  rcases eq_or_ne j k with rfl | away
  · exact faulted.view there
  refine faulted.ran.way.view kept.sound.law kept.sound.excl (.inl ?_) j ?_
  · rintro l (rfl | rfl | ⟨rfl,_⟩) <;> exact nofun
  rintro l (rfl | rfl | ⟨rfl,_⟩)
  · exact id
  · exact fun eq => away eq.symm
  exact id

lemma Event.act_run (kept : Kept s) (may : e.Enabled s) : (e.act s).Meets (fun _ t => Did e s t) (fun _ t => Did e s t) Fault.Excused := by
  cases e with
  | load k off =>
    cases entry : s.pte k with
    | present f w a d =>
      obtain ⟨t,ran,kept',moved⟩ := loadByte_run kept entry off
      rw [Event.act,ran]
      exact Did.still rfl kept kept' moved
    | empty => exact absurd may.1 (by rw [entry]; exact nofun)
    | swapped o => exact absurd may.1 (by rw [entry]; exact nofun)
  | store k off v =>
    cases entry : s.pte k with
    | present f w a d =>
      obtain rfl : w = true := by
        have writable := may.1
        rwa [entry] at writable
      obtain ⟨t,ran,kept',moved,_⟩ := storeByte_run kept entry off v
      rw [Event.act,ran]
      refine ⟨kept',moved,fun _ j ne _ => moved.way.view kept.sound.law kept.sound.excl (.inl ?_) j ?_⟩
      · rintro l rfl
        exact nofun
      rintro l rfl
      exact ne
    | empty => exact absurd may.1 (by rw [entry]; exact nofun)
    | swapped o => exact absurd may.1 (by rw [entry]; exact nofun)
  | fault k write =>
    simp only [Event.act,rules]
    have did : ∀ t,Faulted k s t → Did (.fault k write) s t := fun t faulted => faulted.did kept write
    exact silent_meets ((doPgfault_run kept.sound may).mono (fun _ => did) (fun _ => did) nofun)
  | mmap m vma =>
    have did : ∀ t,Kept t ∧ Ran Still s t → Did (.mmap m vma) s t := fun t ⟨kept',ran⟩ => .still rfl kept kept' ran
    exact silent_meets ((mmMap_run kept m vma).mono (fun _ => did) (fun _ => did) fun x eq => .areas x (.inl eq))
  | munmap m start stop =>
    refine silent_meets ((mmUnmap_run kept m start stop).mono (fun _ t ⟨kept',ran⟩ => .touching rfl kept kept' ran)
      (fun _ t ⟨kept',ran⟩ => .touching rfl kept kept' (ran.mono Still.touching)) .areas)
  | fork _ _ =>
    exact silent_meets ((copyMm_run kept may.1 may.2).mono (fun _ t ⟨kept',ran,_⟩ => .touching rfl kept kept' ran)
      (fun _ t ⟨kept',ran⟩ => .touching rfl kept kept' ran) fun _ => id)
  | exit m =>
    obtain ⟨t,ran,kept',moved,_⟩ := exitMm_run kept m
    refine silent_meets ?_
    rw [ran]
    exact .touching rfl kept kept' moved
  | swapOut m vma addr require =>
    exact silent_meets ((swapOutVma_run kept.sound m vma addr require).mono (fun _ t ⟨ran,areas,eq,view⟩ =>
      ⟨kept.of_same ran areas fun k entry => .inl fun empty => entry ((eq k).mpr empty),ran,fun _ k _ _ => view k⟩) nofun fun _ => id)
  | launder =>
    exact silent_meets ((pageLaunder_run kept.sound.law).mono (fun _ t ⟨near,way⟩ => ⟨near.kept kept way,near.ran way,fun clean k _ _ =>
      way.view kept.sound.law kept.sound.excl (.inr ⟨clean rfl,by rintro l (rfl | rfl) <;> exact nofun⟩) k (by rintro l (rfl | rfl) <;> exact id)⟩) nofun fun _ => id)
  | refill =>
    obtain ⟨t,ran,near,way⟩ := refillInactiveScan_run kept.sound.law
    refine silent_meets ?_
    rw [ran]
    exact Still.beside near kept way rfl
  | swapIn o =>
    have did : ∀ t,Beside s t → Way Still (.none,s.toCore) (.none,t.toCore.over s.pte) → Did (.swapIn o) s t := fun t near way => by
      rw [← near.pte] at way
      exact Still.beside near kept way rfl
    exact silent_meets ((swapInPage_run (p:=s.pte) kept.sound.law may).mono (fun _ t ⟨near,_,_,_,_,way⟩ => did t near way)
      (fun _ t ⟨near,_,_,way⟩ => did t near way) nofun)
  | steal =>
    obtain ⟨o,t,ran,near,_,_,_,_,way⟩ := tryAllocSwapEntry_run (p:=s.pte) kept.sound.law no_idle kept.sound.cursor
    refine silent_meets ?_
    rw [ran]
    have way : Way Still (.none,s.toCore) (.none,t.toCore.over s.pte) := way
    rw [← near.pte] at way
    exact Still.beside near kept way rfl
  | reorder rest =>
    have near : Beside s {s with free:=rest} := .of rfl rfl rfl rfl rfl
    exact Still.beside near kept (.still (.reorder may)) rfl

lemma Steps.did (step : Steps s (e,r) t) (kept : Kept s) : Did e s t := by
  obtain ⟨may,ran⟩ := step
  have met := Event.act_run kept may
  cases r with
  | ok v =>
    rw [show e.act s = .ok v t from ran] at met
    exact met
  | error x =>
    rw [show e.act s = .err x t from ran] at met
    exact met

lemma Boot.kept (boot : Boot s) : Kept s := by
  have maps : ∀ f,s.toCore.mapped f = 0 := fun f => tally_zero fun k => by
    rw [boot.pte]
    exact id
  have holds : ∀ o,s.toCore.held o = 0 := fun o => tally_zero fun k => by
    rw [boot.pte]
    exact id
  obtain ⟨active,nrActive,inactive,nrInactive⟩ := boot.lists
  have none : ∀ k,¬ s.pte k ≠ .empty := fun k entry => entry (by rw [boot.pte])
  refine ⟨⟨⟨⟨?_,fun f => ?_⟩,⟨fun o => .inl ?_,fun o used => ?_⟩,⟨fun o zero => ?_,?_,?_,?_,fun f => ?_⟩,⟨?_,fun f => ?_,?_,?_,fun f => ?_,?_⟩,⟨?_,fun f mem => ?_,fun f inside gone => ?_⟩⟩,
    fun k f a d writes => ?_,?_,fun k entry => absurd entry (none k)⟩,fun k entry => absurd entry (none k),fun m => ?_⟩
  · exact Set.finite_empty.subset fun k entry => none k entry
  · rw [boot.ref,maps]
    rfl
  · rw [boot.memMap,holds]
    exact ⟨rfl,rfl⟩
  · rw [boot.memMap] at used
    exact absurd rfl used
  · rw [boot.memMap] at zero
    cases zero
  · rw [boot.hash]
    exact nofun
  · rw [boot.hash]
    exact nofun
  · rw [boot.hash]
    exact .nil
  · rw [boot.hash,boot.swap]
    exact ⟨nofun,nofun⟩
  · rw [active]
    exact .nil
  · rw [active,boot.swap]
    exact ⟨nofun,nofun⟩
  · rw [active,nrActive]
    rfl
  · rw [inactive]
    exact .nil
  · rw [inactive,boot.swap]
    exact ⟨nofun,nofun⟩
  · rw [inactive,nrInactive]
    rfl
  · exact boot.free.nodup_iff.mpr List.nodup_range
  · rw [boot.ref,boot.swap]
    exact ⟨rfl,rfl,id⟩
  · exact absurd (boot.free.mem_iff.mpr (List.mem_range.mpr inside)) gone
  · rw [boot.pte] at writes
    cases writes
  · have slots := boot.slots
    exact ⟨by rw [boot.next]; decide,by rw [boot.next]; omega⟩
  rw [boot.mmap]
  exact ⟨.nil,nofun⟩

lemma Reachable.kept (reachable : Reachable s) : Kept s :=
  Reached.invariant (fun _ boot => boot.kept) (fun _ _ _ kept step => (step.did kept).kept) reachable

end Kinds
end Ucore.Mm

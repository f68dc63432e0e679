import Ucore.Lib.Runs
import Ucore.Sync.Wait

-- add_timer, del_timer and run_timer_list of sched.c over any timers. The
-- wait_state of the processes is not theirs: each call of run_timer_list finds
-- its own.
namespace Ucore.Sched
open Sync List
open Prod (snd)

-- A call of wakeup_proc: the run_timer_list call it falls in, the timer, its
-- process, and the add_timer call that linked it.
structure Wake where
  tick : Nat
  timer : Nat
  proc : Nat
  stamp : Nat
  deriving DecidableEq

-- list holds expires and timer. ticks and added count calls; due, stamp and
-- log only record.
structure Timers where
  list : List (Nat × Nat)
  proc : Nat → Nat
  ticks : Nat
  added : Nat
  due : Nat → Nat
  stamp : Nat → Nat
  log : List Wake

inductive Op where
  | addTimer (timer proc expires : Nat)
  | delTimer (timer : Nat)
  | runTimerList (waitState : Nat → Nat)

def Timers.linked (s : Timers) : List Nat := s.list.map snd
def Timers.wake (s : Timers) (timer : Nat) : Wake := ⟨s.ticks,timer,s.proc timer,s.stamp timer⟩

def Timers.fire (s : Timers) (waitState : Nat → Nat) : List (Nat × Nat) → Except Fault Timers
  | (0,t) :: rest =>
    if waitState (s.proc t) = 0 ∨ interruptible (waitState (s.proc t)) = true then
      {s with log:=s.log ++ [s.wake t]}.fire (put waitState (s.proc t) 0) rest
    else .error .timerState
  | rest => .ok {s with list:=rest}

def Timers.exec (s : Timers) : Op → Except Fault Timers
  | .addTimer timer proc expires =>
    if 0 < expires ∧ timer ∉ s.linked then
      .ok {s with
        list:=insertTimer expires timer s.list
        proc:=put s.proc timer proc
        added:=s.added + 1
        due:=put s.due timer (s.ticks + expires)
        stamp:=put s.stamp timer s.added}
    else .error .timerAdd
  | .delTimer timer => .ok {s with list:=removeTimer timer s.list}
  | .runTimerList waitState =>
    match s.list with
    | [] => .ok {s with ticks:=s.ticks + 1}
    | (expires,t) :: rest =>
      if expires = 0 then .error .timerExpires
      else {s with ticks:=s.ticks + 1}.fire waitState ((expires - 1,t) :: rest)

def Timers.Step (s : Timers) (op : Op) (t : Timers) : Prop := s.exec op = .ok t
def Fresh (s : Timers) : Prop := s.list = [] ∧ s.log = []
def Op.names (timer : Nat) : Op → Bool
  | .addTimer t _ _ => t = timer
  | .delTimer t => t = timer
  | .runTimerList _ => false
def Op.isRun : Op → Bool
  | .runTimerList _ => true
  | _ => false

def Sums (due : Nat → Nat) : Nat → List (Nat × Nat) → Prop
  | _,[] => True
  | base,(expires,t) :: rest => due t = base + expires ∧ Sums due (base + expires) rest

section
variable (sums : Sums due base list)
include sums

lemma Sums.congr (eq : ∀ t ∈ list.map snd,late t = due t) : Sums late base list := by
  induction list generalizing base with
  | nil => trivial
  | cons _ _ ih => exact ⟨(eq _ mem_cons_self).trans sums.1,ih sums.2 fun t mem => eq t (mem_cons_of_mem _ mem)⟩

lemma Sums.le : ∀ t ∈ list.map snd,base ≤ due t := by
  induction list generalizing base with
  | nil => simp
  | cons _ _ ih =>
    intro t mem
    rcases mem_cons.mp mem with rfl | mem
    · exact sums.1 ▸ Nat.le_add_right _ _
    exact le_trans (Nat.le_add_right _ _) (ih sums.2 t mem)

lemma Sums.insert (here : due t = base + expires) : Sums due base (insertTimer expires t list) := by
  induction list generalizing base expires with
  | nil => exact ⟨here,trivial⟩
  | cons head _ ih =>
    obtain ⟨next,u⟩ := head
    unfold insertTimer
    split
    · have back : base + expires + (next - expires) = base + next := by omega
      exact ⟨here,by rw [back]; exact sums.1,by rw [back]; exact sums.2⟩
    exact ⟨sums.1,ih sums.2 (by omega)⟩

lemma Sums.remove (t : Nat) : Sums due base (removeTimer t list) := by
  induction list generalizing base with
  | nil => trivial
  | cons head rest ih =>
    obtain ⟨expires,u⟩ := head
    unfold removeTimer
    split
    · cases rest with
      | nil => trivial
      | cons next _ =>
        have shift : base + (next.1 + expires) = base + expires + next.1 := by omega
        exact ⟨by rw [shift]; exact sums.2.1,by rw [shift]; exact sums.2.2⟩
    exact ⟨sums.1,ih sums.2⟩

end

def Before (due stamp : Nat → Nat) (t u : Nat) : Prop := due t < due u ∨ due t = due u ∧ stamp t < stamp u

lemma insert_before (order : (list.map snd).Pairwise (Before due stamp)) (sums : Sums due base list)
    (here : due t = base + expires) (newest : ∀ u ∈ list.map snd,stamp u < stamp t) :
    ((insertTimer expires t list).map snd).Pairwise (Before due stamp) := by
  induction list generalizing base expires with
  | nil => exact pairwise_singleton _ _
  | cons head rest ih =>
    obtain ⟨next,u⟩ := head
    have parts := pairwise_cons.mp order
    unfold insertTimer
    split
    · next _ =>
      refine pairwise_cons.mpr ⟨fun v mem => .inl ?_,order⟩
      change due t < due v
      rcases mem_cons.mp mem with rfl | mem
      · have := sums.1
        omega
      have := sums.2.le v mem
      omega
    next _ =>
    refine pairwise_cons.mpr ⟨fun v mem => ?_,ih parts.2 sums.2 (by omega) fun v mem => newest v (mem_cons_of_mem _ mem)⟩
    rcases mem_cons.mp ((insertTimer_procs _ t rest).mem_iff.mp mem) with rfl | mem
    · have := sums.1
      have := newest u mem_cons_self
      change due u < due v ∨ due u = due v ∧ stamp u < stamp v
      omega
    exact parts.1 v mem

structure Law (s : Timers) : Prop where
  armed : Armed s.list
  sums : Sums s.due s.ticks s.list
  order : s.linked.Pairwise (Before s.due s.stamp)
  stamps : ∀ t ∈ s.linked,s.stamp t < s.added
  past : ∀ e ∈ s.log,e.tick ≤ s.ticks
  told : s.log.Pairwise fun e f => e.tick < f.tick ∨ e.tick = f.tick ∧ e.stamp < f.stamp

-- The loop of run_timer_list wakes the timers due at this tick, in list order.
lemma fire_spec {s u : Timers} {waitState : Nat → Nat} (sums : Sums s.due s.ticks list) (once : (list.map snd).Nodup)
    (ran : s.fire waitState list = .ok u) :
    ∃ fired rest,list.map snd = fired ++ rest.map snd ∧ u = {s with list:=rest,log:=s.log ++ fired.map s.wake} ∧
      (∀ t ∈ fired,s.due t = s.ticks) ∧ (∀ t ∈ rest.map snd,s.ticks < s.due t) ∧ Sums s.due s.ticks rest ∧ Armed rest := by
  induction list generalizing s waitState with
  | nil =>
    cases ran
    exact ⟨[],[],rfl,by simp,by simp,by simp,trivial,by simp,by simp⟩
  | cons head _ ih =>
    obtain ⟨expires,t⟩ := head
    cases expires with
    | zero =>
      simp only [Timers.fire] at ran
      split at ran
      · obtain ⟨fired,left,split,eq,now,later,sums',armed⟩ := ih (s := {s with log:=s.log ++ [s.wake t]}) sums.2 (nodup_cons.mp once).2 ran
        refine ⟨t :: fired,left,by simp [split],by rw [eq]; simp [Timers.wake],?_,later,sums',armed⟩
        intro v mem
        rcases mem_cons.mp mem with rfl | mem
        · exact sums.1
        exact now v mem
      cases ran
    | succ n =>
      cases ran
      refine ⟨[],_,rfl,by simp,by simp,fun v mem => ?_,sums,by simp,once⟩
      rcases mem_cons.mp mem with rfl | mem
      · have := sums.1
        omega
      have := sums.2.le v mem
      omega

lemma Law.run (law : Law s) (ran : s.exec (.runTimerList waitState) = .ok u) : ∃ fired rest,s.linked = fired ++ rest.map snd ∧
      u = {s with list:=rest,ticks:=s.ticks + 1,log:=s.log ++ fired.map {s with ticks:=s.ticks + 1}.wake} ∧
      (∀ t ∈ fired,s.due t = s.ticks + 1) ∧ (∀ t ∈ rest.map snd,s.ticks + 1 < s.due t) ∧ Sums s.due (s.ticks + 1) rest ∧ Armed rest := by
  have armed := law.armed
  have sums := law.sums
  unfold Timers.linked
  simp only [Timers.exec] at ran
  split at ran
  · next list =>
    cases ran
    rw [list]
    exact ⟨[],[],rfl,by simp,by simp,by simp,trivial,by simp,by simp⟩
  next expires t rest list =>
  rw [list] at armed sums ⊢
  have left : expires ≠ 0 := armed.ahead _ rfl
  rw [if_neg left] at ran
  have shift : s.ticks + 1 + (expires - 1) = s.ticks + expires := by omega
  have sums' : Sums s.due (s.ticks + 1) ((expires - 1,t) :: rest) := ⟨by rw [shift]; exact sums.1,by rw [shift]; exact sums.2⟩
  have once : (((expires - 1,t) :: rest).map snd).Nodup := armed.once
  obtain ⟨fired,left,split,spec⟩ := fire_spec sums' once ran
  exact ⟨fired,left,split,spec⟩

lemma Law.step (law : Law s) (next : s.Step op u) : Law u := by
  cases op with
  | addTimer timer _ expires =>
    change s.exec _ = .ok u at next
    simp only [Timers.exec] at next
    split at next
    · next allowed =>
      cases next
      have ne : ∀ t ∈ s.linked,t ≠ timer := fun t mem eq => allowed.2 (eq ▸ mem)
      have sums : Sums (put s.due timer (s.ticks + expires)) s.ticks s.list :=
        law.sums.congr fun t mem => put_other (ne t mem)
      have order : s.linked.Pairwise (Before (put s.due timer (s.ticks + expires)) (put s.stamp timer s.added)) := by
        apply law.order.imp_of_mem
        intro t v one two pre
        unfold Before
        rw [put_other (ne t one),put_other (ne v two),put_other (ne t one),put_other (ne v two)]
        exact pre
      refine ⟨law.armed.insert (by omega) allowed.2,sums.insert (put_same ..),
        insert_before order sums (put_same ..) (fun t mem => ?_),fun t mem => ?_,law.past,law.told⟩
      · change put s.stamp timer s.added t < put s.stamp timer s.added timer
        rw [put_same,put_other (ne t mem)]
        exact law.stamps t mem
      change put s.stamp timer s.added t < s.added + 1
      rcases mem_cons.mp ((insertTimer_procs expires timer s.list).mem_iff.mp mem) with rfl | mem
      · rw [put_same]
        omega
      rw [put_other (ne t mem)]
      exact Nat.lt_succ_of_lt (law.stamps t mem)
    cases next
  | delTimer timer =>
    cases next
    have fewer : (removeTimer timer s.list).map snd = s.linked.erase timer := removeTimer_procs timer s.list
    refine ⟨law.armed.remove timer,law.sums.remove timer,?_,fun t mem => law.stamps t ?_,law.past,law.told⟩
    · change List.Pairwise _ (map _ _)
      rw [fewer]
      exact law.order.sublist erase_sublist
    change t ∈ map _ _ at mem
    rw [fewer] at mem
    exact mem_of_mem_erase mem
  | runTimerList _ =>
    obtain ⟨_,_,split,rfl,now,_,sums,armed⟩ := law.run next
    have order := law.order
    rw [split] at order
    have parts := pairwise_append.mp order
    refine ⟨armed,sums,parts.2.1,fun t mem => law.stamps t ?_,fun e mem => ?_,pairwise_append.mpr ⟨law.told,?_,?_⟩⟩
    · rw [split]
      exact mem_append_right _ mem
    · change e ∈ s.log ++ _ at mem
      rcases mem_append.mp mem with old | new
      · exact Nat.le_succ_of_le (law.past e old)
      obtain ⟨t,_,rfl⟩ := mem_map.mp new
      exact le_refl _
    · rw [pairwise_map]
      apply parts.1.imp_of_mem
      intro t v one two pre
      refine .inr ⟨rfl,?_⟩
      have := now t one
      have := now v two
      unfold Before at pre
      change s.stamp t < s.stamp v
      omega
    intro e old f new
    obtain ⟨t,_,rfl⟩ := mem_map.mp new
    exact .inl (Nat.lt_succ_of_le (law.past e old))

lemma reached_law (reached : Runs.Reached Fresh Timers.Step s) : Law s := by
  refine reached.invariant (fun t new => ?_) (fun _ _ _ law next => law.step next)
  obtain ⟨list,log⟩ := new
  exact ⟨by rw [list]; exact ⟨by simp,by simp⟩,by rw [list]; trivial,by simp [Timers.linked,list],by simp [Timers.linked,list],by simp [log],by simp [log]⟩

-- One timer through a run that does not name it: linked until its tick, then
-- woken once.
structure Follows (wake : Wake) (old : List Wake) (u : Timers) : Prop where
  due : u.due wake.timer = wake.tick
  stamp : u.stamp wake.timer = wake.stamp
  proc : u.proc wake.timer = wake.proc
  linked : wake.timer ∈ u.linked ↔ u.ticks < wake.tick
  log : u.log.filter (·.timer = wake.timer) = old ++ if wake.tick ≤ u.ticks then [wake] else []

lemma filter_wake {fired : List Nat} (s : Timers) (timer : Nat) (once : fired.Nodup) :
    (fired.map s.wake).filter (·.timer = timer) = if timer ∈ fired then [s.wake timer] else [] := by
  induction fired with
  | nil => rfl
  | cons t _ ih =>
    have parts := nodup_cons.mp once
    rw [map_cons,filter_cons,ih parts.2]
    by_cases eq : t = timer
    · subst t
      simp [Timers.wake,parts.1]
    have ne : timer ≠ t := fun equal => eq equal.symm
    simp [Timers.wake,eq,ne]

lemma Follows.step (follows : Follows wake old s) (law : Law s) (next : s.Step op u) (ne : op.names wake.timer = false) : Follows wake old u := by
  cases op with
  | addTimer t p expires =>
    change s.exec _ = .ok u at next
    simp only [Timers.exec] at next
    split at next
    · cases next
      have different : wake.timer ≠ t := fun eq => (of_decide_eq_false ne) eq.symm
      refine ⟨(put_other different).trans follows.due,(put_other different).trans follows.stamp,(put_other different).trans follows.proc,?_,follows.log⟩
      rw [← follows.linked]
      unfold Timers.linked
      rw [(insertTimer_procs expires t s.list).mem_iff,mem_cons]
      exact or_iff_right different
    cases next
  | delTimer t =>
    cases next
    have different : wake.timer ≠ t := fun eq => (of_decide_eq_false ne) eq.symm
    refine {follows with linked:=?_}
    rw [← follows.linked]
    unfold Timers.linked
    rw [removeTimer_procs]
    exact mem_erase_of_ne different
  | runTimerList _ =>
    obtain ⟨fired,rest,split,rfl,now,later,_,_⟩ := law.run next
    have once := law.armed.once
    change s.linked.Nodup at once
    rw [split] at once
    have hit : wake.timer ∈ fired ↔ wake.tick = s.ticks + 1 := by
      rw [← follows.due]
      constructor
      · exact now _
      intro tick
      have mem := follows.linked.mpr (by rw [← follows.due]; omega)
      rw [split] at mem
      rcases mem_append.mp mem with here | there
      · exact here
      have := later _ there
      omega
    refine ⟨follows.due,follows.stamp,follows.proc,?_,?_⟩
    · change wake.timer ∈ rest.map snd ↔ s.ticks + 1 < wake.tick
      constructor
      · intro mem
        have := later _ mem
        rwa [follows.due] at this
      intro _
      have mem := follows.linked.mpr (by omega)
      rw [split] at mem
      exact (mem_append.mp mem).resolve_left (fun here => by have := hit.mp here; omega)
    change filter _ (s.log ++ _) = old ++ if wake.tick ≤ s.ticks + 1 then _ else _
    rw [filter_append,follows.log,filter_wake _ _ (nodup_append.mp once).1,append_assoc]
    congr 1
    by_cases tick : wake.tick = s.ticks + 1
    · have record : {s with ticks:=s.ticks + 1}.wake wake.timer = wake := by
        unfold Timers.wake
        rw [follows.stamp,follows.proc,← tick]
      simp [hit,tick,record]
    have eq : wake.tick ≤ s.ticks + 1 ↔ wake.tick ≤ s.ticks := by omega
    simp [hit,tick,eq]

lemma step_ticks (law : Law s) (next : s.Step op u) : u.ticks = s.ticks + [op].countP Op.isRun := by
  cases op with
  | addTimer t p _ =>
    change s.exec _ = .ok u at next
    simp only [Timers.exec] at next
    split at next <;> cases next
    rfl
  | delTimer t => cases next; rfl
  | runTimerList _ =>
    obtain ⟨_,_,_,rfl,_⟩ := law.run next
    rfl

lemma Follows.path (path : Runs.Path Timers.Step s labels u) (law : Law s) (follows : Follows wake old s)
    (quiet : ∀ op ∈ labels,op.names wake.timer = false) :
    Follows wake old u ∧ Law u ∧ u.ticks = s.ticks + labels.countP Op.isRun := by
  induction path with
  | nil => exact ⟨follows,law,rfl⟩
  | @step _ t op u _ next ih =>
    obtain ⟨pre,kept,ticks⟩ := ih (fun op mem => quiet op (mem_append_left _ mem))
    refine ⟨pre.step kept next (quiet op (by simp)),kept.step next,?_⟩
    rw [step_ticks kept next,ticks,countP_append,add_assoc]

-- In every state any calls lead to: the assert on the first timer holds, the
-- wakeups so far came in order of tick and, within a tick, of add_timer; and a
-- timer added now with expires is woken once, in the expires-th call of
-- run_timer_list from here, whatever is done to the others meanwhile.
theorem timers_exact (s : Timers) (reached : Runs.Reached Fresh Timers.Step s) :
    (∀ first ∈ s.list.head?,first.1 ≠ 0) ∧
    s.log.Pairwise (fun e f => e.tick < f.tick ∨ e.tick = f.tick ∧ e.stamp < f.stamp) ∧
    ∀ timer proc expires t,s.exec (.addTimer timer proc expires) = .ok t →
      ∀ labels u,Runs.Path Timers.Step t labels u → (∀ op ∈ labels,op.names timer = false) →
        u.ticks = s.ticks + labels.countP Op.isRun ∧ (timer ∈ u.linked ↔ labels.countP Op.isRun < expires) ∧
        u.log.filter (·.timer = timer) = s.log.filter (·.timer = timer) ++
          if expires ≤ labels.countP Op.isRun then [⟨s.ticks + expires,timer,proc,s.added⟩] else [] := by
  have law := reached_law reached
  refine ⟨law.armed.ahead,law.told,?_⟩
  intro timer proc expires t added labels u path quiet
  have start := law.step added
  have follows : Follows ⟨s.ticks + expires,timer,proc,s.added⟩ (s.log.filter (·.timer = timer)) t := by
    simp only [Timers.exec] at added
    split at added
    · next allowed =>
      cases added
      have member := (insertTimer_procs expires timer s.list).mem_iff.mpr mem_cons_self
      have ahead : s.ticks < s.ticks + expires := Nat.lt_add_of_pos_right allowed.1
      exact ⟨put_same ..,put_same ..,put_same ..,⟨fun _ => ahead,fun _ => member⟩,
        by rw [if_neg (Nat.not_le_of_lt ahead),append_nil]⟩
    · cases added
  obtain ⟨after,_,ticks⟩ := follows.path path start quiet
  rw [step_ticks law added] at ticks
  change u.ticks = s.ticks + _ at ticks
  have log := after.log
  rw [ticks] at log
  simp only [Nat.add_le_add_iff_left] at log
  refine ⟨ticks,after.linked.trans ?_,log⟩
  rw [ticks]
  exact Nat.add_lt_add_iff_left

-- Two timers due together and one deleted before them.
theorem timers_exact_ties : ∃ s,Runs.Reached Fresh Timers.Step s ∧ s.log = [⟨2,7,70,0⟩,⟨2,8,80,1⟩] ∧
    s.log.Pairwise (fun e f => e.tick < f.tick ∨ e.tick = f.tick ∧ e.stamp < f.stamp) := by
  let first : Timers := ⟨[],fun _ => 0,0,0,fun _ => 0,fun _ => 0,[]⟩
  have run : ∃ labels s,Runs.Path Timers.Step first labels s ∧ s.log = [⟨2,7,70,0⟩,⟨2,8,80,1⟩] :=
    ⟨_,_,.step (a := Op.runTimerList fun _ => 0) (.step (a := Op.runTimerList fun _ => 0) (.step (a := Op.delTimer 9)
      (.step (a := Op.addTimer 9 90 1) (.step (a := Op.addTimer 8 80 2) (.step (a := Op.addTimer 7 70 2) .nil rfl) rfl) rfl) rfl) rfl) rfl,rfl⟩
  obtain ⟨labels,s,path,log⟩ := run
  have reached : Runs.Reached Fresh Timers.Step s := ⟨first,_,⟨rfl,rfl⟩,path⟩
  exact ⟨s,reached,log,(timers_exact s reached).2.1⟩

end Ucore.Sched

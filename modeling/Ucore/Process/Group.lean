import Ucore.Process.Forest

-- do_exit of a thread group. The loop that marks the other threads and the rest of
-- do_exit are two steps here, since __do_exit may sleep before it is done; in between
-- the thread makes no other system call.
namespace Ucore.Proc
open Runs Links Ucore.Sync

-- leaving: the thread has run the loop. ended: it is, or was linked to, a thread of a
-- group for which the loop has run; the code does not have it.
structure Groups where
  table : Table
  leaving : Nat → Bool
  ended : Nat → Bool

inductive Deed where
  | mark (t : Nat) (code : Int)
  | other (e : Event)
  deriving DecidableEq

def Event.allowed (leaving : Nat → Bool) : Event → Bool
  | .alloc t _ | .link t _ _ _ | .fail t _ | .wait t _ | .exec t | .exit t .killed => !leaving t
  | .exit _ (.group _) => false
  | .exit _ (.thread _) | .kill _ _ => true

def Groups.Enabled (s : Groups) : Deed → Prop
  | .mark t _ => s.table.Acts t ∧ s.table.initproc < t ∧ s.table.mode t = .run ∧ s.leaving t = false
  | .other e => s.table.Enabled e ∧ e.allowed s.leaving = true

instance (s : Groups) : (deed : Deed) → Decidable (s.Enabled deed)
  | .mark _ _ => inferInstanceAs (Decidable (_ ∧ _))
  | .other _ => inferInstanceAs (Decidable (_ ∧ _))

def Groups.endedBy (s : Groups) : Event → Nat → Bool
  | .alloc _ c => put s.ended c false
  | .link t c thread _ => put s.ended c (thread && s.ended t)
  | .exec t => if s.table.nextThread t = t then s.ended else put s.ended t false
  | _ => s.ended

def Groups.act (s : Groups) : Deed → Groups
  | .mark t code => ⟨(s.table.threads t).tail.foldl (fun s p => s.doKill code p) s.table,put s.leaving t true,fun x => s.ended x || x ∈ s.table.threads t⟩
  | .other e => ⟨s.table.step e,match e with | .alloc _ c => put s.leaving c false | _ => s.leaving,s.endedBy e⟩

def Groups.Move (s : Groups) (deed : Deed) (u : Groups) : Prop := s.Enabled deed ∧ u = s.act deed
def Groups.first (lcpuCount : Nat) : Groups := ⟨.first lcpuCount,fun _ => false,fun _ => false⟩

def Groups.late (s : Groups) : Deed → Bool
  | .other (.link t _ true _) => s.table.procs.exiting t
  | _ => false

lemma put_was {f : Nat → α} (now : put f k v x = w) (differ : v ≠ w) : x ≠ k ∧ f x = w := by
  unfold put at now
  split at now
  · exact absurd now differ
  next ne => exact ⟨ne,now⟩

section Frames
variable {s u : Table} {t c : Nat}

lemma wakeupWaiter_exiting (p : Procs) (t : Nat) : (wakeupWaiter p t).exiting = p.exiting := by
  unfold wakeupWaiter
  split
  · exact Procs.wakeupProc_exiting p t
  rfl

lemma wakeupWaiters_exiting (list : List Nat) (p : Procs) : (list.foldl wakeupWaiter p).exiting = p.exiting := by
  induction list generalizing p with
  | nil => rfl
  | cons t _ ih => exact (ih _).trans (wakeupWaiter_exiting p t)

lemma doKill_exiting (s : Table) (code : Int) (p x : Nat) : (s.doKill code p).procs.exiting x = (s.procs.exiting x || x = p) := by
  unfold Table.doKill
  split
  · next already =>
    by_cases eq : x = p
    · simp [eq,already]
    simp [eq]
  next new =>
  have set : (s.procs.doKill p).exiting = put s.procs.exiting p true := by
    unfold Procs.doKill
    rw [if_neg new]
    dsimp only
    split
    · exact Procs.wakeupProc_exiting ..
    rfl
  change (s.procs.doKill p).exiting x = _
  rw [set]
  by_cases eq : x = p
  · simp [eq]
  simp [eq,put_other eq]

lemma doKills_exiting (code : Int) (list : List Nat) (s : Table) (x : Nat) :
    (list.foldl (fun s p => s.doKill code p) s).procs.exiting x = (s.procs.exiting x || x ∈ list) := by
  induction list generalizing s with
  | nil => simp
  | cons p _ ih =>
    rw [List.foldl_cons,ih,doKill_exiting]
    by_cases eq : x = p
    · simp [eq]
    simp [eq]

lemma adopt_frame (t heir fuel : Nat) (s : Table) :
    (Table.adopt t heir fuel s).nextThread = s.nextThread ∧ (Table.adopt t heir fuel s).procs.exiting = s.procs.exiting := by
  induction fuel generalizing s with
  | zero => exact ⟨rfl,rfl⟩
  | succ _ ih =>
    unfold Table.adopt
    split
    · exact ⟨rfl,rfl⟩
    next child _ =>
    obtain ⟨next,exiting⟩ := ih (s.adoptOne t heir child)
    refine ⟨next,exiting.trans ?_⟩
    change (if s.status child = .zombie then wakeupWaiter s.procs heir else s.procs).exiting = _
    split
    · exact wakeupWaiter_exiting ..
    rfl

lemma doExit_frame (s : Table) (t : Nat) : (s.doExit t).nextThread = (s.deThread t).nextThread ∧ (s.doExit t).procs.exiting = s.procs.exiting := by
  let woken := {s with
    status:=put s.status t .zombie
    procs:=((s.parent t).elim [] s.threads).foldl wakeupWaiter s.procs}
  obtain ⟨next,exiting⟩ := adopt_frame t (s.heir t) s.nrProcess (woken.deThread t)
  refine ⟨next.trans ?_,exiting.trans ?_⟩
  · unfold Table.deThread
    change (if s.nextThread t = t then woken else _).nextThread = _
    split <;> rfl
  obtain ⟨_,_,eq⟩ := deThread_rest woken t
  rw [eq]
  exact wakeupWaiters_exiting _ _

end Frames

structure Dooms (s : Groups) : Prop where
  law : Law s.table
  ring : ∀ x,s.ended (s.table.nextThread x) = s.ended x
  marked : ∀ x,s.table.status x = .live → s.ended x = true → s.table.procs.exiting x = true ∨ s.leaving x = true

section Rings
variable {s u : Groups} {t c : Nat}

lemma Dooms.together (dooms : Dooms s) (together : Together s.table.nextThread x y) : s.ended y = s.ended x := by
  obtain ⟨steps,rfl⟩ := together
  induction steps with
  | zero => rfl
  | succ _ ih => rw [Function.iterate_succ_apply',dooms.ring,ih]

lemma Dooms.deThread_ring (dooms : Dooms s) (t x : Nat) : s.ended ((s.table.deThread t).nextThread x) = s.ended x := by
  rw [deThread_next dooms.law.wheel]
  split
  · next eq => rw [eq]
  split
  · next last =>
    have around := dooms.ring (s.table.prevThread t)
    rw [dooms.law.wheel.forth] at around
    rw [dooms.ring,last,around]
  exact dooms.ring x

lemma ring_put {next prev : Nat → Nat} {ended : Nat → Bool} (wheel : Wheel next prev) (ring : ∀ x,ended (next x) = ended x) (alone : next c = c) (v : Bool) (x : Nat) :
    put ended c v (next x) = put ended c v x := by
  by_cases eq : x = c
  · rw [eq,alone]
  have ne : next x ≠ c := fun equal => eq (wheel.next_inj (equal.trans alone.symm))
  rw [put_other eq,put_other ne,ring]

lemma Law.threads_next {s : Table} (law : Law s) (live : s.status t = .live) (x : Nat) : s.nextThread x ∈ s.threads t ↔ x ∈ s.threads t := by
  constructor
  · intro mem
    obtain ⟨set,inside,shut,_⟩ := law.roster
    obtain ⟨period,_,_,around⟩ := law.wheel.returns set shut (inside t live)
    obtain ⟨steps,lands⟩ := threads_together mem
    -- at least one step leads there, and the one before it is x
    have walk : s.nextThread^[steps + period] t = s.nextThread x := by rw [Function.iterate_add_apply,around,lands]
    obtain ⟨pre,eq⟩ : ∃ pre,steps + period = pre + 1 := ⟨steps + period - 1,by omega⟩
    rw [eq,Function.iterate_succ_apply'] at walk
    exact law.threads live ⟨pre,law.wheel.next_inj walk⟩
  intro mem
  obtain ⟨steps,lands⟩ := threads_together mem
  exact law.threads live ⟨steps + 1,by rw [Function.iterate_succ_apply',lands]⟩

lemma threads_tail {s : Table} (mem : x ∈ s.threads t) : x = t ∨ x ∈ (s.threads t).tail := by
  unfold Table.threads at *
  cases count : s.nrProcess with
  | zero => simp [count,Links.round] at mem
  | succ n => simpa [count,Links.round] using mem

lemma Dooms.mark (dooms : Dooms s) (live : s.table.status t = .live) (code : Int) : Dooms (s.act (.mark t code)) := by
  obtain ⟨procs,codes,eq⟩ := doKills_rest s.table code (s.table.threads t).tail
  have exiting := doKills_exiting code (s.table.threads t).tail s.table
  simp only [Groups.act]
  rw [eq] at exiting ⊢
  refine ⟨dooms.law.quiet (fun _ _ forks => forks) codes procs,fun x => ?_,fun x alive flag => ?_⟩
  · change (s.ended (s.table.nextThread x) || decide (s.table.nextThread x ∈ s.table.threads t)) = (s.ended x || decide (x ∈ s.table.threads t))
    rw [dooms.ring,decide_eq_decide.mpr (dooms.law.threads_next live x)]
  change procs.exiting x = true ∨ put s.leaving t true x = true
  by_cases self : x = t
  · rw [self,put_same]
    exact .inr rfl
  rw [put_other self,exiting x]
  rcases Bool.or_eq_true_iff.mp flag with pre | now
  · exact (dooms.marked x alive pre).imp (fun set => by rw [set]; rfl) id
  have behind := (threads_tail (of_decide_eq_true now)).resolve_left self
  exact .inl (by rw [decide_eq_true behind,Bool.or_true])

lemma Dooms.link (dooms : Dooms s) (may : s.Enabled (.other (.link t c thread pid))) (calm : s.late (.other (.link t c thread pid)) = false) :
    Dooms (s.act (.other (.link t c thread pid))) := by
  obtain ⟨⟨⟨live,_⟩,forks⟩,stays⟩ := may
  obtain ⟨_,new,parent⟩ := dooms.law.forking t c forks
  obtain ⟨_,_,_,status,procs,next⟩ := linkProc_frame parent thread pid
  have alone := dooms.law.alone c (by simp [new])
  have apart : t ≠ c := ne_of_apply_ne s.table.status (by simp [live,new])
  -- a thread of an ended group does not get here
  have quiet : (thread && s.ended t) = false := by
    cases thread with
    | false => rfl
    | true =>
      rw [Bool.true_and,← Bool.not_eq_true]
      intro flag
      have bare : s.table.procs.exiting t = false := calm
      have stayed : s.leaving t = false := by simpa [Event.allowed] using stays
      rcases dooms.marked t live flag with set | set
      · rw [bare] at set
        cases set
      rw [stayed] at set
      cases set
  refine ⟨dooms.law.link forks thread pid,fun x => ?_,fun x alive flag => ?_⟩
  · change put s.ended c (thread && s.ended t) ((s.table.linkProc t c thread pid).nextThread x) = put s.ended c (thread && s.ended t) x
    rw [next,quiet]
    cases thread with
    | false => exact ring_put dooms.law.wheel dooms.ring alone false x
    | true =>
      have off : s.ended t = false := quiet
      change put s.ended c false (if x = c then t else if x = s.table.prevThread t then c else s.table.nextThread x) = _
      split
      · next eq => rw [eq,put_same,put_other apart,off]
      next ne =>
      split
      · next last =>
        have around := dooms.ring (s.table.prevThread t)
        rw [dooms.law.wheel.forth,off] at around
        rw [put_same,put_other ne,last,← around]
      exact ring_put dooms.law.wheel dooms.ring alone false x
  change put s.ended c (thread && s.ended t) x = true at flag
  change (s.table.linkProc t c thread pid).status x = .live at alive
  change (s.table.linkProc t c thread pid).procs.exiting x = true ∨ _
  rw [status] at alive
  rw [procs]
  rw [quiet] at flag
  obtain ⟨ne,was⟩ := put_was flag (by decide)
  exact dooms.marked x ((put_other ne).symm.trans alive) was

lemma Dooms.exit (dooms : Dooms s) (live : s.table.status t = .live) (high : s.table.initproc < t) (how : Exit) (lone : ∀ code,how ≠ .group code) :
    (∀ x,s.ended ((s.table.exits t how).nextThread x) = s.ended x) ∧ (s.table.exits t how).procs.exiting = s.table.procs.exiting ∧
    (s.table.exits t how).status = put s.table.status t .zombie := by
  have frame : (s.table.exits t how).nextThread = (s.table.deThread t).nextThread ∧ (s.table.exits t how).procs.exiting = s.table.procs.exiting := by
    cases how with
    | thread code =>
      obtain ⟨next,exiting⟩ := doExit_frame {s.table with exitCode:=put s.table.exitCode t code} t
      refine ⟨next.trans ?_,exiting⟩
      unfold Table.deThread
      dsimp only
      split <;> rfl
    | killed => exact doExit_frame s.table t
    | group code => exact (lone code rfl).elim
  obtain ⟨_,_,_,_,_,_,_,_,form⟩ := (dooms.law.exits live high how).rest
  exact ⟨fun x => by rw [frame.1]; exact dooms.deThread_ring t x,frame.2,congrArg Table.status form⟩

lemma Dooms.step (dooms : Dooms s) (move : s.Move deed u) (calm : s.late deed = false) : Dooms u := by
  obtain ⟨may,rfl⟩ := move
  cases deed with
  | mark t code => exact dooms.mark may.1.1 code
  | other e =>
    have law : Law (s.table.step e) := dooms.law.step ⟨may.1,rfl⟩
    have keep : ∀ x,s.table.status x = .live → s.ended x = true → s.table.procs.exiting x = true ∨ s.leaving x = true := dooms.marked
    cases e with
    | alloc t c =>
      have alone : s.table.nextThread c = c := dooms.law.alone c (by rw [may.1.2.2.2]; decide)
      refine ⟨law,fun x => ?_,fun x alive flag => ?_⟩
      · have eq : put s.table.nextThread c c = s.table.nextThread := by
          funext y
          unfold put
          split
          · next here => rw [here,alone]
          rfl
        change put s.ended c false (put s.table.nextThread c c x) = put s.ended c false x
        rw [eq]
        exact ring_put dooms.law.wheel dooms.ring alone false x
      obtain ⟨other,was⟩ := put_was alive (by decide)
      change put s.table.procs.exiting c false x = true ∨ put s.leaving c false x = true
      rw [put_other other,put_other other]
      exact keep x was (put_was flag (by decide)).2
    | link t c _ pid => exact dooms.link may calm
    | fail t c => exact ⟨law,dooms.ring,fun x alive flag => keep x (put_was alive (by decide)).2 flag⟩
    | exit t how =>
      obtain ⟨⟨⟨live,_⟩,high,_⟩,allowed⟩ := may
      obtain ⟨ring,exiting,status⟩ := dooms.exit live high how (by rintro code rfl; cases allowed)
      refine ⟨law,ring,fun x alive flag => ?_⟩
      change (s.table.exits t how).status x = .live at alive
      change (s.table.exits t how).procs.exiting x = true ∨ _
      rw [exiting]
      rw [status] at alive
      exact keep x (put_was alive (by decide)).2 flag
    | wait t pid =>
      have frame : (s.table.doWait t pid).nextThread = s.table.nextThread ∧ (s.table.doWait t pid).procs.exiting = s.table.procs.exiting ∧
          ∀ x,(s.table.doWait t pid).status x = .live → s.table.status x = .live := by
        unfold Table.doWait
        cases s.table.search t pid with
        | found z => exact ⟨rfl,rfl,fun x alive => (put_was alive (by decide)).2⟩
        | busy => exact ⟨rfl,rfl,fun _ alive => alive⟩
        | childless => exact ⟨rfl,rfl,fun _ alive => alive⟩
      refine ⟨law,fun x => ?_,fun x alive flag => ?_⟩
      · change s.ended ((s.table.doWait t pid).nextThread x) = s.ended x
        rw [frame.1]
        exact dooms.ring x
      change (s.table.doWait t pid).procs.exiting x = true ∨ _
      rw [frame.2.1]
      exact keep x (frame.2.2 x alive) flag
    | kill pid code =>
      change Dooms ⟨(s.table.findProc pid).elim s.table (s.table.doKill code),s.leaving,s.ended⟩
      change Law ((s.table.findProc pid).elim s.table (s.table.doKill code)) at law
      cases found : s.table.findProc pid with
      | none => exact dooms
      | some p =>
        rw [found] at law
        have exiting := doKill_exiting s.table code p
        obtain ⟨_,_,eq⟩ := doKill_rest s.table code p
        change Dooms ⟨s.table.doKill code p,s.leaving,s.ended⟩
        rw [eq] at exiting ⊢
        refine ⟨eq ▸ law,dooms.ring,fun x alive flag => (keep x alive flag).imp_left fun set => ?_⟩
        rw [exiting x,set]
        rfl
    | exec t =>
      obtain ⟨_,_,eq⟩ := deThread_rest s.table t
      have ring := dooms.deThread_ring t
      have alone : (s.table.deThread t).nextThread t = t := by rw [deThread_next dooms.law.wheel,if_pos rfl]
      refine ⟨law,fun x => ?_,fun x alive flag => ?_⟩
      · change (if s.table.nextThread t = t then s.ended else put s.ended t false) ((s.table.deThread t).nextThread x) =
          (if s.table.nextThread t = t then s.ended else put s.ended t false) x
        split
        · exact ring x
        exact ring_put (dooms.law.deThread_wheel t) ring alone false x
      change (s.table.deThread t).status x = .live at alive
      change (s.table.deThread t).procs.exiting x = true ∨ _
      rw [eq] at alive ⊢
      change (if s.table.nextThread t = t then s.ended else put s.ended t false) x = true at flag
      split at flag
      · exact keep x alive flag
      exact keep x alive (put_was flag (by decide)).2

end Rings

-- As long as no thread already marked completes a do_fork with CLONE_THREAD, every
-- thread in the group of one whose do_exit has run its loop is marked or is leaving.
theorem group_exit_marks (lcpuCount : Nat) (cpus : 0 < lcpuCount) (s : Groups) (deeds : List Deed)
    (path : Path (fun s deed u => Groups.Move s deed u ∧ s.late deed = false) (.first lcpuCount) deeds s) :
    (∀ x y,Together s.table.nextThread x y → s.ended x = true → s.table.status y = .live → s.table.procs.exiting y = true ∨ s.leaving y = true) ∧
    ∀ t code,s.Enabled (.mark t code) → ∀ y,Together s.table.nextThread t y → (s.act (.mark t code)).ended y = true := by
  have first : Dooms (.first lcpuCount) := ⟨Law.first cpus,fun _ => rfl,fun _ _ flag => by cases flag⟩
  have dooms : Dooms s := path.invariant (fun _ _ _ dooms next => dooms.step next.1 next.2) first
  refine ⟨fun x y together flag live => dooms.marked y live ((dooms.together together).trans flag),fun t code enabled y together => ?_⟩
  have member := dooms.law.threads enabled.1.1 together
  change (s.ended y || decide (y ∈ s.table.threads t)) = true
  rw [decide_eq_true member,Bool.or_true]

def exiting : List Deed := [.other (.alloc 1 2),.other (.link 1 2 false 2),.other (.alloc 2 3),.other (.link 2 3 true 3),.mark 2 0]

theorem group_exit_marks_pair : ∃ s : Groups,s.ended 3 = true ∧ s.table.procs.exiting 3 = true ∧
    ∀ y,Together s.table.nextThread 3 y → s.table.status y = .live → s.table.procs.exiting y = true ∨ s.leaving y = true := by
  obtain ⟨s,ran,ended,marked⟩ : ∃ s,exec (fun (s : Groups) deed => s.Enabled deed ∧ s.late deed = false) Groups.act (.first 1) exiting = some s ∧
      s.ended 3 = true ∧ s.table.procs.exiting 3 = true := by
    refine ⟨_,rfl,?_⟩
    decide +kernel
  have path := (exec_path ran).mono fun s deed u next => (⟨⟨next.1.1,next.2⟩,next.1.2⟩ : Groups.Move s deed u ∧ s.late deed = false)
  exact ⟨s,ended,marked,fun y together => (group_exit_marks 1 (by decide) s exiting path).1 3 y together ended⟩

-- Thread 3 is inside do_fork when 2 marks it, and links thread 4 afterwards.
theorem group_exit_misses : ∃ s,exec Groups.Enabled Groups.act (.first 1)
      [.other (.alloc 1 2),.other (.link 1 2 false 2),.other (.alloc 2 3),.other (.link 2 3 true 3),.other (.alloc 3 4),.mark 2 0,.other (.link 3 4 true 4)] = some s ∧
    s.table.nextThread 4 = 3 ∧ s.ended 3 = true ∧ s.table.procs.exiting 3 = true ∧ s.table.status 4 = .live ∧ s.table.procs.exiting 4 = false ∧ s.leaving 4 = false := by
  refine ⟨_,rfl,?_⟩
  decide +kernel

end Ucore.Proc

import Ucore.Sync.Event

-- Every send that returns 0 meets one receive, in the order the senders came.
namespace Ucore.Sync.Events
open Runs
open List (mem_cons mem_cons_of_mem mem_cons_self mem_map nodup_cons)
open Prod (fst)

def World.sends (s : World) (r t : Nat) : Prop := ∃ n,s.stage t = .sending r n

def World.called (s : World) (n : Nat) : Prop := n ∈ s.met.map Meeting.call

-- line: the senders of a box and who is in its queue; ordered, ahead and order: they
-- stand in the queue, and have met, by their numbers.
structure Law (s : World) : Prop where
  line : ∀ r,Lines.Law (s.queue r) (s.sends r) (fun t => s.procs.wakeupFlags t = wtEventSend) (fun t => s.procs.asleep t = true) 0
  flags : ∀ t r n,s.stage t = .sending r n → s.procs.wakeupFlags t = wtInterrupted ∨ s.procs.wakeupFlags t = wtEventSend
  quiet : ∀ r,s.stage r = .receiving → s.procs.asleep r = true → s.queue r = [] ∧ s.procs.waitState r = wtEventRecv
  call : ∀ t r n,s.stage t = .sending r n → ⟨t,r,s.event t,n⟩ ∈ s.calls
  numbered : ∀ c ∈ s.calls,c.number < s.serial
  distinct : (s.calls.map Call.number).Nodup
  known : ∀ m ∈ s.met,∃ c ∈ s.calls,c.number = m.call ∧ c.target = m.receiver ∧ m.pid = s.pid c.sender ∧ m.event = c.value
  once : (s.met.map Meeting.call).Nodup
  told : ∀ t r n,s.stage t = .sending r n → (s.procs.wakeupFlags t = wtEventSend ↔ s.called n)
  returned : ∀ p ∈ s.returned,p.1 < s.serial ∧ (p.2 = 0 ↔ s.called p.1) ∧ ∀ t r,s.stage t ≠ .sending r p.1
  back : ∀ c ∈ s.calls,c.number ∈ s.returned.map fst ∨ ∃ r,s.stage c.sender = .sending r c.number
  backOnce : (s.returned.map fst).Nodup
  ordered : ∀ r,(s.queue r).Pairwise fun a b => (s.stage a).number < (s.stage b).number
  ahead : ∀ r,∀ t ∈ s.queue r,∀ m ∈ s.met,m.receiver = r → m.call < (s.stage t).number
  order : s.met.Pairwise fun late early => late.receiver = early.receiver → early.call < late.call

section Steps
variable {s u : World}

namespace Law
variable (law : Law s)
include law

lemma calm {procs : Procs} {status : Nat → Status} {timeout saved : Nat → Nat} {ret : Nat → Int}
    (flags : procs.wakeupFlags = s.procs.wakeupFlags) (woken : ∀ x,Woken s.procs procs x) :
    Law {s with procs:=procs,status:=status,timeout:=timeout,saved:=saved,ret:=ret} := by
  refine {law with line:=fun r => ?_,flags:=flags ▸ law.flags,quiet:=fun r role sleeps => ?_,told:=flags ▸ law.told}
  · exact (law.line r).frame (fun t => .rfl) (fun t _ => by rw [flags]) fun t _ sleeps => (woken t).slept sleeps
  rcases woken r with ⟨same,state⟩ | ⟨_,awake,_⟩
  · exact state ▸ law.quiet r role (same ▸ sleeps)
  rw [awake] at sleeps
  cases sleeps

lemma called_lt (called : s.called n) : n < s.serial := by
  obtain ⟨m,member,rfl⟩ := mem_map.mp called
  obtain ⟨c,low,number,_⟩ := law.known m member
  rw [← number]
  exact law.numbered c low

lemma sending_lt (stage : s.stage t = .sending r n) : n < s.serial := law.numbered _ (law.call t r n stage)

lemma member (low : t ∈ s.queue r) : ∃ n,s.stage t = .sending r n ∧ s.procs.wakeupFlags t ≠ wtEventSend :=
  have parts := (law.line r).member t low
  parts.1.imp fun _ stage => ⟨stage,parts.2⟩

lemma refused (ret : Nat → Int) : Law {s with ret:=ret,serial:=s.serial + 1,returned:=(s.serial,eInval) :: s.returned} := by
  refine {law with numbered:=fun c low => Nat.lt_succ_of_lt (law.numbered c low),returned:=fun p member => ?_,back:=fun c low => ?_,backOnce:=nodup_cons.mpr ⟨fun old => ?_,law.backOnce⟩}
  · rcases mem_cons.mp member with rfl | old
    · refine ⟨Nat.lt_succ_self _,iff_of_false (by simp [eInval]) fun called => ?_,fun t r stage => ?_⟩
      · exact absurd (law.called_lt called) (lt_irrefl _)
      exact absurd (law.sending_lt stage) (lt_irrefl _)
    obtain ⟨small,rest⟩ := law.returned p old
    exact ⟨Nat.lt_succ_of_lt small,rest⟩
  · exact (law.back c low).imp_left (mem_cons_of_mem _)
  obtain ⟨p,member,eq⟩ := mem_map.mp old
  have small := (law.returned p member).1
  omega

lemma restage (out : ∀ r n,s.stage t ≠ .sending r n) (outside : ∀ r n,x ≠ .sending r n)
    (quiet : x = .receiving → s.procs.asleep t = true → s.queue t = [] ∧ s.procs.waitState t = wtEventRecv) (ret : Nat → Int) :
    Law {s with stage:=put s.stage t x,ret:=ret} := by
  have sends (a r n : Nat) : put s.stage t x a = .sending r n ↔ s.stage a = .sending r n :=
    (put_off (P:=(· = _)) (outside r n) a).trans (out_of (P:=(· = _)) (out r n) a)
  have same (a r : Nat) (low : a ∈ s.queue r) : put s.stage t x a = s.stage a := by
    obtain ⟨n,stage,_⟩ := law.member low
    rw [stage]
    exact (sends a r n).mpr stage
  refine ⟨fun r => ?_,fun a r n stage => law.flags a r n ((sends a r n).mp stage),fun r stage sleeps => ?_,fun a r n stage => law.call a r n ((sends a r n).mp stage),
    law.numbered,law.distinct,law.known,law.once,fun a r n stage => law.told a r n ((sends a r n).mp stage),fun p member => ?_,fun c low => ?_,
    law.backOnce,fun r => ?_,fun r a low m member same' => ?_,law.order⟩
  · exact (law.line r).recast fun a => exists_congr fun n => sends a r n
  · rcases eq_or_ne r t with rfl | other
    · dsimp only at stage
      rw [put_same] at stage
      exact quiet stage sleeps
    dsimp only at stage
    rw [put_other other] at stage
    exact law.quiet r stage sleeps
  · obtain ⟨small,zero,gone⟩ := law.returned p member
    exact ⟨small,zero,fun a r stage => gone a r ((sends a r _).mp stage)⟩
  · exact (law.back c low).imp_right fun ⟨r,stage⟩ => ⟨r,(sends _ r _).mpr stage⟩
  · refine (law.ordered r).imp_of_mem fun {a b} left right less => ?_
    dsimp only
    rwa [same a r left,same b r right]
  dsimp only
  rw [same a r low]
  exact law.ahead r a low m member same'

lemma joined {procs : Procs} {timeout saved : Nat → Nat} (ready : s.stage t = .idle) (far : r ≠ t)
    (awake : s.stage r = .receiving → s.procs.asleep r = false) (asleep : procs.asleep = put s.procs.asleep t true)
    (flags : procs.wakeupFlags = put s.procs.wakeupFlags t wtInterrupted) (waits : ∀ x ≠ t,procs.waitState x = s.procs.waitState x) :
    Law {s with
      procs:=procs,event:=put s.event t value,queue:=put s.queue r (s.queue r ++ [t]),stage:=put s.stage t (.sending r s.serial),timeout:=timeout,
      saved:=saved,serial:=s.serial + 1,calls:=⟨t,r,value,s.serial⟩ :: s.calls} := by
  have out (q n : Nat) : s.stage t ≠ .sending q n := by simp [ready]
  have apart_of {x q n : Nat} (old : s.stage x = .sending q n) : x ≠ t := by
    rintro rfl
    exact out q n old
  have kept {x q : Nat} (low : x ∈ s.queue q) : x ≠ t := by
    obtain ⟨n,old,_⟩ := law.member low
    exact apart_of old
  have fresh : ¬ s.called s.serial := fun called => absurd (law.called_lt called) (lt_irrefl _)
  -- who sends new it: t, and those who did pre
  have sends (x q n : Nat) : put s.stage t (.sending r s.serial) x = .sending q n ↔ (x = t ∧ q = r ∧ n = s.serial) ∨ s.stage x = .sending q n := by
    rcases eq_or_ne x t with rfl | other
    · simp [out,eq_comm]
    simp [put_other other,other]
  have same (x : Nat) (other : x ≠ t) : procs.wakeupFlags x = s.procs.wakeupFlags x ∧ procs.asleep x = s.procs.asleep x := by
    rw [flags,asleep,put_other other,put_other other]
    exact ⟨rfl,rfl⟩
  refine {law with
    line:=fun q => ?_,flags:=fun x q n now => ?_,quiet:=fun q role sleeps => ?_,call:=fun x q n now => ?_,numbered:=fun c low => ?_,
    distinct:=nodup_cons.mpr ⟨fun old => ?_,law.distinct⟩,known:=fun m member => ?_,told:=fun x q n now => ?_,returned:=fun p member => ?_,
    back:=fun c low => ?_,ordered:=fun q => ?_,ahead:=fun q x low m member eq => ?_} <;> dsimp only at *
  · have mark (x : Nat) : s.sends q x → (procs.wakeupFlags x = wtEventSend ↔ s.procs.wakeupFlags x = wtEventSend) :=
      fun ⟨_,old⟩ => (same x (apart_of old)).1.congr_left
    have slept (x : Nat) : s.sends q x → procs.asleep x = true → s.procs.asleep x = true := fun ⟨_,old⟩ => (same x (apart_of old)).2.symm.trans
    rcases eq_or_ne q r with rfl | other
    · rw [put_same]
      refine (law.line q).join (fun role => role.elim (out q)) (fun x => ?_) (by rw [flags,put_same]; decide) mark slept
      simp [World.sends,sends,exists_or,or_comm]
    rw [put_other other]
    refine (law.line q).frame (fun x => ?_) mark slept
    simp [World.sends,sends,other]
  · rcases (sends x q n).mp now with ⟨rfl,_,_⟩ | old
    · rw [flags]
      exact .inl (put_same ..)
    rw [(same x (apart_of old)).1]
    exact law.flags x q n old
  · obtain ⟨other,was⟩ := put_old role nofun
    rw [(same q other).2] at sleeps
    have away : q ≠ r := by
      rintro rfl
      rw [awake was] at sleeps
      cases sleeps
    rw [put_other away,waits q other]
    exact law.quiet q was sleeps
  · rcases (sends x q n).mp now with ⟨rfl,rfl,rfl⟩ | old
    · rw [put_same]
      exact mem_cons_self ..
    rw [put_other (apart_of old)]
    exact mem_cons_of_mem _ (law.call x q n old)
  · rcases mem_cons.mp low with rfl | old
    · exact Nat.lt_succ_self _
    exact Nat.lt_succ_of_lt (law.numbered c old)
  · obtain ⟨c,low,eq⟩ := mem_map.mp old
    have small := law.numbered c low
    omega
  · obtain ⟨c,low,rest⟩ := law.known m member
    exact ⟨c,mem_cons_of_mem _ low,rest⟩
  · rcases (sends x q n).mp now with ⟨rfl,rfl,rfl⟩ | old
    · rw [flags,put_same]
      exact iff_of_false (by decide) fresh
    rw [(same x (apart_of old)).1]
    exact law.told x q n old
  · obtain ⟨small,zero,gone⟩ := law.returned p member
    refine ⟨Nat.lt_succ_of_lt small,zero,fun x q now => ?_⟩
    rcases (sends x q p.1).mp now with ⟨_,_,eq⟩ | old
    · omega
    exact gone x q old
  · rcases mem_cons.mp low with rfl | old
    · exact .inr ⟨r,put_same ..⟩
    exact (law.back c old).imp_right fun ⟨q,stage⟩ => ⟨q,(sends _ q _).mpr (.inr stage)⟩
  · have pre : (s.queue q).Pairwise fun a b => (put s.stage t (.sending r s.serial) a).number < (put s.stage t (.sending r s.serial) b).number := by
      refine (law.ordered q).imp_of_mem fun {a b} left right less => ?_
      rwa [put_other (kept left),put_other (kept right)]
    rcases eq_or_ne q r with rfl | other
    · rw [put_same]
      refine List.pairwise_append.mpr ⟨pre,List.pairwise_singleton _ _,fun a left b right => ?_⟩
      obtain rfl := List.mem_singleton.mp right
      obtain ⟨n,old,_⟩ := law.member left
      rw [put_same,put_other (kept left),old]
      exact law.sending_lt old
    rw [put_other other]
    exact pre
  have old (low : x ∈ s.queue q) : m.call < (put s.stage t (.sending r s.serial) x).number := by
    rw [put_other (kept low)]
    exact law.ahead q x low m member eq
  rcases eq_or_ne q r with rfl | other
  · rw [put_same] at low
    rcases List.mem_append.mp low with pre | last
    · exact old pre
    obtain rfl := List.mem_singleton.mp last
    rw [put_same]
    exact law.called_lt (List.mem_map_of_mem member)
  rw [put_other other] at low
  exact old low

lemma send (ready : s.stage t = .idle) (goal : Option Nat) (value : Int) (late : Nat) : Law (s.send t goal value late) := by
  unfold World.send
  dsimp only
  split
  · exact law.refused _
  rename_i r
  split
  · exact law.refused _
  rename_i goes
  have far : r ≠ t := fun eq => goes (.inr (.inl eq))
  -- first the receiver is woken, if it waits for this
  have woken (x : Nat) : Woken s.procs (if s.procs.waitState r = wtEventRecv then s.procs.wakeupProc r else s.procs) x := by
    split
    · exact s.procs.wakeupProc_woken r x
    exact .refl _ x
  have kept : (if s.procs.waitState r = wtEventRecv then s.procs.wakeupProc r else s.procs).wakeupFlags = s.procs.wakeupFlags := by
    split
    · exact (s.procs.wakeupProc_frame r).1
    rfl
  have mid : Law {s with procs:=if s.procs.waitState r = wtEventRecv then s.procs.wakeupProc r else s.procs} := law.calm kept woken
  have awake : s.stage r = .receiving → (if s.procs.waitState r = wtEventRecv then s.procs.wakeupProc r else s.procs).asleep r = false := by
    intro role
    split
    · exact s.procs.wakeupProc_self r
    next waits =>
      cases sleeps : s.procs.asleep r with
      | false => rfl
      | true => exact absurd (law.quiet r role sleeps).2 waits
  refine mid.joined ready far awake ?_ ?_ ?_
  all_goals
    unfold Procs.addTimer
    dsimp only
  · split <;> rfl
  · split <;> rfl
  intro x other
  split <;> exact put_other other

lemma alone (stage : s.stage t = .sending r n) (same : s.stage x = .sending q n) : x = t :=
  congrArg Call.sender (List.inj_on_of_nodup_map law.distinct (law.call x q n same) (law.call t r n stage) rfl)

lemma sent (stage : s.stage t = .sending r n) (zero : ret = 0 ↔ s.called n) (rets : Nat → Int) : Law {s with
      procs:=s.procs.delTimer t,queue:=put s.queue r ((s.queue r).erase t),stage:=put s.stage t .idle,ret:=rets,returned:=(n,ret) :: s.returned} := by
  have sends (x q m : Nat) : put s.stage t .idle x = .sending q m ↔ x ≠ t ∧ s.stage x = .sending q m := put_off (P:=(· = _)) (by simp) x
  have fewer (q : Nat) : (put s.queue r ((s.queue r).erase t) q).Sublist (s.queue q) :=
    put_all (P:=fun q (l : List Nat) => l.Sublist (s.queue q)) List.erase_sublist (fun _ _ => .refl _) q
  have far (q x : Nat) (low : x ∈ put s.queue r ((s.queue r).erase t) q) : x ≠ t := by
    rintro rfl
    obtain ⟨m,old,_⟩ := law.member ((fewer q).subset low)
    rw [stage] at old
    cases old
    rw [put_same] at low
    exact ((List.Nodup.mem_erase_iff (law.line r).once).mp low).1 rfl
  refine {law with
    line:=fun q => ?_,flags:=fun x q m now => law.flags x q m ((sends x q m).mp now).2,quiet:=fun q role sleeps => ?_,
    call:=fun x q m now => law.call x q m ((sends x q m).mp now).2,told:=fun x q m now => law.told x q m ((sends x q m).mp now).2,
    returned:=fun p member => ?_,back:=fun c low => ?_,backOnce:=nodup_cons.mpr ⟨fun old => ?_,law.backOnce⟩,ordered:=fun q => ?_,
    ahead:=fun q x low m member same => ?_} <;> dsimp only at *
  · rcases eq_or_ne q r with rfl | other
    · rw [put_same]
      refine (law.line q).depart t fun x => ?_
      simp [World.sends,sends]
    rw [put_other other]
    refine (law.line q).recast fun x => ?_
    simp only [World.sends,sends,exists_and_left,and_iff_right_iff_imp]
    rintro ⟨m,old⟩ rfl
    rw [stage] at old
    cases old
    exact other rfl
  · obtain ⟨other,role⟩ := put_old role nofun
    have pre := law.quiet q role sleeps
    exact ⟨List.sublist_nil.mp (pre.1 ▸ fewer q),pre.2⟩
  · rcases mem_cons.mp member with rfl | old
    · refine ⟨law.sending_lt stage,zero,fun x q now => ?_⟩
      have parts := (sends x q n).mp now
      exact parts.1 (law.alone stage parts.2)
    obtain ⟨small,nil,gone⟩ := law.returned p old
    exact ⟨small,nil,fun x q now => gone x q ((sends x q _).mp now).2⟩
  · rcases law.back c low with old | ⟨q,old⟩
    · exact .inl (mem_cons_of_mem _ old)
    rcases eq_or_ne c.sender t with eq | other
    · rw [eq,stage] at old
      cases old
      exact .inl (mem_cons_self ..)
    exact .inr ⟨q,(sends _ q _).mpr ⟨other,old⟩⟩
  · obtain ⟨p,member,eq⟩ := mem_map.mp old
    exact (law.returned p member).2.2 t r (eq ▸ stage)
  · refine ((law.ordered q).sublist (fewer q)).imp_of_mem fun {a b} left right less => ?_
    rwa [put_other (far q a left),put_other (far q b right)]
  rw [put_other (far q x low)]
  exact law.ahead q x ((fewer q).subset low) m member same

end Law

lemma checkTimeout_ne_zero (late saved ticks : Nat) : checkTimeout late saved ticks ≠ 0 := by
  unfold checkTimeout
  split <;> decide

namespace Law

lemma resumeSend (law : Law s) (stage : s.stage t = .sending r n) : ∃ u,s.resumeSend t r n = .ok u ∧ Law u := by
  have told := law.told t r n stage
  unfold World.resumeSend
  dsimp only
  by_cases heard : s.procs.wakeupFlags t = wtEventSend
  · rw [if_pos heard]
    exact ⟨_,rfl,law.sent stage (iff_of_true rfl (told.mp heard)) _⟩
  rw [if_neg heard,if_pos ((law.flags t r n stage).resolve_right heard)]
  exact ⟨_,rfl,law.sent stage (iff_of_false (checkTimeout_ne_zero _ _ _) fun called => heard (told.mpr called)) _⟩

lemma meets (law : Law s) (out : ∀ r n,s.stage t ≠ .sending r n) (line : s.queue t = head :: rest) :
    Law {s with
      procs:=s.procs.wakeupWait head wtEventSend
      queue:=put s.queue t rest
      stage:=put s.stage t (.received (s.pid head) (s.event head))
      met:=⟨t,(s.stage head).number,s.pid head,s.event head⟩ :: s.met} := by
  obtain ⟨n,stage,unheard⟩ := law.member (show head ∈ s.queue t by rw [line]; exact mem_cons_self ..)
  have fresh : ¬ s.called n := fun called => unheard ((law.told head t n stage).mpr called)
  have self := s.procs.wakeupWait_self head wtEventSend
  have others (x : Nat) (other : x ≠ head) := s.procs.wakeupWait_other wtEventSend other
  have number : (s.stage head).number = n := by
    rw [stage]
    rfl
  have sends (x q m : Nat) : put s.stage t (.received (s.pid head) (s.event head)) x = .sending q m ↔ s.stage x = .sending q m :=
    (put_off (P:=(· = _)) (by simp) x).trans (out_of (P:=(· = _)) (out q m) x)
  have same (x q : Nat) (low : x ∈ s.queue q) : put s.stage t (.received (s.pid head) (s.event head)) x = s.stage x := by
    obtain ⟨m,old,_⟩ := law.member low
    rw [old]
    exact (sends x q m).mpr old
  have fewer (q : Nat) : (put s.queue t rest q).Sublist (s.queue q) :=
    put_all (P:=fun q (l : List Nat) => l.Sublist (s.queue q)) (line ▸ List.sublist_cons_self head rest) (fun _ _ => .refl _) q
  rw [number]
  refine ⟨fun q => ?_,fun x q m now => ?_,fun q role sleeps => ?_,fun x q m now => law.call x q m ((sends x q m).mp now),law.numbered,law.distinct,
    fun m member => ?_,nodup_cons.mpr ⟨fresh,law.once⟩,fun x q m now => ?_,fun p member => ?_,fun c low => ?_,law.backOnce,fun q => ?_,
    fun q x low m member eq => ?_,List.pairwise_cons.mpr ⟨fun m member eq => ?_,law.order⟩⟩
  all_goals dsimp only at *
  · have roles (x : Nat) : World.sends {s with
        procs:=s.procs.wakeupWait head wtEventSend,queue:=put s.queue t rest,stage:=put s.stage t (.received (s.pid head) (s.event head)),
        met:=⟨t,n,s.pid head,s.event head⟩ :: s.met} q x ↔ s.sends q x := exists_congr fun m => sends x q m
    rcases eq_or_ne q t with rfl | other
    · have pre := law.line q
      rw [line] at pre
      rw [put_same]
      have called := pre.call self.1 (by simp [self.2]) (fun x _ away => (others x away).1.congr_left) fun x _ away => (others x away).2.symm.trans
      exact (called.less (Nat.zero_le _)).recast roles
    rw [put_other other]
    have away (x : Nat) (role : s.sends q x) : x ≠ head := by
      rintro rfl
      obtain ⟨m,old⟩ := role
      rw [stage] at old
      cases old
      exact other rfl
    exact (law.line q).frame roles (fun x role => (others x (away x role)).1.congr_left) fun x role => (others x (away x role)).2.symm.trans
  · rcases eq_or_ne x head with rfl | other
    · exact .inr self.1
    rw [(others x other).1]
    exact law.flags x q m ((sends x q m).mp now)
  · obtain ⟨other,role⟩ := put_old role nofun
    rcases s.procs.wakeupWait_woken head wtEventSend q with ⟨kept,state⟩ | ⟨_,awake,_⟩
    · have pre := law.quiet q role (kept ▸ sleeps)
      rw [put_other other,state]
      exact pre
    rw [awake] at sleeps
    cases sleeps
  · rcases mem_cons.mp member with rfl | old
    · exact ⟨_,law.call head t n stage,rfl,rfl,rfl,rfl⟩
    exact law.known m old
  · have old := (sends x q m).mp now
    unfold World.called
    rw [List.map_cons,mem_cons]
    rcases eq_or_ne x head with rfl | other
    · rw [stage] at old
      cases old
      exact iff_of_true self.1 (.inl rfl)
    have away : m ≠ n := by
      rintro rfl
      exact other (law.alone stage old)
    rw [(others x other).1,law.told x q m old]
    simp [away,World.called]
  · obtain ⟨small,zero,gone⟩ := law.returned p member
    have away : p.1 ≠ n := fun eq => gone head t (eq ▸ stage)
    refine ⟨small,?_,fun x q now => gone x q ((sends x q _).mp now)⟩
    rw [zero]
    simp [World.called,away]
  · exact (law.back c low).imp_right fun ⟨q,old⟩ => ⟨q,(sends _ q _).mpr old⟩
  · refine ((law.ordered q).sublist (fewer q)).imp_of_mem fun {a b} left right less => ?_
    rwa [same a q ((fewer q).subset left),same b q ((fewer q).subset right)]
  · have old := (fewer q).subset low
    rw [same x q old]
    rcases mem_cons.mp member with rfl | pre
    · obtain rfl : t = q := eq
      rw [put_same] at low
      have order := law.ordered t
      rw [line] at order
      have less := (List.pairwise_cons.mp order).1 x low
      rwa [number] at less
    exact law.ahead q x old m pre eq
  have less := law.ahead t head (by rw [line]; exact mem_cons_self ..) m member eq.symm
  rwa [number] at less

lemma take (law : Law s) (out : ∀ r n,s.stage t ≠ .sending r n) : Law (s.take t) := by
  unfold World.take
  split
  · exact law.restage out (by simp) (by simp) _
  rename_i head rest line
  exact law.meets out line

lemma recv (law : Law s) (ready : s.stage t = .idle) (timeout : Nat) : Law (s.recv t timeout) := by
  have out : ∀ r n,s.stage t ≠ .sending r n := by simp [ready]
  have armed : Law {s with timeout:=put s.timeout t timeout,saved:=put s.saved t s.procs.ticks} := law.calm rfl fun x => .refl _ x
  unfold World.recv
  dsimp only
  split
  next empty =>
    -- nobody is in the queue when t goes to sleep
    obtain ⟨asleep,waits,flags⟩ := Procs.addTimer_frame {s.procs with asleep:=put s.procs.asleep t true,waitState:=put s.procs.waitState t wtEventRecv} t timeout
    dsimp only at asleep waits flags
    have other (x r n : Nat) (role : s.stage x = .sending r n) : x ≠ t := by
      rintro rfl
      exact out r n role
    have slept : Law {s with
        procs:={s.procs with asleep:=put s.procs.asleep t true,waitState:=put s.procs.waitState t wtEventRecv}.addTimer t timeout
        timeout:=put s.timeout t timeout
        saved:=put s.saved t s.procs.ticks} := by
      refine {law with line:=fun r => ?_,flags:=?_,quiet:=fun r role sleeps => ?_,told:=?_}
      · refine (law.line r).frame (fun _ => .rfl) (fun x _ => by rw [flags]) fun x ⟨n,role⟩ sleeps => ?_
        dsimp only at sleeps
        rwa [asleep,put_other (other x r n role)] at sleeps
      · dsimp only
        rw [flags]
        exact law.flags
      · have away : r ≠ t := by
          rintro rfl
          rw [ready] at role
          cases role
        dsimp only at sleeps ⊢
        rw [asleep,put_other away] at sleeps
        rw [waits,put_other away]
        exact law.quiet r role sleeps
      dsimp only
      rw [flags]
      exact law.told
    refine slept.restage out (by simp) (fun _ _ => ⟨empty,?_⟩) s.ret
    dsimp only
    rw [waits]
    exact put_same ..
  exact armed.take out

lemma exit (law : Law s) (ready : s.stage t = .idle) : Law (s.exit t) := by
  have flags (x : Nat) : (s.procs.wakeupQueue wtInterrupted (s.queue t)).wakeupFlags x = s.procs.wakeupFlags x := by
    by_cases low : x ∈ s.queue t
    · obtain ⟨n,stage,unheard⟩ := law.member low
      rw [(s.procs.wakeupQueue_member wtInterrupted low).2]
      exact ((law.flags x t n stage).resolve_right unheard).symm
    exact (s.procs.wakeupQueue_other wtInterrupted low).2
  have woken (x : Nat) := s.procs.wakeupQueue_woken wtInterrupted (s.queue t) x
  have mid : Law {s with procs:=s.procs.wakeupQueue wtInterrupted (s.queue t),status:=put s.status t .zombie} := law.calm (funext flags) woken
  unfold World.exit
  refine {mid with line:=fun r => ?_,quiet:=fun r role sleeps => ?_,ordered:=fun r => ?_,ahead:=fun r x low m member eq => ?_}
  all_goals dsimp only at *
  · rcases eq_or_ne r t with rfl | other
    · rw [put_same]
      refine .empty _ fun x role sleeps => ?_
      have low := (law.line r).slept x role ((woken x).slept sleeps)
      rw [(s.procs.wakeupQueue_member wtInterrupted low).1] at sleeps
      cases sleeps
    rw [put_other other]
    exact mid.line r
  · have other : r ≠ t := by
      rintro rfl
      rw [show s.stage r = _ from role] at ready
      cases ready
    have old := mid.quiet r role sleeps
    rw [put_other other]
    exact old
  · rcases eq_or_ne r t with rfl | other
    · rw [put_same]
      exact .nil
    rw [put_other other]
    exact mid.ordered r
  rcases eq_or_ne r t with rfl | other
  · rw [put_same] at low
    cases low
  rw [put_other other] at low
  exact mid.ahead r x low m member eq

lemma step (law : Law s) (moved : s.Move e u) : Law u := by
  obtain ⟨may,ran⟩ := moved
  cases e with
  | born t =>
    cases ran
    exact law.calm rfl fun x => .refl _ x
  | send t goal value late =>
    cases ran
    exact law.send may.1.2.2 goal value late
  | recv t late =>
    cases ran
    exact law.recv may.2.2 late
  | run t =>
    simp only [World.step] at ran
    split at ran
    · rename_i r n stage
      obtain ⟨w,done,new⟩ := law.resumeSend stage
      rw [done] at ran
      cases ran
      exact new
    next stage =>
      cases ran
      have mid : Law {s with procs:=s.procs.delTimer t} := law.calm rfl fun x => .inl ⟨rfl,rfl⟩
      exact mid.take (by simp [stage])
    cases ran
    exact law
  | store t stored =>
    cases ran
    have out : ∀ r n,s.stage t ≠ .sending r n := by
      intro r n stage
      have waits := may.2.2
      rw [stage] at waits
      cases waits
    exact law.restage out (by simp) (by simp) _
  | exit t =>
    cases ran
    exact law.exit may.2.2
  | reap t =>
    cases ran
    exact law.calm rfl fun x => .refl _ x
  | tick =>
    simp only [World.step] at ran
    split at ran
    · rename_i procs ticked
      cases ran
      have woken := Procs.runTimerList_woken ticked
      exact law.calm woken.2 woken.1
    cases ran
  | kill t =>
    cases ran
    exact law.calm (s.procs.doKill_frame t).1 (s.procs.doKill_woken t)

lemma first (pid : Nat → Nat) (special : Nat → Bool) : Law (World.first pid special) := by
  refine ⟨fun r => .empty _ ?_,?_,?_,?_,?_,?_,?_,?_,?_,?_,?_,?_,?_,?_,?_⟩
  all_goals simp [World.first,World.sends,World.called]

end Law

end Steps

-- What every run of sends, receives, exits, timeouts and kills comes to: a meeting
-- shows the pid and the event of one call of send_event, no call has two meetings, a
-- send returns 0 if and only if it had one, the meetings of a receiver are in the order
-- the senders came, and no receiver sleeps with a sender in its queue.
structure Rendezvous (s : World) : Prop where
  once : (s.met.map Meeting.call).Nodup
  shown : ∀ m ∈ s.met,∃ c ∈ s.calls,c.number = m.call ∧ c.target = m.receiver ∧ m.pid = s.pid c.sender ∧ m.event = c.value
  numbers : (s.calls.map Call.number).Nodup ∧ (s.returned.map fst).Nodup
  returned : ∀ n ret,(n,ret) ∈ s.returned → (ret = 0 ↔ ∃ m ∈ s.met,m.call = n)
  met : ∀ m ∈ s.met,(m.call,0) ∈ s.returned ∨
    ∃ t,s.stage t = .sending m.receiver m.call ∧ s.procs.wakeupFlags t = wtEventSend ∧ s.procs.asleep t = false
  order : s.met.Pairwise fun late early => late.receiver = early.receiver → early.call < late.call
  quiet : ∀ r,s.stage r = .receiving → s.procs.asleep r = true → s.queue r = []

theorem event_rendezvous (path : Path World.Move (World.first pid special) events s) : Rendezvous s := by
  have law := path.invariant (fun _ _ _ law moved => law.step moved) (Law.first pid special)
  refine ⟨law.once,law.known,⟨law.distinct,law.backOnce⟩,fun n ret member => ?_,fun m member => ?_,law.order,fun r role sleeps => (law.quiet r role sleeps).1⟩
  · rw [(law.returned (n,ret) member).2.1]
    simp [World.called]
  obtain ⟨c,inside,number,target,_⟩ := law.known m member
  have called : s.called m.call := List.mem_map_of_mem member
  rcases law.back c inside with back | ⟨r,stage⟩
  · obtain ⟨p,old,eq⟩ := mem_map.mp back
    have zero := (law.returned p old).2.1.mpr (by rwa [eq,number])
    refine .inl ?_
    rw [← number,← eq,← zero]
    exact old
  right
  rw [number] at stage
  have same : r = m.receiver := by
    have one := law.call _ r _ stage
    have eq := List.inj_on_of_nodup_map law.distinct one inside number.symm
    rw [← target,← eq]
  subst same
  have heard := (law.told _ _ _ stage).mpr called
  refine ⟨c.sender,stage,heard,?_⟩
  cases sleeps : s.procs.asleep c.sender with
  | false => rfl
  | true =>
    have waiting := (law.line _).slept _ ⟨_,stage⟩ sleeps
    exact absurd heard ((law.line _).member _ waiting).2

def greeting : List Event :=
  [.born 0,.born 1,.born 2,.recv 0 0,.send 1 (some 0) 5 0,.send 2 (some 0) 6 0,.run 0,.store 0 true,.run 1,.kill 2,.run 2]

theorem event_rendezvous_greeting : ∃ s,Path World.Move (World.first (· + 100) fun _ => false) greeting s ∧
    s.returned = [(1,-1),(0,0)] ∧ s.met = [⟨0,0,101,5⟩] ∧ Rendezvous s := by
  have ran : (runs World.Enabled (fun s e => (s.step e).toOption) (World.first (· + 100) fun _ => false) greeting).map (fun s => (s.returned,s.met)) = some ([(1,-1),(0,0)],[⟨0,0,101,5⟩]) := by
    decide +kernel
  obtain ⟨s,last,shown⟩ := Option.map_eq_some_iff.mp ran
  have path := runs_path_ok last
  exact ⟨s,path,congrArg fst shown,congrArg Prod.snd shown,event_rendezvous path⟩

end Ucore.Sync.Events

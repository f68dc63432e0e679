import Ucore.Sync.Mbox

-- A mailbox is a bounded queue: what receivers take is what senders put in, in order.
namespace Ucore.Sync.Mail
open Runs List
variable {s u : Post}

section Bytes

def Msg.Whole (m : Msg) : Prop := m = loadMsg m.pid m.serial m.data ∧ 0 < m.data.length

lemma loadMsg_whole {data : List UInt8} (some : 0 < data.length) : (loadMsg pid serial data).Whole := ⟨rfl,some⟩

lemma storeSegs_loadSegs {data : List UInt8} (pos : 0 < data.length) (fuel : data.length ≤ n) :
    storeSegs data.length (loadSegs n data) = some data := by
  induction n generalizing data with
  | zero => omega
  | succ n ih =>
    unfold loadSegs storeSegs
    by_cases short : data.length ≤ maxMsgDatalen
    · rw [if_pos short]
      simp [take_of_length_le short]
    rw [if_neg short,if_neg short]
    have size : (data.drop maxMsgDatalen).length = data.length - maxMsgDatalen := length_drop
    have large : maxMsgDatalen = 480 := rfl
    rw [← size,ih (by omega) (by omega)]
    simp [take_take,take_append_drop]

lemma Msg.Whole.stored {m : Msg} (all : m.Whole) : storeSegs m.bytes m.segs = some m.data := by
  obtain ⟨eq,some⟩ := all
  rw [eq]
  exact storeSegs_loadSegs some le_rfl

end Bytes

structure Mbox.Fine (b : Mbox) : Prop where
  slots : b.state = .opened → b.slots = b.msgs.length
  bound : b.state = .opened → b.slots ≤ b.maxSlots
  queued : b.enqueued = b.taken ++ b.discarded ++ b.msgs
  live : b.state = .opened → b.discarded = []
  dead : b.state ≠ .opened → b.msgs = []
  closed : b.state = .closed → b.slots = 0

structure Mbox.Calm (b c : Mbox) : Prop where
  state : c.state = .opened ↔ b.state = .opened
  slots : b.state = .opened → c.slots = b.slots ∧ c.maxSlots = b.maxSlots
  msgs : c.msgs = b.msgs
  enqueued : c.enqueued = b.enqueued
  taken : c.taken = b.taken
  discarded : c.discarded = b.discarded
  closed : c.state = .closed → c.slots = 0 ∨ (b.state = .closed ∧ c.slots = b.slots)

lemma Mbox.Calm.refl (b : Mbox) : b.Calm b := ⟨.rfl,fun _ => ⟨rfl,rfl⟩,rfl,rfl,rfl,rfl,fun shut => .inr ⟨shut,rfl⟩⟩

lemma Mbox.Calm.trans (first : Mbox.Calm b c) (second : Mbox.Calm c d) : Mbox.Calm b d := by
  refine ⟨second.state.trans first.state,fun opened => ?_,second.msgs.trans first.msgs,second.enqueued.trans first.enqueued,
    second.taken.trans first.taken,second.discarded.trans first.discarded,fun shut => ?_⟩
  · have one := first.slots opened
    have two := second.slots (first.state.mpr opened)
    exact ⟨two.1.trans one.1,two.2.trans one.2⟩
  rcases second.closed shut with zero | ⟨old,eq⟩
  · exact .inl zero
  rcases first.closed old with zero | ⟨earlier,kept⟩
  · exact .inl (eq.trans zero)
  exact .inr ⟨earlier,eq.trans kept⟩

lemma Mbox.Fine.calm (fine : Mbox.Fine b) (calm : Mbox.Calm b c) : Mbox.Fine c := by
  refine ⟨fun opened => ?_,fun opened => ?_,?_,fun opened => ?_,fun shut => ?_,fun closed => ?_⟩
  · have old := calm.state.mp opened
    rw [(calm.slots old).1,calm.msgs]
    exact fine.slots old
  · have old := calm.state.mp opened
    rw [(calm.slots old).1,(calm.slots old).2]
    exact fine.bound old
  · rw [calm.enqueued,calm.taken,calm.discarded,calm.msgs]
    exact fine.queued
  · rw [calm.discarded]
    exact fine.live (calm.state.mp opened)
  · rw [calm.msgs]
    exact fine.dead fun opened => shut (calm.state.mpr opened)
  rcases calm.closed closed with zero | ⟨old,eq⟩
  · exact zero
  exact eq.trans (fine.closed old)

-- A change of the system its history does not see: sleeping and waking, timers, who is
-- in use, and the last process out of a freed box.
structure Aside (s u : Post) : Prop where
  boxes : ∀ i,(s.boxes i).Calm (u.boxes i)
  stage : u.stage = s.stage
  serial : u.serial = s.serial
  ever : u.ever = s.ever
  failed : u.failed = s.failed
  sent : u.sent = s.sent
  everTaken : u.everTaken = s.everTaken
  delivered : u.delivered = s.delivered

lemma Aside.refl (s : Post) : Aside s s := ⟨fun _ => .refl _,rfl,rfl,rfl,rfl,rfl,rfl,rfl⟩

lemma Aside.trans (one : Aside s u) (two : Aside u w) : Aside s w :=
  ⟨fun i => (one.boxes i).trans (two.boxes i),two.stage.trans one.stage,two.serial.trans one.serial,
    two.ever.trans one.ever,two.failed.trans one.failed,two.sent.trans one.sent,
    two.everTaken.trans one.everTaken,two.delivered.trans one.delivered⟩

namespace Post

lemma box_calm {b : Mbox} (calm : (s.boxes i).Calm b) : Aside s (s.box i b) := by
  refine ⟨fun j => ?_,rfl,rfl,rfl,rfl,rfl,rfl,rfl⟩
  by_cases eq : j = i
  · subst eq
    simpa [box] using calm
  simpa [box,put_other eq] using Mbox.Calm.refl (s.boxes j)

lemma procs_aside (s : Post) (procs : Procs) : Aside s {s with procs:=procs} := ⟨fun _ => .refl _,rfl,rfl,rfl,rfl,rfl,rfl,rfl⟩

lemma arm_aside (s : Post) (t late : Nat) : Aside s (s.arm t late) := ⟨fun _ => .refl _,rfl,rfl,rfl,rfl,rfl,rfl,rfl⟩

lemma disarm_aside (s : Post) (t : Nat) : Aside s (s.disarm t) := ⟨fun _ => .refl _,rfl,rfl,rfl,rfl,rfl,rfl,rfl⟩

end Post

lemma Mbox.Calm.inuse (b : Mbox) (n : Nat) : b.Calm {b with inuse:=n} := ⟨.rfl,fun _ => ⟨rfl,rfl⟩,rfl,rfl,rfl,rfl,fun shut => .inr ⟨shut,rfl⟩⟩

lemma Mbox.Calm.queues (b : Mbox) (senders receivers : List Nat) : b.Calm {b with senders:=senders,receivers:=receivers} :=
  ⟨.rfl,fun _ => ⟨rfl,rfl⟩,rfl,rfl,rfl,rfl,fun shut => .inr ⟨shut,rfl⟩⟩

namespace Post

lemma wakeupReceiver_aside (s : Post) (i : Nat) : Aside s (s.wakeupReceiver i) := by
  unfold wakeupReceiver
  split
  · exact .refl s
  exact (box_calm (.queues (s.boxes i) _ _)).trans (procs_aside _ _)

lemma wakeupSender_aside (s : Post) (i : Nat) : Aside s (s.wakeupSender i) := by
  unfold wakeupSender
  split
  · exact .refl s
  exact (box_calm (.queues (s.boxes i) _ _)).trans (procs_aside _ _)

lemma sleep_aside (slept : s.sleep t waitState = .ok u) : Aside s u := by
  unfold sleep at slept
  dsimp only at slept
  split at slept
  · cases slept
    exact s.procs_aside _
  split at slept
  · cases slept
  cases slept
  exact s.procs_aside _

lemma mboxFree_aside (freed : s.mboxFree i = .ok u) : Aside s u := by
  unfold mboxFree at freed
  dsimp only at freed
  split at freed
  next shut =>
    cases freed
    refine box_calm ⟨?_,fun opened => ?_,rfl,rfl,rfl,rfl,fun _ => .inl rfl⟩
    · simp [shut.1]
    rw [shut.1] at opened
    cases opened
  cases freed

lemma leave_aside (left : s.leave i zero = .ok u) : Aside s u := by
  unfold leave at left
  dsimp only at left
  have out := box_calm (.inuse (s.boxes i) ((s.boxes i).inuse - 1))
  split at left
  · cases left
    exact out
  split at left
  · split at left
    · exact out.trans (mboxFree_aside left)
    cases left
    exact out
  cases left

end Post

def Stage.carries : Stage → Option Msg
  | .loaded _ m _ | .sending _ m => some m
  | _ => none

def Stage.holds : Stage → Option Msg
  | .got m => some m
  | _ => none

structure Inv (s : Post) : Prop where
  fine : ∀ i,(s.boxes i).Fine
  known : ∀ i,(s.boxes i).enqueued.Sublist s.ever
  numbered : ∀ m ∈ s.ever,m.serial < s.serial
  once : (s.ever.map Msg.serial).Nodup
  whole : ∀ m ∈ s.ever,m.Whole
  failed : ∀ m ∈ s.failed,m.serial < s.serial ∧ m.serial ∉ s.ever.map Msg.serial
  sent : ∀ m ∈ s.sent,m ∈ s.ever
  carried : ∀ t m,(s.stage t).carries = some m →
    m.Whole ∧ m.serial < s.serial ∧ m.serial ∉ s.ever.map Msg.serial ∧ m.serial ∉ s.failed.map Msg.serial
  apart : ∀ t u m n,(s.stage t).carries = some m → (s.stage u).carries = some n → m.serial = n.serial → t = u
  boxTaken : ∀ i,∀ m ∈ (s.boxes i).taken,m ∈ s.everTaken
  takenEver : ∀ m ∈ s.everTaken,m ∈ s.ever
  takenOnce : s.everTaken.Nodup
  waiting : ∀ i,∀ m ∈ (s.boxes i).msgs,m ∉ s.everTaken
  disjoint : ∀ i j m,m ∈ (s.boxes i).msgs → m ∈ (s.boxes j).msgs → i = j
  account : ∀ m,m ∈ s.everTaken ↔ (∃ d ∈ s.delivered,d.msg = m) ∨ ∃ t,(s.stage t).holds = some m
  delivered : ∀ d ∈ s.delivered,d.sender = d.msg.pid ∧ d.data = d.msg.data

lemma Inv.aside (inv : Inv s) (aside : Aside s u) : Inv u := by
  obtain ⟨boxes,stage,serial,ever,bad,sent,everTaken,delivered⟩ := aside
  cases u
  dsimp only at *
  subst stage serial ever bad sent everTaken delivered
  refine {inv with
    fine:=fun i => (inv.fine i).calm (boxes i),known:=fun i => ?_,boxTaken:=fun i => ?_,waiting:=fun i => ?_,disjoint:=fun i j m => ?_} <;> dsimp only
  · rw [(boxes i).enqueued]
    exact inv.known i
  · rw [(boxes i).taken]
    exact inv.boxTaken i
  · rw [(boxes i).msgs]
    exact inv.waiting i
  rw [(boxes i).msgs,(boxes j).msgs]
  exact inv.disjoint i j m

lemma box_all {b : Mbox} {P : Nat → Mbox → Prop} (here : P i b) (rest : ∀ j ≠ i,P j (s.boxes j)) : P j ((s.box i b).boxes j) :=
  put_all here rest j

lemma Inv.queued (inv : Inv s) (mem : m ∈ (s.boxes i).msgs) : m ∈ s.ever := by
  refine (inv.known i).mem ?_
  rw [(inv.fine i).queued]
  exact mem_append_right _ mem

lemma holds_put {stage : Nat → Stage} {next : Stage} (held : (stage t).holds = none) (holds : next.holds = none) :
    (∃ x,(put stage t next x).holds = some m) ↔ ∃ x,(stage x).holds = some m :=
  exists_congr fun x => (put_off (P:=fun st : Stage => st.holds = some m) (by simp [holds]) x).trans (out_of (P:=fun st : Stage => st.holds = some m) (by simp [held]) x)

lemma carries_put {stage : Nat → Stage} {next : Stage} (carries : next.carries = none) (has : (put stage t next x).carries = some n) :
    x ≠ t ∧ (stage x).carries = some n := (put_off (P:=fun st : Stage => st.carries = some n) (by simp [carries]) x).mp has

namespace Inv
variable (inv : Inv s)
include inv

lemma restage (next : Stage) (carries : ∀ m,next.carries = some m → (s.stage t).carries = some m)
    (holds : next.holds = none) (held : (s.stage t).holds = none) : Inv {s with stage:=put s.stage t next} := by
  have back (x : Nat) (m : Msg) (carried : (put s.stage t next x).carries = some m) : (s.stage x).carries = some m := by
    by_cases me : x = t
    · subst me
      rw [put_same] at carried
      exact carries m carried
    rwa [put_other me] at carried
  refine {inv with carried:=fun x m carried => inv.carried x m (back x m carried),apart:=fun x y m n one two => inv.apart x y m n (back x m one) (back y n two),account:=fun m => ?_}
  exact (inv.account m).trans (or_congr .rfl (holds_put held holds).symm)

lemma fails (carried : (s.stage t).carries = some m) (ret : Int) : Inv (s.sendFails t m ret) := by
  obtain ⟨_,old,unsent,_⟩ := inv.carried t m carried
  have held : (s.stage t).holds = none := by cases stage : s.stage t <;> simp_all [Stage.carries,Stage.holds]
  have idle := inv.restage (t := t) .idle (by simp [Stage.carries]) rfl held
  refine {idle with failed:=fun n mem => ?_,carried:=fun x n has => ?_}
  · rcases mem_cons.mp mem with rfl | pre
    · exact ⟨old,unsent⟩
    exact idle.failed n pre
  obtain ⟨one,two,three,four⟩ := idle.carried x n has
  refine ⟨one,two,three,?_⟩
  obtain ⟨me,pre⟩ := carries_put rfl has
  simp only [Post.sendFails,map_cons,mem_cons,not_or]
  exact ⟨fun eq => me (inv.apart x t n m pre carried eq),four⟩

lemma load (idle : s.stage t = .idle) {data : List UInt8} (some : 0 < data.length) (i late : Nat) :
    Inv {s with stage:=put s.stage t (.loaded i (loadMsg t s.serial data) late),serial:=s.serial + 1} := by
  have either (x : Nat) (m : Msg) (carried : (put s.stage t (.loaded i (loadMsg t s.serial data) late) x).carries = Option.some m) :
      (x = t ∧ m = loadMsg t s.serial data) ∨ (x ≠ t ∧ (s.stage x).carries = Option.some m) := by
    by_cases me : x = t
    · subst me
      rw [put_same] at carried
      exact .inl ⟨rfl,(Option.some.inj carried).symm⟩
    rw [put_other me] at carried
    exact .inr ⟨me,carried⟩
  have past {n : Msg} (low : n.serial < s.serial) : n.serial ≠ (loadMsg t s.serial data).serial := Nat.ne_of_lt low
  have new : ∀ m ∈ s.ever,m.serial < s.serial + 1 := fun m mem => Nat.lt_succ_of_lt (inv.numbered m mem)
  refine {inv with numbered:=new,failed:=fun m mem => ?_,carried:=fun x m carried => ?_,apart:=fun x y m n one two eq => ?_,account:=fun m => ?_}
  · have old := inv.failed m mem
    exact ⟨Nat.lt_succ_of_lt old.1,old.2⟩
  · rcases either x m carried with ⟨_,rfl⟩ | ⟨_,before⟩
    · refine ⟨loadMsg_whole some,Nat.lt_succ_self _,fun mem => ?_,fun mem => ?_⟩
      · obtain ⟨n,inside,eq⟩ := mem_map.mp mem
        exact past (inv.numbered n inside) eq
      obtain ⟨n,inside,eq⟩ := mem_map.mp mem
      exact past (inv.failed n inside).1 eq
    obtain ⟨whole,low,unsent,unfailed⟩ := inv.carried x m before
    exact ⟨whole,Nat.lt_succ_of_lt low,unsent,unfailed⟩
  · rcases either x m one with ⟨rfl,rfl⟩ | ⟨ne,before⟩
    · rcases either y n two with ⟨rfl,_⟩ | ⟨_,earlier⟩
      · rfl
      · exact absurd eq.symm (past (inv.carried y n earlier).2.1)
    rcases either y n two with ⟨rfl,rfl⟩ | ⟨_,earlier⟩
    · exact absurd eq (past (inv.carried x m before).2.1)
    · exact inv.apart x y m n before earlier eq
  · exact (inv.account m).trans (or_congr .rfl (holds_put (by rw [idle]; rfl) rfl).symm)

lemma enqueue (took : (s.stage t).carries = some m) (opened : (s.boxes i).state = .opened)
    (room : (s.boxes i).slots < (s.boxes i).maxSlots) (sent : List Msg) (more : ∀ n ∈ sent,n = m ∨ n ∈ s.sent) :
    Inv {s.box i {s.boxes i with slots:=(s.boxes i).slots + 1,msgs:=(s.boxes i).msgs ++ [m],enqueued:=(s.boxes i).enqueued ++ [m]} with
      ever:=s.ever ++ [m],stage:=put s.stage t .idle,sent:=sent} := by
  obtain ⟨all,old,unsent,unfailed⟩ := inv.carried t m took
  have held : (s.stage t).holds = none := by cases stage : s.stage t <;> simp_all [Stage.carries,Stage.holds]
  have fine := inv.fine i
  have new : m ∉ s.ever := fun mem => unsent (mem_map_of_mem mem)
  have idle := inv.restage (t := t) .idle (by simp [Stage.carries]) rfl held
  refine ⟨fun j => ?_,fun j => ?_,fun n mem => ?_,?_,fun n mem => ?_,fun n mem => ?_,fun n mem => ?_,fun x n has => ?_,idle.apart,
    fun j n => ?_,fun n mem => ?_,inv.takenOnce,fun j n => ?_,fun j k n one two => ?_,idle.account,inv.delivered⟩
  · refine box_all (P:=fun _ b => b.Fine) ⟨fun _ => ?_,fun _ => room,?_,fine.live,fun shut => absurd opened shut,fun closed => ?_⟩ fun j _ => inv.fine j
    · simp [fine.slots opened]
    · simp [fine.queued]
    cases opened.symm.trans closed
  · exact box_all (P:=fun _ b => b.enqueued.Sublist (s.ever ++ [m])) ((inv.known i).append_right [m]) fun j _ => (inv.known j).trans (sublist_append_left _ _)
  · rcases mem_append.mp mem with pre | last
    · exact inv.numbered n pre
    rw [mem_singleton.mp last]
    exact old
  · rw [map_append,map_singleton]
    exact inv.once.append (by simp) (by simpa using unsent)
  · rcases mem_append.mp mem with pre | last
    · exact inv.whole n pre
    rw [mem_singleton.mp last]
    exact all
  · have pre := inv.failed n mem
    refine ⟨pre.1,?_⟩
    simp only [map_append,map_singleton,mem_append,mem_singleton,not_or]
    refine ⟨pre.2,fun eq => unfailed ?_⟩
    rw [← eq]
    exact mem_map_of_mem mem
  · rcases more n mem with rfl | pre
    · simp
    exact mem_append_left _ (inv.sent n pre)
  · obtain ⟨me,pre⟩ := carries_put rfl has
    obtain ⟨one,two,three,four⟩ := inv.carried x n pre
    refine ⟨one,two,?_,four⟩
    simp only [map_append,map_singleton,mem_append,mem_singleton,not_or]
    exact ⟨three,fun eq => me (inv.apart x t n m pre took eq)⟩
  · exact box_all (P:=fun _ b => n ∈ b.taken → n ∈ s.everTaken) (inv.boxTaken i n) fun j _ => inv.boxTaken j n
  · exact mem_append_left _ (inv.takenEver n mem)
  · refine box_all (P:=fun _ b => n ∈ b.msgs → n ∉ s.everTaken) (fun mem taken => ?_) fun j _ => inv.waiting j n
    rcases mem_append.mp mem with pre | last
    · exact inv.waiting i n pre taken
    exact new (mem_singleton.mp last ▸ inv.takenEver n taken)
  -- a message in two boxes would be an old one in both, or the new one in an old box
  have either (k : Nat) : n ∈ ((s.box i {s.boxes i with slots:=(s.boxes i).slots + 1,msgs:=(s.boxes i).msgs ++ [m],enqueued:=(s.boxes i).enqueued ++ [m]}).boxes k).msgs →
      n ∈ (s.boxes k).msgs ∨ (k = i ∧ n = m) :=
    box_all (P:=fun k b => n ∈ b.msgs → n ∈ (s.boxes k).msgs ∨ (k = i ∧ n = m)) (by simp) fun _ _ => .inl
  rcases either j one with first | ⟨rfl,rfl⟩
  · rcases either k two with second | ⟨_,rfl⟩
    · exact inv.disjoint j k n first second
    exact absurd (inv.queued first) new
  rcases either k two with second | ⟨eq,_⟩
  · exact absurd (inv.queued second) new
  exact eq.symm

lemma take (held : (s.stage t).holds = none) (opened : (s.boxes i).state = .opened) (queue : (s.boxes i).msgs = m :: rest) :
    Inv {s.box i {s.boxes i with slots:=(s.boxes i).slots - 1,msgs:=rest,taken:=(s.boxes i).taken ++ [m]} with
      everTaken:=s.everTaken ++ [m],stage:=put s.stage t (.got m)} := by
  have fine := inv.fine i
  have low : m ∈ (s.boxes i).msgs := by simp [queue]
  have new := inv.waiting i m low
  have nodup : (m :: rest).Nodup := by
    have all := ((inv.known i).map Msg.serial).nodup inv.once
    rw [fine.queued,queue] at all
    exact List.Nodup.of_map _ (all.sublist ((sublist_append_right _ _).map _))
  have fewer (j : Nat) (n : Msg) : n ∈ ((s.box i {s.boxes i with slots:=(s.boxes i).slots - 1,msgs:=rest,taken:=(s.boxes i).taken ++ [m]}).boxes j).msgs →
      n ∈ (s.boxes j).msgs ∧ n ≠ m := by
    refine box_all (P:=fun j b => n ∈ b.msgs → n ∈ (s.boxes j).msgs ∧ n ≠ m) (fun mem => ⟨by rw [queue]; exact mem_cons_of_mem _ mem,?_⟩)
      fun j ne mem => ⟨mem,?_⟩ <;> rintro rfl
    · exact (nodup_cons.mp nodup).1 mem
    exact ne (inv.disjoint j i n mem low)
  refine ⟨fun j => ?_,fun j => ?_,inv.numbered,inv.once,inv.whole,inv.failed,inv.sent,fun x n has => inv.carried x n (carries_put rfl has).2,
    fun x y n k one two => inv.apart x y n k (carries_put rfl one).2 (carries_put rfl two).2,fun j n => ?_,fun n mem => ?_,?_,fun j n mem => ?_,fun j k n one two => ?_,fun n => ?_,inv.delivered⟩
  · have size := fine.slots opened
    have cap := fine.bound opened
    rw [queue,length_cons] at size
    refine box_all (P:=fun _ b => b.Fine) ⟨fun _ => ?_,fun _ => ?_,?_,fine.live,fun shut => absurd opened shut,fun closed => ?_⟩ fun j _ => inv.fine j
    · dsimp only
      omega
    · dsimp only
      omega
    · rw [fine.queued,fine.live opened,queue]
      simp
    cases opened.symm.trans closed
  · exact box_all (P:=fun _ b => b.enqueued.Sublist s.ever) (inv.known i) fun j _ => inv.known j
  · refine box_all (P:=fun _ b => n ∈ b.taken → n ∈ s.everTaken ++ [m]) (fun mem => ?_) fun j _ mem => mem_append_left _ (inv.boxTaken j n mem)
    exact mem_append.mpr ((mem_append.mp mem).imp_left (inv.boxTaken i n))
  · rcases mem_append.mp mem with old | last
    · exact inv.takenEver n old
    rw [mem_singleton.mp last]
    exact inv.queued low
  · exact inv.takenOnce.append (by simp) (by simpa using new)
  · obtain ⟨old,ne⟩ := fewer j n mem
    simp only [mem_append,mem_singleton,not_or]
    exact ⟨inv.waiting j n old,ne⟩
  · exact inv.disjoint j k n (fewer j n one).1 (fewer k n two).1
  simp only [mem_append,mem_singleton,inv.account n]
  constructor
  · rintro ((done | ⟨x,has⟩) | rfl)
    · exact .inl done
    · have me : x ≠ t := by
        rintro rfl
        rw [held] at has
        cases has
      exact .inr ⟨x,by rwa [put_other me]⟩
    exact .inr ⟨t,by rw [put_same]; rfl⟩
  rintro (done | ⟨x,has⟩)
  · exact .inl (.inl done)
  by_cases me : x = t
  · subst me
    rw [put_same] at has
    exact .inr (Option.some.inj has).symm
  rw [put_other me] at has
  exact .inl (.inr ⟨x,has⟩)

lemma store (got : s.stage t = .got m) (ret : Nat → Int) :
    Inv {s with stage:=put s.stage t .idle,ret:=ret,delivered:=⟨t,m.pid,m.data,m⟩ :: s.delivered} := by
  refine {inv with
    carried:=fun x n has => inv.carried x n (carries_put rfl has).2
    apart:=fun x y n k one two => inv.apart x y n k (carries_put rfl one).2 (carries_put rfl two).2,account:=fun n => ?_,delivered:=fun d member => ?_}
  · rw [inv.account n]
    dsimp only
    constructor
    · rintro (⟨d,member,same⟩ | ⟨x,has⟩)
      · exact .inl ⟨d,mem_cons_of_mem _ member,same⟩
      by_cases me : x = t
      · subst me
        rw [got] at has
        exact .inl ⟨_,mem_cons_self ..,Option.some.inj has⟩
      exact .inr ⟨x,by rwa [put_other me]⟩
    rintro (⟨d,member,same⟩ | ⟨x,has⟩)
    · rcases mem_cons.mp member with rfl | pre
      · exact .inr ⟨t,by rw [got,← same]; rfl⟩
      exact .inl ⟨d,pre,same⟩
    have me : x ≠ t := by
      rintro rfl
      rw [put_same] at has
      cases has
    rw [put_other me] at has
    exact .inr ⟨x,has⟩
  rcases mem_cons.mp member with rfl | pre
  · exact ⟨rfl,rfl⟩
  exact inv.delivered d pre

lemma empty {b : Mbox} (fine : b.Fine) (known : b.enqueued.Sublist s.ever) (taken : ∀ m ∈ b.taken,m ∈ s.everTaken)
    (none : b.msgs = []) : Inv (s.box i b) := by
  have old (j : Nat) (m : Msg) : m ∈ ((s.box i b).boxes j).msgs → m ∈ (s.boxes j).msgs :=
    box_all (P:=fun j b => m ∈ b.msgs → m ∈ (s.boxes j).msgs) (by simp [none]) fun _ _ mem => mem
  refine {inv with fine:=fun j => ?_,known:=fun j => ?_,boxTaken:=fun j m => ?_,waiting:=fun j m mem => ?_,disjoint:=fun j k m one two => ?_}
  · exact box_all (P:=fun _ b => b.Fine) fine fun j _ => inv.fine j
  · exact box_all (P:=fun _ b => b.enqueued.Sublist s.ever) known fun j _ => inv.known j
  · exact box_all (P:=fun _ b => m ∈ b.taken → m ∈ s.everTaken) (taken m) fun j _ => inv.boxTaken j m
  · exact inv.waiting j m (old j m mem)
  exact inv.disjoint j k m (old j m one) (old k m two)

end Inv

lemma Aside.finish (aside : Aside s u) (stage : Nat → Stage) (sent : List Msg) (ret : Nat → Int) :
    Aside {s with stage:=stage,sent:=sent} {u with stage:=stage,ret:=ret,sent:=sent} :=
  {aside with stage:=rfl,sent:=rfl}

lemma except_bind {x : Except ε α} {f : α → Except ε β} (ran : (x >>= f) = .ok b) : ∃ a,x = .ok a ∧ f a = .ok b := by
  cases x with
  | error e => cases ran
  | ok a => exact ⟨a,rfl,ran⟩

namespace Inv
variable (inv : Inv s)
include inv

lemma sendLoop (took : (s.stage t).carries = some m) (ran : s.sendLoop t i m = .ok u) : Inv u := by
  have held : (s.stage t).holds = none := by cases stage : s.stage t <;> simp_all [Stage.carries,Stage.holds]
  unfold Post.sendLoop at ran
  dsimp only at ran
  split at ran
  · cases ran
  rename_i opened
  have opened : (s.boxes i).state = .opened := by simpa using opened
  split at ran
  · have queued := inv.aside (Post.box_calm (.queues (s.boxes i) ((s.boxes i).senders ++ [t]) (s.boxes i).receivers))
    have next := queued.restage (t := t) (.sending i m) (fun n eq => eq ▸ took) rfl held
    exact next.aside (Post.sleep_aside ran)
  rename_i room
  obtain ⟨one,added,ran⟩ := except_bind ran
  obtain ⟨two,left,ran⟩ := except_bind ran
  cases ran
  unfold Post.addMsg at added
  dsimp only at added
  rw [if_pos opened] at added
  cases added
  have aside := (Post.wakeupReceiver_aside _ i).trans (Post.leave_aside left)
  have next := inv.enqueue took opened (by omega) (m :: s.sent) (by simp)
  rw [aside.stage,aside.sent]
  exact next.aside (aside.finish _ _ _)

lemma recvFails (held : (s.stage t).holds = none) (ret : Int) : Inv (s.recvFails t ret) := by
  have next := inv.restage (t := t) .idle (by simp [Stage.carries]) rfl held
  exact next.aside ⟨fun _ => .refl _,rfl,rfl,rfl,rfl,rfl,rfl,rfl⟩

lemma recvLoop (held : (s.stage t).holds = none) (ran : s.recvLoop t i size = .ok u) : Inv u := by
  unfold Post.recvLoop at ran
  dsimp only at ran
  split at ran
  · cases ran
  rename_i opened
  have opened : (s.boxes i).state = .opened := by simpa using opened
  split at ran
  · have queued := inv.aside (Post.box_calm (.queues (s.boxes i) (s.boxes i).senders ((s.boxes i).receivers ++ [t])))
    have next := queued.restage (t := t) (.receiving i size) (by simp [Stage.carries]) rfl held
    exact next.aside (Post.sleep_aside ran)
  obtain ⟨_,took,ran⟩ := except_bind ran
  unfold Post.pickMsg at took
  dsimp only at took
  split at took
  · split at took
    · cases took
    rename_i m rest queue
    split at took
    · cases took
      obtain ⟨one,left,ran⟩ := except_bind ran
      cases ran
      have aside := (s.wakeupReceiver_aside i).trans (Post.leave_aside left)
      exact (inv.aside aside).recvFails (by rw [aside.stage]; exact held) _
    cases took
    obtain ⟨_,left,ran⟩ := except_bind ran
    cases ran
    have aside := (Post.wakeupSender_aside _ i).trans (Post.leave_aside left)
    have next := inv.take held opened queue
    rw [aside.stage]
    exact next.aside {aside with stage:=rfl}
  cases took

lemma resumeSend (stage : s.stage t = .sending i m) (ran : s.resumeSend t i m = .ok u) : Inv u := by
  unfold Post.resumeSend at ran
  dsimp only at ran
  have aside := (s.disarm_aside t).trans (Post.box_calm (.queues ((s.disarm t).boxes i) ((s.boxes i).senders.erase t) (s.boxes i).receivers))
  have awake := inv.aside aside
  have took : (s.stage t).carries = some m := by rw [stage]; rfl
  split at ran
  · obtain ⟨_,left,ran⟩ := except_bind ran
    have out := Post.leave_aside left
    split at ran
    · cases ran
      refine (awake.aside out).fails ?_ _
      rw [out.stage]
      exact took
    cases ran
  exact awake.sendLoop took ran

lemma resumeRecv (stage : s.stage t = .receiving i size) (ran : s.resumeRecv t i size = .ok u) : Inv u := by
  unfold Post.resumeRecv at ran
  dsimp only at ran
  have aside := (s.disarm_aside t).trans (Post.box_calm (.queues ((s.disarm t).boxes i) (s.boxes i).senders ((s.boxes i).receivers.erase t)))
  have awake := inv.aside aside
  have held : (s.stage t).holds = none := by rw [stage]; rfl
  split at ran
  · obtain ⟨_,left,ran⟩ := except_bind ran
    cases ran
    have out := Post.leave_aside left
    exact (awake.aside out).recvFails (by rw [out.stage]; exact held) _
  exact awake.recvLoop held ran

lemma run (ran : s.run t = .ok u) : Inv u := by
  unfold Post.run at ran
  split at ran
  case h_1 =>
    cases ran
    exact inv
  case h_2 i m late stage =>
    have took : (s.stage t).carries = some m := by rw [stage]; rfl
    unfold Post.send at ran
    split at ran
    · have aside := (s.arm_aside t late).trans (Post.box_calm (.inuse (s.boxes i) ((s.boxes i).inuse + 1)))
      exact (inv.aside aside).sendLoop took ran
    cases ran
    exact inv.fails took _
  case h_3 i m stage => exact inv.resumeSend stage ran
  case h_4 i size late stage =>
    have held : (s.stage t).holds = none := by rw [stage]; rfl
    unfold Post.recv at ran
    split at ran
    · have aside := (s.arm_aside t late).trans (Post.box_calm (.inuse (s.boxes i) ((s.boxes i).inuse + 1)))
      exact (inv.aside aside).recvLoop held ran
    cases ran
    exact inv.recvFails held _
  case h_5 i size stage => exact inv.resumeRecv stage ran
  case h_6 m stage =>
    have taken : m ∈ s.everTaken := (inv.account m).mpr (.inr ⟨t,by rw [stage]; rfl⟩)
    have all := inv.whole m (inv.takenEver m taken)
    unfold Post.store at ran
    rw [all.stored] at ran
    cases ran
    exact inv.store stage _

lemma free (ran : s.free t i = .ok u) : Inv u := by
  unfold Post.free at ran
  split at ran
  next may =>
    have opened : (s.boxes i).state = .opened := by
      have parts := Bool.and_eq_true_iff.mp may
      simpa using parts.2
    have fine := inv.fine i
    have emptied : Mbox.Fine {s.boxes i with state:=.closing,msgs:=[],discarded:=(s.boxes i).msgs,senders:=[],receivers:=[]} := by
      refine ⟨by simp,by simp,?_,by simp,fun _ => rfl,by simp⟩
      rw [fine.queued,fine.live opened]
      simp
    have next := inv.empty (i := i) emptied (inv.known i) (inv.boxTaken i) rfl
    dsimp only at ran
    split at ran
    · have aside := Post.mboxFree_aside ran
      refine (next.aside ?_).aside aside
      exact ⟨fun _ => .refl _,rfl,rfl,rfl,rfl,rfl,rfl,rfl⟩
    cases ran
    exact next.aside ⟨fun _ => .refl _,rfl,rfl,rfl,rfl,rfl,rfl,rfl⟩
  cases ran
  exact inv.aside ⟨fun _ => .refl _,rfl,rfl,rfl,rfl,rfl,rfl,rfl⟩

lemma init (closed : ∀ i ∈ got,(s.boxes i).state = .closed) (ran : s.init t maxSlots got = .ok u) : Inv u := by
  unfold Post.init at ran
  split at ran
  · cases ran
    exact inv.aside ⟨fun _ => .refl _,rfl,rfl,rfl,rfl,rfl,rfl,rfl⟩
  split at ran
  · cases ran
    exact inv.aside ⟨fun _ => .refl _,rfl,rfl,rfl,rfl,rfl,rfl,rfl⟩
  rename_i i
  cases ran
  have shut := closed i rfl
  have fine := inv.fine i
  have none : (s.boxes i).msgs = [] := fine.dead (by simp [shut])
  have opened : Mbox.Fine {s.boxes i with state:=.opened,maxSlots:=maxSlots,enqueued:=[],taken:=[],discarded:=[]} := by
    refine ⟨fun _ => ?_,fun _ => ?_,by simp [none],fun _ => rfl,by simp,by simp⟩
    · simp [fine.closed shut,none]
    simp [fine.closed shut]
  have next := inv.empty (i := i) opened (nil_sublist _) (by simp) none
  exact next.aside ⟨fun _ => .refl _,rfl,rfl,rfl,rfl,rfl,rfl,rfl⟩

lemma step (moved : s.Move e u) : Inv u := by
  obtain ⟨may,ran⟩ := moved
  cases e with
  | init t _ _ => exact inv.init (fun i mem => (may.2.2 i mem).2) ran
  | free t i => exact inv.free ran
  | load t i _ late =>
    cases ran
    exact inv.load may.2.1 may.2.2.2.1 i late
  | ask t i size late =>
    cases ran
    exact inv.restage (.asking i size late) (by simp [Stage.carries]) rfl (by rw [may.2.1]; rfl)
  | run t => exact inv.run ran
  | tick =>
    simp only [Post.step] at ran
    cases ticked : s.procs.runTimerList with
    | error f =>
      rw [ticked] at ran
      cases ran
    | ok procs =>
      rw [ticked] at ran
      cases ran
      exact inv.aside (s.procs_aside procs)
  | kill t =>
    cases ran
    exact inv.aside (s.procs_aside _)

end Inv

structure Fifo (s : Post) : Prop where
  order : ∀ i,(s.boxes i).taken <+: (s.boxes i).enqueued
  once : ∀ i,((s.boxes i).enqueued.map Msg.serial).Nodup
  slots : ∀ i,(s.boxes i).state = .opened → (s.boxes i).slots = (s.boxes i).msgs.length ∧
    (s.boxes i).slots ≤ (s.boxes i).maxSlots ∧ (s.boxes i).enqueued = (s.boxes i).taken ++ (s.boxes i).msgs
  freed : ∀ i,(s.boxes i).state ≠ .opened → (s.boxes i).enqueued = (s.boxes i).taken ++ (s.boxes i).discarded
  ever : ∀ i,(s.boxes i).enqueued.Sublist s.ever
  failed : ∀ m ∈ s.failed,m.serial ∉ s.ever.map Msg.serial
  sent : ∀ m ∈ s.sent,m ∈ s.ever
  taken : ∀ i,∀ m ∈ (s.boxes i).taken,m ∈ s.everTaken
  takenOnce : s.everTaken.Nodup
  account : ∀ m,m ∈ s.everTaken ↔ (∃ d ∈ s.delivered,d.msg = m) ∨ ∃ t,s.stage t = .got m
  delivered : ∀ d ∈ s.delivered,d.sender = d.msg.pid ∧ d.data = d.msg.data

lemma first_inv : Inv first := by
  refine ⟨fun i => ⟨by simp [first],by simp [first],rfl,by simp [first],fun _ => rfl,fun _ => rfl⟩,fun i => List.Sublist.refl _,?_,?_,?_,?_,?_,?_,?_,?_,?_,?_,?_,?_,?_,?_⟩
  all_goals simp [first,Stage.carries,Stage.holds]

lemma Stage.holds_iff {stage : Stage} : stage.holds = some m ↔ stage = .got m := by cases stage <;> simp [Stage.holds]

lemma Inv.fifo (inv : Inv s) : Fifo s := by
  refine ⟨fun i => ?_,fun i => ((inv.known i).map _).nodup inv.once,fun i opened => ?_,fun i shut => ?_,inv.known,
    fun m mem => (inv.failed m mem).2,inv.sent,inv.boxTaken,inv.takenOnce,fun m => ?_,inv.delivered⟩
  · rw [(inv.fine i).queued,append_assoc]
    exact prefix_append _ _
  · have fine := inv.fine i
    refine ⟨fine.slots opened,fine.bound opened,?_⟩
    rw [fine.queued,fine.live opened,append_nil]
  · have fine := inv.fine i
    rw [fine.queued,fine.dead shut,append_nil]
  rw [inv.account m]
  exact or_congr .rfl (exists_congr fun t => Stage.holds_iff)

def exchange : List Event :=
  [.init 0 1 (some 7),.load 1 7 [1,2,3] 0,.run 1,.load 2 7 [4] 0,.run 2,.ask 3 7 16 0,.run 3,.run 2,.run 3,.ask 3 7 16 0,.run 3,.run 3]

end Ucore.Sync.Mail

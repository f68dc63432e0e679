import Ucore.Sync.Desk

-- The life of a mailbox, and that no wake-up of a sender or receiver is lost.
namespace Ucore.Sync.Mail
open Runs Post

-- sends, recvs: who is in send_msg and recv_msg of the box; extra: how many of them are
-- left out while they run. The dues count the calls of each queue not yet answered.
structure Mbox.Law (b : Mbox) (p : Procs) (sends recvs : Nat → Prop) (extra sendDue recvDue : Nat) : Prop where
  inside : {u | sends u ∨ recvs u}.encard + extra = b.inuse
  apart : ∀ u,sends u → ¬ recvs u
  send : Lines.Law b.senders sends (fun u => p.wakeupFlags u = wtMboxSend) (fun u => p.asleep u = true) sendDue
  recv : Lines.Law b.receivers recvs (fun u => p.wakeupFlags u = wtMboxRecv) (fun u => p.asleep u = true) recvDue
  flags : ∀ u,sends u → p.wakeupFlags u = wtInterrupted ∨ p.wakeupFlags u = wtMboxSend
  slots : b.state = .opened → b.slots = b.msgs.length
  shut : b.state ≠ .opened → b.msgs = [] ∧ b.senders = [] ∧ b.receivers = []
  closing : b.state = .closing → b.inuse ≠ 0
  closed : b.state = .closed → b.inuse = 0 ∧ b.slots = 0
  whole : ∀ m ∈ b.msgs,m.Whole

def Post.sends (s : Post) (i t : Nat) : Prop := ∃ m,s.stage t = .sending i m

def Post.recvs (s : Post) (i t : Nat) : Prop := ∃ size,s.stage t = .receiving i size

def Post.Inside (s : Post) (i t : Nat) : Prop := s.sends i t ∨ s.recvs i t

def Post.Law (s : Post) (i : Nat) : Prop :=
  (s.boxes i).Law s.procs (s.sends i) (s.recvs i) 0 ((s.boxes i).maxSlots - (s.boxes i).slots) (s.boxes i).slots

def Post.Mid (s : Post) (t i extra sendDue recvDue : Nat) : Prop :=
  (s.boxes i).Law s.procs (fun u => u ≠ t ∧ s.sends i u) (fun u => u ≠ t ∧ s.recvs i u) extra sendDue recvDue

section Boxes
variable {b : Mbox} {p q : Procs} {sends recvs : Nat → Prop}

namespace Mbox.Law

lemma frame (law : b.Law p sends recvs extra sendDue recvDue) (same : ∀ u,sends' u ↔ sends u) (alike : ∀ u,recvs' u ↔ recvs u)
    (flags : ∀ u,sends u ∨ recvs u → q.wakeupFlags u = p.wakeupFlags u)
    (woke : ∀ u,sends u ∨ recvs u → q.asleep u = true → p.asleep u = true) :
    b.Law q sends' recvs' extra sendDue recvDue := by
  obtain rfl : sends' = sends := funext fun u => propext (same u)
  obtain rfl : recvs' = recvs := funext fun u => propext (alike u)
  refine {law with send:=?_,recv:=?_,flags:=fun u joined => ?_}
  · exact law.send.frame (fun _ => .rfl) (fun u joined => by rw [flags u (.inl joined)]) fun u joined => woke u (.inl joined)
  · exact law.recv.frame (fun _ => .rfl) (fun u joined => by rw [flags u (.inr joined)]) fun u joined => woke u (.inr joined)
  rw [flags u (.inl joined)]
  exact law.flags u joined

lemma opened {extra sendDue recvDue : Nat} (live : b.state = .opened) (low : {u | sends u ∨ recvs u}.encard + extra = b.inuse) (far : ∀ u,sends u → ¬ recvs u)
    (send : Lines.Law b.senders sends (fun u => p.wakeupFlags u = wtMboxSend) (fun u => p.asleep u = true) sendDue)
    (recv : Lines.Law b.receivers recvs (fun u => p.wakeupFlags u = wtMboxRecv) (fun u => p.asleep u = true) recvDue)
    (flags : ∀ u,sends u → p.wakeupFlags u = wtInterrupted ∨ p.wakeupFlags u = wtMboxSend) (slots : b.slots = b.msgs.length)
    (whole : ∀ m ∈ b.msgs,m.Whole) : b.Law p sends recvs extra sendDue recvDue :=
  ⟨low,far,send,recv,flags,fun _ => slots,fun shut => absurd live shut,fun closing => by simp [live] at closing,fun closed => by simp [live] at closed,whole⟩

section
variable (law : b.Law p sends recvs extra sendDue recvDue)
include law

lemma less (fewer : sendDue' ≤ sendDue) (less : recvDue' ≤ recvDue) : b.Law p sends recvs extra sendDue' recvDue' :=
  {law with send:=law.send.less fewer,recv:=law.recv.less less}

lemma none (idle : b.inuse = 0) : ∀ u,¬ (sends u ∨ recvs u) := by
  have total := law.inside
  rw [idle] at total
  have zero : {u | sends u ∨ recvs u}.encard = 0 := by
    rcases eq_or_ne ({u | sends u ∨ recvs u}.encard) 0 with zero | some
    · exact zero
    simp [some] at total
  intro u low
  have out : u ∉ {u | sends u ∨ recvs u} := by
    rw [Set.encard_eq_zero.mp zero]
    exact Set.notMem_empty u
  exact out low

lemma used (low : sends u ∨ recvs u) : b.inuse ≠ 0 := fun idle => law.none idle u low

end

end Mbox.Law

lemma encard_without (among : Nat → Prop) (t : Nat) (low : among t) : {u | u ≠ t ∧ among u}.encard + 1 = {u | among u}.encard := by
  have same : {u | u ≠ t ∧ among u} = {u | among u} \ {t} := by
    ext u
    simp [and_comm]
  rw [same]
  exact Set.encard_sdiff_singleton_add_one low

end Boxes

structure Touch (s u : Post) (i t : Nat) : Prop where
  boxes : ∀ j,j ≠ i → u.boxes j = s.boxes j
  stage : ∀ x,x ≠ t → u.stage x = s.stage x
  procs : ∀ x,x ≠ t → ¬ s.Inside i x → u.procs.asleep x = s.procs.asleep x ∧ u.procs.wakeupFlags x = s.procs.wakeupFlags x

section Touching
variable {s u w : Post}

section
variable (same : u.stage x = s.stage x) (i : Nat)
include same i

lemma Post.sends_congr : u.sends i x ↔ s.sends i x := by unfold Post.sends; rw [same]

lemma Post.recvs_congr : u.recvs i x ↔ s.recvs i x := by unfold Post.recvs; rw [same]

lemma Post.inside_congr : u.Inside i x ↔ s.Inside i x := or_congr (sends_congr same i) (recvs_congr same i)

end

lemma Post.Inside.same (first : s.Inside i x) (second : s.Inside j x) : i = j := by
  rcases first with ⟨m,one⟩ | ⟨n,one⟩ <;> rcases second with ⟨k,two⟩ | ⟨k,two⟩ <;>
  · rw [one] at two
    cases two
    try rfl

lemma Touch.refl (s : Post) (i t : Nat) : Touch s s i t := ⟨fun _ _ => rfl,fun _ _ => rfl,fun _ _ _ => ⟨rfl,rfl⟩⟩

lemma Touch.trans (first : Touch s u i t) (second : Touch u w i t) : Touch s w i t := by
  refine ⟨fun j other => (second.boxes j other).trans (first.boxes j other),fun x other => (second.stage x other).trans (first.stage x other),fun x other out => ?_⟩
  have one := first.procs x other out
  have two := second.procs x other fun low => out ((inside_congr (first.stage x other) i).mp low)
  exact ⟨two.1.trans one.1,two.2.trans one.2⟩

lemma Touch.law (touch : Touch s u i t) (law : s.Law j) (other : j ≠ i) (old : ¬ s.Inside j t) (new : ¬ u.Inside j t) : u.Law j := by
  have kept (x : Nat) (low : s.Inside j x) : u.procs.asleep x = s.procs.asleep x ∧ u.procs.wakeupFlags x = s.procs.wakeupFlags x := by
    refine touch.procs x ?_ fun here => other (low.same here)
    rintro rfl
    exact old low
  have roles (x : Nat) : (u.sends j x ↔ s.sends j x) ∧ (u.recvs j x ↔ s.recvs j x) := by
    by_cases eq : x = t
    · subst eq
      exact ⟨iff_of_false (fun role => new (.inl role)) fun role => old (.inl role),iff_of_false (fun role => new (.inr role)) fun role => old (.inr role)⟩
    exact ⟨sends_congr (touch.stage x eq) j,recvs_congr (touch.stage x eq) j⟩
  unfold Post.Law
  rw [touch.boxes j other]
  refine Mbox.Law.frame law (fun x => (roles x).1) (fun x => (roles x).2) (fun x low => (kept x low).2) fun x low sleeps => ?_
  rwa [(kept x low).1] at sleeps

lemma Touch.put {b : Mbox} (boxes : u.boxes = put s.boxes i b) (stage : u.stage = s.stage) (asleep : u.procs.asleep = s.procs.asleep)
    (flags : u.procs.wakeupFlags = s.procs.wakeupFlags) : Touch s u i t :=
  ⟨fun _ other => boxes ▸ put_other other,fun _ _ => stage ▸ rfl,fun _ _ _ => ⟨asleep ▸ rfl,flags ▸ rfl⟩⟩

end Touching

section Steps
variable {s u v w : Post}

-- What t's own process is doing does not matter to the others.
lemma Post.Mid.congr (mid : s.Mid t i extra sendDue recvDue) (box : u.boxes i = s.boxes i) (stage : ∀ x ≠ t,u.stage x = s.stage x)
    (procs : ∀ x ≠ t,u.procs.asleep x = s.procs.asleep x ∧ u.procs.wakeupFlags x = s.procs.wakeupFlags x) :
    u.Mid t i extra sendDue recvDue := by
  unfold Post.Mid
  rw [box]
  refine Mbox.Law.frame mid (fun x => ?_) (fun x => ?_) (fun x low => ?_) fun x low sleeps => ?_
  · exact and_congr_right fun other => sends_congr (stage x other) i
  · exact and_congr_right fun other => recvs_congr (stage x other) i
  · rcases low with low | low <;> exact (procs x low.1).2
  rcases low with low | low <;> rwa [(procs x low.1).1] at sleeps

lemma Post.mid_iff (out : ¬ s.Inside i t) : s.Mid t i 0 ((s.boxes i).maxSlots - (s.boxes i).slots) (s.boxes i).slots ↔ s.Law i := by
  have other (x : Nat) (low : s.Inside i x) : x ≠ t := by
    rintro rfl
    exact out low
  have sends (x : Nat) : x ≠ t ∧ s.sends i x ↔ s.sends i x := and_iff_right_of_imp fun role => other x (.inl role)
  have recvs (x : Nat) : x ≠ t ∧ s.recvs i x ↔ s.recvs i x := and_iff_right_of_imp fun role => other x (.inr role)
  simp only [Post.Mid,Post.Law,sends,recvs]

lemma Post.mid_of {b : Mbox} (law : b.Law u.procs (fun x => x ≠ t ∧ s.sends i x) (fun x => x ≠ t ∧ s.recvs i x) extra sendDue recvDue)
    (box : u.boxes i = b) (stage : u.stage = s.stage) : u.Mid t i extra sendDue recvDue := by
  subst box
  exact Mbox.Law.frame law (fun x => and_congr_right fun _ => sends_congr (congrFun stage x) i)
    (fun x => and_congr_right fun _ => recvs_congr (congrFun stage x) i) (fun _ _ => rfl) fun _ _ sleeps => sleeps

lemma Post.Mid.wakeupReceiver (mid : s.Mid t i extra sendDue recvDue) :
    (s.wakeupReceiver i).Mid t i extra sendDue (recvDue + 1) ∧ Touch s (s.wakeupReceiver i) i t ∧ (s.wakeupReceiver i).stage = s.stage ∧
      ∃ rest,(s.wakeupReceiver i).boxes i = {s.boxes i with receivers:=rest} := by
  unfold Post.wakeupReceiver
  split
  next empty =>
    refine ⟨{mid with recv:=?_},.refl s i t,rfl,_,rfl⟩
    have law := mid.recv
    rw [empty] at law ⊢
    exact law.any _
  rename_i head rest line
  have law := mid.recv
  rw [line] at law
  have role := (law.member head (List.mem_cons_self ..)).1
  have self := s.procs.wakeupWait_self head wtMboxRecv
  have others (x : Nat) (other : x ≠ head) := s.procs.wakeupWait_other wtMboxRecv other
  have sender (x : Nat) (sends : x ≠ t ∧ s.sends i x) : x ≠ head := by
    rintro rfl
    exact mid.apart x sends role
  refine ⟨?_,⟨fun j other => put_other other,fun _ _ => rfl,fun x other out => ?_⟩,rfl,rest,put_same ..⟩
  · unfold Post.Mid
    dsimp [Post.box]
    rw [put_same]
    refine {mid with send:=?_,recv:=?_,flags:=fun x sends => ?_,shut:=fun shut => ?_}
    · exact mid.send.frame (fun _ => .rfl) (fun x sends => (others x (sender x sends)).1.congr_left)
        fun x sends => (others x (sender x sends)).2.symm.trans
    · exact law.call self.1 (by simp [self.2]) (fun x _ other => (others x other).1.congr_left) fun x _ other => (others x other).2.symm.trans
    · rw [(others x (sender x sends)).1]
      exact mid.flags x sends
    have parts := mid.shut shut
    rw [line] at parts
    exact absurd parts.2.2 (List.cons_ne_nil _ _)
  have far : x ≠ head := by
    rintro rfl
    exact out (.inr role.2)
  exact ⟨(others x far).2,(others x far).1⟩

lemma Post.Mid.wakeupSender (mid : s.Mid t i extra sendDue recvDue) :
    (s.wakeupSender i).Mid t i extra (sendDue + 1) recvDue ∧ Touch s (s.wakeupSender i) i t ∧ (s.wakeupSender i).stage = s.stage ∧
      ∃ rest,(s.wakeupSender i).boxes i = {s.boxes i with senders:=rest} := by
  unfold Post.wakeupSender
  split
  next empty =>
    refine ⟨{mid with send:=?_},.refl s i t,rfl,_,rfl⟩
    have law := mid.send
    rw [empty] at law ⊢
    exact law.any _
  rename_i head rest line
  have law := mid.send
  rw [line] at law
  have role := (law.member head (List.mem_cons_self ..)).1
  have self := s.procs.wakeupWait_self head wtMboxSend
  have others (x : Nat) (other : x ≠ head) := s.procs.wakeupWait_other wtMboxSend other
  have receiver (x : Nat) (recvs : x ≠ t ∧ s.recvs i x) : x ≠ head := by
    rintro rfl
    exact mid.apart x role recvs
  refine ⟨?_,⟨fun j other => put_other other,fun _ _ => rfl,fun x other out => ?_⟩,rfl,rest,put_same ..⟩
  · unfold Post.Mid
    dsimp [Post.box]
    rw [put_same]
    refine {mid with send:=?_,recv:=?_,flags:=fun x sends => ?_,shut:=fun shut => ?_}
    · exact law.call self.1 (by simp [self.2]) (fun x _ other => (others x other).1.congr_left) fun x _ other => (others x other).2.symm.trans
    · exact mid.recv.frame (fun _ => .rfl) (fun x recvs => (others x (receiver x recvs)).1.congr_left)
        fun x recvs => (others x (receiver x recvs)).2.symm.trans
    · by_cases eq : x = head
      · subst eq
        exact .inr self.1
      rw [(others x eq).1]
      exact mid.flags x sends
    have parts := mid.shut shut
    rw [line] at parts
    exact absurd parts.2.1 (List.cons_ne_nil _ _)
  have far : x ≠ head := by
    rintro rfl
    exact out (.inl role.2)
  exact ⟨(others x far).2,(others x far).1⟩

structure Settled (s u : Post) (i t : Nat) : Prop where
  mid : u.Mid t i 0 ((u.boxes i).maxSlots - (u.boxes i).slots) (u.boxes i).slots
  touch : Touch s u i t
  stage : u.stage = s.stage
  live : (s.boxes i).state = .opened → (u.boxes i).state = .opened

lemma Post.Mid.leave (mid : s.Mid t i 1 ((s.boxes i).maxSlots - (s.boxes i).slots) (s.boxes i).slots)
    (zero : Bool) (fits : (s.boxes i).state = .opened ∨ zero = false) : ∃ u,s.leave i zero = .ok u ∧ Settled s u i t := by
  have count : {x | (x ≠ t ∧ s.sends i x) ∨ (x ≠ t ∧ s.recvs i x)}.encard + 1 = (s.boxes i).inuse := mid.inside
  have used : (s.boxes i).inuse ≠ 0 := by
    intro zero
    rw [zero] at count
    simp at count
  obtain ⟨n,more⟩ := Nat.exists_eq_succ_of_ne_zero used
  have fewer : {x | (x ≠ t ∧ s.sends i x) ∨ (x ≠ t ∧ s.recvs i x)}.encard = n := by
    rw [more] at count
    push_cast at count
    exact WithTop.add_right_cancel ENat.one_ne_top count
  have less : (s.boxes i).inuse - 1 = n := by omega
  have alive : (s.boxes i).state ≠ .closed := fun closed => used (mid.closed closed).1
  have fewer' : {x | (x ≠ t ∧ s.sends i x) ∨ (x ≠ t ∧ s.recvs i x)}.encard + (0 : Nat) = ((s.boxes i).inuse - 1 : Nat) := by
    rw [less]
    simpa using fewer
  -- one fewer is in use
  let b : Mbox := {s.boxes i with inuse:=(s.boxes i).inuse - 1}
  have next (idle : (s.boxes i).state = .opened ∨ n ≠ 0) : Settled s (s.box i b) i t := by
    have law : b.Law s.procs (fun x => x ≠ t ∧ s.sends i x) (fun x => x ≠ t ∧ s.recvs i x) 0
        ((s.boxes i).maxSlots - (s.boxes i).slots) (s.boxes i).slots := by
      refine {mid with inside:=fewer',closing:=fun closing => ?_,closed:=fun closed => absurd closed alive}
      rcases idle with opened | some
      · cases opened.symm.trans closing
      exact fun none => some (less.symm.trans none)
    have box : (s.box i b).boxes i = b := put_same ..
    refine ⟨?_,.put rfl rfl rfl rfl,rfl,fun live => by rw [box]; exact live⟩
    rw [box]
    exact mid_of law box rfl
  unfold Post.leave
  dsimp only
  by_cases opened : (s.boxes i).state = .opened
  · rw [if_pos opened]
    exact ⟨_,rfl,next (.inl opened)⟩
  have closing : (s.boxes i).state = .closing := by
    cases state : (s.boxes i).state with
    | closed => exact absurd state alive
    | opened => exact absurd state opened
    | closing => rfl
  rw [if_neg opened,if_pos ⟨fits.resolve_left opened,closing⟩]
  split
  next last =>
    have parts := mid.shut opened
    let shut : Mbox := {b with state:=.closed,maxSlots:=0,slots:=0}
    have law : shut.Law s.procs (fun x => x ≠ t ∧ s.sends i x) (fun x => x ≠ t ∧ s.recvs i x) 0 0 0 :=
      ⟨fewer',mid.apart,mid.send.less (Nat.zero_le _),mid.recv.less (Nat.zero_le _),mid.flags,by simp,fun _ => parts,by simp,fun _ => ⟨last,rfl⟩,mid.whole⟩
    have freed : (s.box i b).mboxFree i = .ok ((s.box i b).box i shut) := by
      unfold mboxFree
      dsimp [Post.box]
      rw [put_same]
      exact if_pos ⟨closing,last,parts⟩
    have box : ((s.box i b).box i shut).boxes i = shut := put_same ..
    refine ⟨_,freed,?_,.trans (u := s.box i b) (.put rfl rfl rfl rfl) (.put rfl rfl rfl rfl),rfl,fun live => absurd live opened⟩
    rw [box]
    exact mid_of law box rfl
  exact ⟨_,rfl,next (.inr (by omega))⟩

structure Slept (s u : Post) (t : Nat) (x : Stage) : Prop where
  asleep : u.procs.asleep = put s.procs.asleep t true
  flags : u.procs.wakeupFlags = put s.procs.wakeupFlags t wtInterrupted
  stage : u.stage = put s.stage t x

namespace Slept

lemma other (slept : Slept s u t x) (other : y ≠ t) : u.procs.asleep y = s.procs.asleep y ∧ u.procs.wakeupFlags y = s.procs.wakeupFlags y ∧ u.stage y = s.stage y := by
  rw [slept.asleep,slept.flags,slept.stage,put_other other,put_other other,put_other other]
  exact ⟨rfl,rfl,rfl⟩

lemma self (slept : Slept s u t x) : u.stage t = x := by rw [slept.stage]; exact put_same ..

lemma unheard (slept : Slept s u t x) : u.procs.wakeupFlags t = wtInterrupted := by rw [slept.flags]; exact put_same ..

lemma sends (slept : Slept s u t (.sending i m)) (y : Nat) : (u.sends i y ↔ (y ≠ t ∧ s.sends i y) ∨ y = t) ∧ (u.recvs i y ↔ y ≠ t ∧ s.recvs i y) := by
  by_cases eq : y = t
  · subst eq
    simp [Post.sends,Post.recvs,slept.self]
  have same := (slept.other eq).2.2
  simp [sends_congr same i,recvs_congr same i,eq]

lemma recvs (slept : Slept s u t (.receiving i size)) (y : Nat) : (u.recvs i y ↔ (y ≠ t ∧ s.recvs i y) ∨ y = t) ∧ (u.sends i y ↔ y ≠ t ∧ s.sends i y) := by
  by_cases eq : y = t
  · subst eq
    simp [Post.sends,Post.recvs,slept.self]
  have same := (slept.other eq).2.2
  simp [sends_congr same i,recvs_congr same i,eq]

end Slept

lemma encard_with {among : Nat → Prop} {t : Nat} (out : ¬ among t) : {x | among x ∨ x = t}.encard = {x | among x}.encard + 1 := by
  have split : {x | among x ∨ x = t} = insert t {x | among x} := by
    ext x
    exact or_comm
  have absent : t ∉ {x | among x} := out
  rw [split,Set.encard_insert_of_notMem absent]

namespace Post.Mid
variable (mid : s.Mid t i 1 sendDue recvDue)
include mid

-- t puts itself at the end of a queue that no wake-up is due to, and sleeps.
lemma joined (each : ∀ x,u.sends i x ∨ u.recvs i x ↔ ((x ≠ t ∧ s.sends i x) ∨ (x ≠ t ∧ s.recvs i x)) ∨ x = t) :
    {x | u.sends i x ∨ u.recvs i x}.encard + ((0 : Nat) : ENat) = (s.boxes i).inuse := by
  have split : {x | u.sends i x ∨ u.recvs i x} = {x | ((x ≠ t ∧ s.sends i x) ∨ (x ≠ t ∧ s.recvs i x)) ∨ x = t} := Set.ext each
  rw [split,encard_with (by simp)]
  simpa using mid.inside

lemma joinSenders (live : (s.boxes i).state = .opened) (slept : Slept s u t (.sending i m)) :
    Mbox.Law {s.boxes i with senders:=(s.boxes i).senders ++ [t]} u.procs (u.sends i) (u.recvs i) 0 0 recvDue := by
  refine .opened (by exact live) ?_ (fun x sends recvs => ?_) ?_ ?_ (fun x sends => ?_) (mid.slots live) mid.whole
  · refine mid.joined fun x => ?_
    rw [(slept.sends x).1,(slept.sends x).2]
    tauto
  · have role := (slept.sends x).2.mp recvs
    rcases (slept.sends x).1.mp sends with old | eq
    · exact mid.apart x old role
    exact role.1 eq
  · refine mid.send.join (fun role => role.1 rfl) (fun x => (slept.sends x).1) ?_ (fun x role => (slept.other role.1).2.1.congr_left)
      fun x role => (slept.other role.1).1.symm.trans
    rw [slept.unheard]
    decide
  · exact mid.recv.frame (fun x => (slept.sends x).2) (fun x role => (slept.other role.1).2.1.congr_left)
      fun x role => (slept.other role.1).1.symm.trans
  rcases (slept.sends x).1.mp sends with old | rfl
  · rw [(slept.other old.1).2.1]
    exact mid.flags x old
  exact .inl slept.unheard

lemma joinReceivers (live : (s.boxes i).state = .opened) (slept : Slept s u t (.receiving i size)) :
    Mbox.Law {s.boxes i with receivers:=(s.boxes i).receivers ++ [t]} u.procs (u.sends i) (u.recvs i) 0 sendDue 0 := by
  refine .opened (by exact live) ?_ (fun x sends recvs => ?_) ?_ ?_ (fun x sends => ?_) (mid.slots live) mid.whole
  · refine mid.joined fun x => ?_
    rw [(slept.recvs x).1,(slept.recvs x).2]
    tauto
  · have role := (slept.recvs x).2.mp sends
    rcases (slept.recvs x).1.mp recvs with old | eq
    · exact mid.apart x role old
    exact role.1 eq
  · exact mid.send.frame (fun x => (slept.recvs x).2) (fun x role => (slept.other role.1).2.1.congr_left)
      fun x role => (slept.other role.1).1.symm.trans
  · refine mid.recv.join (fun role => role.1 rfl) (fun x => (slept.recvs x).1) ?_ (fun x role => (slept.other role.1).2.1.congr_left)
      fun x role => (slept.other role.1).1.symm.trans
    rw [slept.unheard]
    decide
  have role := (slept.recvs x).2.mp sends
  rw [(slept.other role.1).2.1]
  exact mid.flags x role

end Post.Mid

def Stage.msg : Stage → Option Msg
  | .loaded _ m _ => some m
  | .sending _ m => some m
  | .got m => some m
  | _ => none

structure Done (s u : Post) (i t : Nat) : Prop where
  touch : Touch s u i t
  law : u.Law i
  away : ∀ j,j ≠ i → ¬ u.Inside j t
  live : (s.boxes i).state = .opened → (u.boxes i).state = .opened
  whole : ∀ m,(u.stage t).msg = some m → m.Whole

lemma Post.inside_at (low : s.Inside j t) : (s.stage t).at = some j := by
  rcases low with ⟨m,role⟩ | ⟨size,role⟩
  all_goals
    rw [role]
    rfl

lemma Settled.done (done : Settled s u i t) (procs : w.procs = u.procs) (boxes : w.boxes = u.boxes) (stage : w.stage = put u.stage t x)
    (out : x.at = none) (whole : ∀ m,x.msg = some m → m.Whole) : Done s w i t := by
  have here : w.stage t = x := by
    rw [stage]
    exact put_same ..
  have others (y : Nat) (other : y ≠ t) : w.stage y = u.stage y := by
    rw [stage]
    exact put_other other
  have gone (j : Nat) : ¬ w.Inside j t := by
    intro low
    have spot := inside_at low
    rw [here,out] at spot
    cases spot
  have mid : w.Mid t i 0 ((u.boxes i).maxSlots - (u.boxes i).slots) (u.boxes i).slots := done.mid.congr (congrFun boxes i) others fun _ _ => by rw [procs]; exact ⟨rfl,rfl⟩
  refine ⟨done.touch.trans ⟨fun j _ => congrFun boxes j,others,fun _ _ _ => by rw [procs]; exact ⟨rfl,rfl⟩⟩,?_,fun j _ => gone j,
    fun live => by rw [boxes]; exact done.live live,fun m took => whole m (here ▸ took)⟩
  rw [← mid_iff (gone i)]
  rwa [boxes]

-- sleep does no more than waiting and adding the timer.
lemma Post.sleep_slept (s : Post) (t waitState : Nat) : s.sleep t waitState = .error .timerAdd ∨
    ∃ u,s.sleep t waitState = .ok u ∧ u.procs.asleep = put s.procs.asleep t true ∧
      u.procs.wakeupFlags = put s.procs.wakeupFlags t wtInterrupted ∧ u.boxes = s.boxes ∧ u.stage = s.stage := by
  unfold sleep
  dsimp only
  split
  · exact .inr ⟨_,rfl,rfl,rfl,rfl,rfl⟩
  split
  · exact .inl rfl
  exact .inr ⟨_,rfl,rfl,rfl,rfl,rfl⟩

lemma Slept.touch (slept : Slept s u t x) (boxes : ∀ j ≠ i,u.boxes j = s.boxes j) : Touch s u i t :=
  ⟨boxes,fun _ other => (slept.other other).2.2,fun _ other _ => ⟨(slept.other other).1,(slept.other other).2.1⟩⟩

lemma Slept.done (slept : Slept s u t x) (boxes : ∀ j ≠ i,u.boxes j = s.boxes j) (law : u.Law i) (low : x.at = some i)
    (live : (u.boxes i).state = .opened) (whole : ∀ m,x.msg = some m → m.Whole) : Done s u i t := by
  refine ⟨slept.touch boxes,law,fun j other role => ?_,fun _ => live,fun m took => whole m (slept.self ▸ took)⟩
  have at_j := inside_at role
  rw [slept.self,low] at at_j
  cases at_j
  exact other rfl

def Post.Goes (s : Post) (i t : Nat) (r : Except Fault Post) : Prop := r = .error .timerAdd ∨ ∃ u,r = .ok u ∧ Done s u i t

lemma Post.Goes.after {r : Except Fault Post} (goes : v.Goes i t r) (touch : Touch s v i t) (state : (v.boxes i).state = (s.boxes i).state) : s.Goes i t r :=
  goes.imp_right fun ⟨u,ran,done⟩ => ⟨u,ran,{done with touch:=touch.trans done.touch,live:=fun live => done.live (state.trans live)}⟩

lemma Post.queued (b : Mbox) (x : Stage) (live : b.state = .opened) (low : x.at = some i) (whole : ∀ m,x.msg = some m → m.Whole) (waitState : Nat)
    (law : ∀ u : Post,Slept s u t x → b.Law u.procs (u.sends i) (u.recvs i) 0 (b.maxSlots - b.slots) b.slots) :
    s.Goes i t ({s.box i b with stage:=put s.stage t x}.sleep t waitState) := by
  rcases sleep_slept {s.box i b with stage:=put s.stage t x} t waitState with fault | ⟨u,ran,asleep,flags,boxes,stage⟩
  · exact .inl fault
  have slept : Slept s u t x := ⟨asleep,flags,stage⟩
  have box : u.boxes i = b := by
    rw [boxes]
    exact put_same ..
  refine .inr ⟨u,ran,slept.done (fun j other => ?_) ?_ low (by rw [box]; exact live) whole⟩
  · rw [boxes]
    exact put_other other
  unfold Post.Law
  rw [box]
  exact law u slept

lemma Post.Mid.added {added : Mbox} (mid : s.Mid t i extra sendDue recvDue) (live : (s.boxes i).state = .opened) (whole : m.Whole)
    (same : added = {s.boxes i with slots:=(s.boxes i).slots + 1,msgs:=added.msgs,enqueued:=added.enqueued})
    (msgs : added.msgs = (s.boxes i).msgs ++ [m] ∨ added.msgs = m :: (s.boxes i).msgs)
    (procs : v.procs = s.procs) (boxes : v.boxes = put s.boxes i added) (stage : v.stage = s.stage) :
    (v.wakeupReceiver i).Mid t i extra sendDue (recvDue + 1) ∧ Touch s (v.wakeupReceiver i) i t ∧ (v.wakeupReceiver i).stage = s.stage ∧
      ((v.wakeupReceiver i).boxes i).state = .opened ∧ ((v.wakeupReceiver i).boxes i).slots = (s.boxes i).slots + 1 ∧
      ((v.wakeupReceiver i).boxes i).maxSlots = (s.boxes i).maxSlots := by
  have box : v.boxes i = added := by
    rw [boxes]
    exact put_same ..
  have shape : added.state = .opened ∧ added.slots = (s.boxes i).slots + 1 ∧ added.maxSlots = (s.boxes i).maxSlots := by
    rw [same]
    exact ⟨live,rfl,rfl⟩
  have law : added.Law v.procs (fun x => x ≠ t ∧ s.sends i x) (fun x => x ≠ t ∧ s.recvs i x) extra sendDue recvDue := by
    rw [procs]
    refine .opened (by exact shape.1) ?_ mid.apart ?_ ?_ mid.flags ?_ fun k member => ?_
    · rw [same]
      exact mid.inside
    · rw [same]
      exact mid.send
    · rw [same]
      exact mid.recv
    · have old := mid.slots live
      rw [shape.2.1]
      rcases msgs with last | front
      · simp [last,old]
      simp [front,old]
    have which : k ∈ (s.boxes i).msgs ∨ k = m := by
      rcases msgs with last | front
      · rw [last] at member
        simpa using member
      rw [front] at member
      exact (List.mem_cons.mp member).symm
    rcases which with old | rfl
    · exact mid.whole k old
    exact whole
  have next : v.Mid t i extra sendDue recvDue := mid_of law box stage
  obtain ⟨woken,touch,kept,rest,shaped⟩ := next.wakeupReceiver
  rw [shaped,box]
  exact ⟨woken,.trans (.put boxes stage (procs ▸ rfl) (procs ▸ rfl)) touch,kept.trans stage,shape⟩

lemma Post.addMsg_mid (mid : s.Mid t i extra sendDue recvDue) (live : (s.boxes i).state = .opened) (whole : m.Whole) :
    ∃ u,s.addMsg i m = .ok u ∧ u.Mid t i extra sendDue (recvDue + 1) ∧ Touch s u i t ∧ u.stage = s.stage ∧ (u.boxes i).state = .opened ∧
      (u.boxes i).slots = (s.boxes i).slots + 1 ∧ (u.boxes i).maxSlots = (s.boxes i).maxSlots := by
  refine ⟨_,if_pos live,?_⟩
  exact mid.added live whole rfl (.inl rfl) rfl rfl rfl

lemma Post.Mid.settles (next : v.Mid t i 1 sendDue recvDue) (touch : Touch s v i t) (stage : v.stage = s.stage)
    (opened : (v.boxes i).state = .opened) (free : (v.boxes i).maxSlots - (v.boxes i).slots ≤ sendDue) (full : (v.boxes i).slots ≤ recvDue)
    (zero : Bool) : ∃ w,v.leave i zero = .ok w ∧ Settled s w i t := by
  have due : v.Mid t i 1 ((v.boxes i).maxSlots - (v.boxes i).slots) (v.boxes i).slots := Mbox.Law.less next free full
  obtain ⟨w,left,done⟩ := due.leave zero (.inl opened)
  exact ⟨w,left,done.mid,touch.trans done.touch,done.stage.trans stage,fun _ => done.live opened⟩

lemma Post.sendLoop_done (mid : s.Mid t i 1 ((s.boxes i).maxSlots - (s.boxes i).slots - 1) (s.boxes i).slots)
    (live : (s.boxes i).state = .opened) (whole : m.Whole) :
    s.Goes i t (s.sendLoop t i m) := by
  unfold sendLoop
  dsimp only
  rw [if_neg (not_not.mpr live)]
  split
  · -- the box is full, so that no free slot is owed to the senders
    have none : (s.boxes i).maxSlots - (s.boxes i).slots = 0 := by omega
    refine queued {s.boxes i with senders:=(s.boxes i).senders ++ [t]} (.sending i m) live rfl (fun k took => ?_) _ fun u slept => ?_
    · cases took
      exact whole
    dsimp only
    rw [none]
    exact mid.joinSenders live slept
  right
  obtain ⟨v,added,next,touch,stage,opened,slots,bound⟩ := addMsg_mid mid live whole
  obtain ⟨w,left,all⟩ := next.settles touch stage opened (by omega) (by omega) true
  refine ⟨{w with stage:=put w.stage t .idle,ret:=put w.ret t 0,sent:=m :: w.sent},?_,all.done rfl rfl rfl rfl (by simp [Stage.msg])⟩
  simp [added,left,bind,Except.bind]

lemma Post.pickMsg_mid (mid : s.Mid t i 1 sendDue recvDue) (live : (s.boxes i).state = .opened) (pos : (s.boxes i).slots ≠ 0) (size : Nat) :
    s.pickMsg i size = .ok (none,s) ∨ ∃ m u,s.pickMsg i size = .ok (some m,u) ∧ m.Whole ∧ u.Mid t i 1 (sendDue + 1) recvDue ∧ Touch s u i t ∧ u.stage = s.stage ∧
        (u.boxes i).state = .opened ∧ (u.boxes i).slots = (s.boxes i).slots - 1 ∧ (u.boxes i).maxSlots = (s.boxes i).maxSlots := by
  unfold pickMsg
  dsimp only
  rw [if_pos ⟨live,Nat.pos_of_ne_zero pos⟩]
  have count := mid.slots live
  split
  next none =>
    rw [none] at count
    exact absurd count pos
  rename_i m rest line
  split
  · exact .inl rfl
  right
  refine ⟨m,_,rfl,mid.whole m (by rw [line]; exact List.mem_cons_self ..),?_⟩
  let b : Mbox := {s.boxes i with slots:=(s.boxes i).slots - 1,msgs:=rest,taken:=(s.boxes i).taken ++ [m]}
  have law : b.Law s.procs (fun x => x ≠ t ∧ s.sends i x) (fun x => x ≠ t ∧ s.recvs i x) 1 sendDue recvDue := by
    refine .opened (by exact live) mid.inside mid.apart mid.send mid.recv mid.flags ?_
      fun k member => mid.whole k (by rw [line]; exact List.mem_cons_of_mem _ member)
    rw [line] at count
    simp [b,count]
  have next : Post.Mid {s.box i b with everTaken:=s.everTaken ++ [m]} t i 1 sendDue recvDue := mid_of law (put_same ..) rfl
  obtain ⟨woken,touch,stage,queue,box⟩ := next.wakeupSender
  have same : {s.box i b with everTaken:=s.everTaken ++ [m]}.boxes i = b := put_same ..
  rw [same] at box
  refine ⟨woken,.trans (u := {s.box i b with everTaken:=s.everTaken ++ [m]}) (.put rfl rfl rfl rfl) touch,stage,?_⟩
  rw [box]
  exact ⟨live,rfl,rfl⟩

lemma Post.recvLoop_done (mid : s.Mid t i 1 ((s.boxes i).maxSlots - (s.boxes i).slots) ((s.boxes i).slots - 1))
    (live : (s.boxes i).state = .opened) (size : Nat) :
    s.Goes i t (s.recvLoop t i size) := by
  unfold recvLoop
  dsimp only
  rw [if_neg (not_not.mpr live)]
  split
  next zero =>
    exact queued {s.boxes i with receivers:=(s.boxes i).receivers ++ [t]} (.receiving i size) live rfl (by simp [Stage.msg]) _
      fun u slept => Mbox.Law.less (mid.joinReceivers live slept) le_rfl zero.le
  rename_i some
  right
  rcases pickMsg_mid mid live some size with large | ⟨m,v,picked,whole,next,touch,stage,opened,slots,bound⟩
  · -- too big for t: the wake-up t may have had goes to the next receiver
    obtain ⟨woken,touch,stage,rest,box⟩ := mid.wakeupReceiver
    have shape : ((s.wakeupReceiver i).boxes i).state = .opened ∧ ((s.wakeupReceiver i).boxes i).slots = (s.boxes i).slots ∧
        ((s.wakeupReceiver i).boxes i).maxSlots = (s.boxes i).maxSlots := by
      rw [box]
      exact ⟨live,rfl,rfl⟩
    obtain ⟨w,left,all⟩ := woken.settles touch stage shape.1 (by omega) (by omega) false
    refine ⟨w.recvFails t eTooBig,?_,all.done rfl rfl rfl rfl (by simp [Stage.msg])⟩
    simp [large,left,bind,Except.bind]
  obtain ⟨w,left,all⟩ := next.settles touch stage opened (by omega) (by omega) true
  refine ⟨{w with stage:=put w.stage t (.got m)},?_,all.done rfl rfl rfl rfl ?_⟩
  · simp [picked,left,bind,Except.bind]
  rintro k took
  cases took
  exact whole

namespace Post.Law

lemma enter (law : s.Law i) (out : ¬ s.Inside i t) (live : (s.boxes i).state = .opened) (late : Nat) :
    Post.Mid ((s.arm t late).box i {s.boxes i with inuse:=(s.boxes i).inuse + 1}) t i 1
      ((s.boxes i).maxSlots - (s.boxes i).slots) (s.boxes i).slots := by
  have mid := (mid_iff out).mpr law
  refine mid_of (s := s) ?_ (put_same ..) rfl
  refine .opened (by exact live) ?_ mid.apart mid.send mid.recv mid.flags (mid.slots live) mid.whole
  have old := mid.inside
  push_cast at old ⊢
  rw [← old,add_zero]

-- Everybody in the box but t.
lemma others (law : s.Law i) (low : s.Inside i t) : {x | (x ≠ t ∧ s.sends i x) ∨ (x ≠ t ∧ s.recvs i x)}.encard + ((1 : Nat) : ENat) = (s.boxes i).inuse := by
  have split : {x | (x ≠ t ∧ s.sends i x) ∨ (x ≠ t ∧ s.recvs i x)} = {x | x ≠ t ∧ s.Inside i x} := by
    ext x
    exact and_or_left.symm
  rw [split]
  have old := law.inside
  simpa using (encard_without (s.Inside i) t low).trans (by simpa [Post.Inside] using old)

-- t has been woken in send_msg and takes itself out of the queue, if it is still there.
lemma wakeSender (law : s.Law i) (stage : s.stage t = .sending i m) (due : s.procs.wakeupFlags t ≠ wtMboxSend ∧ paid = 0 ∨ paid = 1) :
    Post.Mid ((s.disarm t).box i {s.boxes i with senders:=(s.boxes i).senders.erase t}) t i 1
      ((s.boxes i).maxSlots - (s.boxes i).slots - paid) (s.boxes i).slots := by
  have sends : s.sends i t := ⟨m,stage⟩
  have nor : ¬ s.recvs i t := law.apart t sends
  refine mid_of (s := s) ?_ (put_same ..) rfl
  refine ⟨?_,fun x role other => law.apart x role.2 other.2,?_,?_,fun x role => law.flags x role.2,law.slots,fun shut => ?_,law.closing,law.closed,law.whole⟩
  · exact law.others (.inl sends)
  · rcases due with ⟨quiet,rfl⟩ | rfl
    · exact law.send.quit quiet fun _ => .rfl
    exact law.send.depart t fun _ => .rfl
  · refine law.recv.recast fun x => ⟨fun role => role.2,fun role => ⟨?_,role⟩⟩
    rintro rfl
    exact nor role
  have parts := law.shut shut
  simp [parts]

lemma wakeReceiver (law : s.Law i) (stage : s.stage t = .receiving i size) (due : s.procs.wakeupFlags t ≠ wtMboxRecv ∧ paid = 0 ∨ paid = 1) :
    Post.Mid ((s.disarm t).box i {s.boxes i with receivers:=(s.boxes i).receivers.erase t}) t i 1
      ((s.boxes i).maxSlots - (s.boxes i).slots) ((s.boxes i).slots - paid) := by
  have recvs : s.recvs i t := ⟨size,stage⟩
  have nor : ¬ s.sends i t := fun sends => law.apart t sends recvs
  refine mid_of (s := s) ?_ (put_same ..) rfl
  refine ⟨?_,fun x role other => law.apart x role.2 other.2,?_,?_,fun x role => law.flags x role.2,law.slots,fun shut => ?_,law.closing,law.closed,law.whole⟩
  · exact law.others (.inr recvs)
  · refine law.send.recast fun x => ⟨fun role => role.2,fun role => ⟨?_,role⟩⟩
    rintro rfl
    exact nor role
  · rcases due with ⟨quiet,rfl⟩ | rfl
    · exact law.recv.quit quiet fun _ => .rfl
    exact law.recv.depart t fun _ => .rfl
  have parts := law.shut shut
  simp [parts]

end Post.Law

-- The queues of a box that is not open are empty, so no wake-up is due to them.
lemma Post.Mid.shutDue (mid : s.Mid t i extra sendDue recvDue) (shut : (s.boxes i).state ≠ .opened) (sendDue' recvDue' : Nat) : s.Mid t i extra sendDue' recvDue' := by
  have parts := mid.shut shut
  have senders := mid.send
  have receivers := mid.recv
  refine {mid with send:=?_,recv:=?_}
  · rw [parts.2.1] at senders ⊢
    exact senders.any _
  rw [parts.2.2] at receivers ⊢
  exact receivers.any _

namespace Post

lemma resumed (b : Mbox) (state : b.state = (s.boxes i).state) (flag : Nat) (loop rest : Post → Except Fault Post) (fails : Post → Post)
    (mid : (s.boxes i).state ≠ .opened ∨ s.procs.wakeupFlags t ≠ flag → Post.Mid ((s.disarm t).box i b) t i 1 (b.maxSlots - b.slots) b.slots)
    (ends : ∀ w,rest w = .ok (fails w) ∧ (fails w).procs = w.procs ∧ (fails w).boxes = w.boxes ∧ (fails w).stage = put w.stage t .idle)
    (goes : b.state = .opened → Post.Goes ((s.disarm t).box i b) i t (loop ((s.disarm t).box i b))) :
    s.Goes i t (if (((s.disarm t).box i b).boxes i).state ≠ .opened ∨ s.procs.wakeupFlags t ≠ flag then ((s.disarm t).box i b).leave i false >>= rest
      else loop ((s.disarm t).box i b)) := by
  have box : ((s.disarm t).box i b).boxes i = b := put_same ..
  have same : (((s.disarm t).box i b).boxes i).state = (s.boxes i).state := (congrArg Mbox.state box).trans state
  refine Post.Goes.after (v := (s.disarm t).box i b) ?_ (.put rfl rfl rfl rfl) same
  rw [same]
  split
  next leaves =>
    have ready := mid leaves
    rw [← congrArg Mbox.maxSlots box,← congrArg Mbox.slots box] at ready
    obtain ⟨w,left,done⟩ := ready.leave false (.inr rfl)
    obtain ⟨ran,procs,boxes,stage⟩ := ends w
    refine .inr ⟨fails w,?_,done.done procs boxes stage rfl (by simp [Stage.msg])⟩
    rw [left]
    exact ran
  rename_i stays
  refine goes ?_
  rw [state]
  by_contra shut
  exact stays (.inl shut)

lemma resumeSend_done (law : s.Law i) (stage : s.stage t = .sending i m) (whole : m.Whole) : s.Goes i t (s.resumeSend t i m) := by
  have woken := law.wakeSender stage (.inr rfl)
  have box : ((s.disarm t).box i {s.boxes i with senders:=(s.boxes i).senders.erase t}).boxes i = {s.boxes i with senders:=(s.boxes i).senders.erase t} := put_same ..
  refine resumed {s.boxes i with senders:=(s.boxes i).senders.erase t} rfl wtMboxSend (fun v => v.sendLoop t i m) _
    (fun w => w.sendFails t m (checkTimeout (w.timeout t) (w.saved t) w.procs.ticks)) (fun ends => ?_)
    (fun w => ⟨if_pos (law.flags t ⟨m,stage⟩).symm,rfl,rfl,rfl⟩) fun live => ?_
  · rcases ends with shut | quiet
    · exact woken.shutDue (by rw [box]; exact shut) _ _
    exact law.wakeSender stage (.inl ⟨quiet,rfl⟩)
  refine sendLoop_done ?_ (by rw [box]; exact live) whole
  rw [box]
  exact woken

lemma resumeRecv_done (law : s.Law i) (stage : s.stage t = .receiving i size) : s.Goes i t (s.resumeRecv t i size) := by
  have woken := law.wakeReceiver stage (.inr rfl)
  have box : ((s.disarm t).box i {s.boxes i with receivers:=(s.boxes i).receivers.erase t}).boxes i =
    {s.boxes i with receivers:=(s.boxes i).receivers.erase t} := put_same ..
  refine resumed {s.boxes i with receivers:=(s.boxes i).receivers.erase t} rfl wtMboxRecv (fun v => v.recvLoop t i size) _
    (fun w => w.recvFails t (checkTimeout (w.timeout t) (w.saved t) w.procs.ticks)) (fun ends => ?_) (fun w => ⟨rfl,rfl,rfl,rfl⟩) fun live => ?_
  · rcases ends with shut | quiet
    · exact woken.shutDue (by rw [box]; exact shut) _ _
    exact law.wakeReceiver stage (.inl ⟨quiet,rfl⟩)
  refine recvLoop_done ?_ (by rw [box]; exact live) size
  rw [box]
  exact woken

lemma isOpen_state (may : isOpen s i = true) : (s.boxes i).state = .opened := by
  have parts := Bool.and_eq_true_iff.mp may
  simpa using parts.2

lemma Law.entered (law : s.Law i) (loop : Post → Except Fault Post) (out : ¬ s.Inside i t) (may : s.isOpen i = true) (late : Nat)
    (goes : ∀ v : Post,v.Mid t i 1 ((v.boxes i).maxSlots - (v.boxes i).slots) (v.boxes i).slots → (v.boxes i).state = .opened → v.Goes i t (loop v)) :
    s.Goes i t (loop ((s.arm t late).box i {s.boxes i with inuse:=(s.boxes i).inuse + 1})) := by
  have live := isOpen_state may
  have mid := law.enter out live late
  have box : ((s.arm t late).box i {s.boxes i with inuse:=(s.boxes i).inuse + 1}).boxes i = {s.boxes i with inuse:=(s.boxes i).inuse + 1} := put_same ..
  have state := congrArg Mbox.state box
  refine (goes _ ?_ (state.trans live)).after (.put rfl rfl rfl rfl) state
  rw [box]
  exact mid

lemma send_done {late : Nat} (law : s.Law i) (stage : s.stage t = .loaded i m late) (may : s.isOpen i = true) (whole : m.Whole) : s.Goes i t (s.send t i m late) := by
  have out : ¬ s.Inside i t := by rintro (⟨k,role⟩ | ⟨k,role⟩) <;> simp [stage] at role
  unfold send
  rw [if_pos may]
  exact law.entered (fun v => v.sendLoop t i m) out may late fun v mid live => sendLoop_done (Mbox.Law.less mid (Nat.sub_le _ _) le_rfl) live whole

lemma recv_done {late : Nat} (law : s.Law i) (stage : s.stage t = .asking i size late) (may : s.isOpen i = true) : s.Goes i t (s.recv t i size late) := by
  have out : ¬ s.Inside i t := by rintro (⟨k,role⟩ | ⟨k,role⟩) <;> simp [stage] at role
  unfold recv
  rw [if_pos may]
  exact law.entered (fun v => v.recvLoop t i size) out may late fun v mid live => recvLoop_done (Mbox.Law.less mid le_rfl (Nat.sub_le _ _)) live size

end Post

end Steps

section Freeing
variable {s u : Post}

lemma wakeupAll_queue (p : Procs) (line : List Nat) : wakeupAll p line = p.wakeupQueue wtInterrupted line := by
  induction line generalizing p with
  | nil => rfl
  | cons head rest ih => exact ih (p.wakeupWait head wtInterrupted)

lemma wakeupAll_other (p : Procs) (line : List Nat) (out : x ∉ line) : (wakeupAll p line).asleep x = p.asleep x ∧ (wakeupAll p line).wakeupFlags x = p.wakeupFlags x := by
  rw [wakeupAll_queue]
  exact p.wakeupQueue_other wtInterrupted out

-- Those in the line are awake after it, and know it was no message.
lemma wakeupAll_member (p : Procs) (line : List Nat) (low : x ∈ line) : (wakeupAll p line).asleep x = false ∧ (wakeupAll p line).wakeupFlags x = wtInterrupted := by
  rw [wakeupAll_queue]
  exact p.wakeupQueue_member wtInterrupted low

def Post.emptied (s : Post) (t i : Nat) : Post :=
  {s.box i {s.boxes i with state:=.closing,msgs:=[],discarded:=(s.boxes i).msgs,senders:=[],receivers:=[]} with
    procs:=wakeupAll (wakeupAll s.procs (s.boxes i).senders) (s.boxes i).receivers
    ret:=put s.ret t 0}

lemma Post.Law.drained (law : s.Law i) (x : Nat) (low : s.Inside i x) : ((s.emptied t i).procs.asleep x = false) ∧
      ((s.emptied t i).procs.wakeupFlags x = wtInterrupted ∨ (s.emptied t i).procs.wakeupFlags x = s.procs.wakeupFlags x) := by
  dsimp [emptied]
  by_cases receiver : x ∈ (s.boxes i).receivers
  · have done := wakeupAll_member (wakeupAll s.procs (s.boxes i).senders) _ receiver
    exact ⟨done.1,.inl done.2⟩
  have kept := wakeupAll_other (wakeupAll s.procs (s.boxes i).senders) _ receiver
  rw [kept.1,kept.2]
  by_cases sender : x ∈ (s.boxes i).senders
  · have done := wakeupAll_member s.procs _ sender
    exact ⟨done.1,.inl done.2⟩
  have same := wakeupAll_other s.procs _ sender
  rw [same.1,same.2]
  refine ⟨?_,.inr rfl⟩
  cases sleeps : s.procs.asleep x with
  | false => rfl
  | true =>
    rcases low with role | role
    · exact absurd (law.send.slept x role sleeps) sender
    exact absurd (law.recv.slept x role sleeps) receiver

lemma Post.Law.emptied (law : s.Law i) (new : State) (n k : Nat)
    (which : new = .closing ∧ (s.boxes i).inuse ≠ 0 ∨ new = .closed ∧ (s.boxes i).inuse = 0 ∧ k = 0) :
    Mbox.Law {s.boxes i with state:=new,maxSlots:=n,slots:=k,msgs:=[],discarded:=(s.boxes i).msgs,senders:=[],receivers:=[]}
      (s.emptied t i).procs (s.sends i) (s.recvs i) 0 (n - k) k := by
  refine ⟨law.inside,law.apart,.empty _ fun x role => ?_,.empty _ fun x role => ?_,fun x role => ?_,fun opened => ?_,fun _ => ⟨rfl,rfl,rfl⟩,
    fun closing => ?_,fun shut => ?_,by simp⟩
  · simp [(law.drained (t := t) x (.inl role)).1]
  · simp [(law.drained (t := t) x (.inr role)).1]
  · rcases (law.drained (t := t) x (.inl role)).2 with woken | same
    · exact .inl woken
    rw [same]
    exact law.flags x role
  all_goals rcases which with ⟨rfl,used⟩ | ⟨rfl,idle,none⟩
  · cases opened
  · cases opened
  · exact used
  · cases closing
  · cases shut
  exact ⟨idle,none⟩

end Freeing

end Ucore.Sync.Mail

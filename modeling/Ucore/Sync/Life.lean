import Ucore.Sync.Cycle

-- Runs of the mailboxes: every box is counted, returned once and never left with a
-- wake-up owed to a sleeping process.
namespace Ucore.Sync.Mail
open Runs Desk Post Stage
open Except (map)
open List hiding map

structure Sound (s : Post) : Prop where
  boxes : ∀ i,s.Law i
  whole : ∀ t m,(s.stage t).msg = some m → m.Whole

section Calls
variable {s u : Post}

lemma Sound.done (sound : Sound s) (old : ∀ j ≠ i,¬ s.Inside j t) (done : Done s u i t) : Sound u := by
  refine ⟨fun j => ?_,fun x m took => ?_⟩
  · by_cases eq : j = i
    · subst eq
      exact done.law
    exact done.touch.law (sound.boxes j) eq (old j eq) (done.away j eq)
  by_cases eq : x = t
  · subst eq
    exact done.whole m took
  rw [done.touch.stage x eq] at took
  exact sound.whole x m took

lemma Sound.aside (sound : Sound s) (boxes : u.boxes = s.boxes) (sends : ∀ i x,u.sends i x ↔ s.sends i x) (recvs : ∀ i x,u.recvs i x ↔ s.recvs i x)
    (flags : ∀ x,u.procs.wakeupFlags x = s.procs.wakeupFlags x) (woke : ∀ x,u.procs.asleep x = true → s.procs.asleep x = true)
    (all : ∀ x m,(u.stage x).msg = some m → m.Whole) : Sound u := by
  refine ⟨fun i => ?_,all⟩
  unfold Post.Law
  rw [boxes]
  exact Mbox.Law.frame (sound.boxes i) (sends i) (recvs i) (fun x _ => flags x) fun x _ => woke x

lemma put_congr {f : Nat → α} {p : α → Prop} (kept : p v ↔ p (f t)) (x : Nat) : p (put f t v x) ↔ p (f x) := by
  by_cases eq : x = t
  · subst eq
    rw [put_same]
    exact kept
  rw [put_other eq]

lemma Sound.restage (sound : Sound s) (out : ∀ i,¬ s.Inside i t) (procs : u.procs = s.procs) (boxes : u.boxes = s.boxes)
    (stage : u.stage = put s.stage t x) (outside : ∀ i m,x ≠ .sending i m) (off : ∀ i n,x ≠ .receiving i n) (all : ∀ m,x.msg = some m → m.Whole) :
    Sound u := by
  refine sound.aside boxes (fun i y => ?_) (fun i y => ?_) (fun y => by rw [procs]) (fun y sleeps => by rwa [procs] at sleeps) fun y m took => ?_
  · unfold Post.sends
    rw [stage]
    exact put_congr (p := fun stage => ∃ m,stage = Stage.sending i m) (iff_of_false (fun role => role.elim (outside i)) fun role => out i (.inl role)) y
  · unfold Post.recvs
    rw [stage]
    exact put_congr (p := fun stage => ∃ n,stage = Stage.receiving i n) (iff_of_false (fun role => role.elim (off i)) fun role => out i (.inr role)) y
  rw [stage] at took
  exact put_all (P:=fun _ (x : Stage) => x.msg = some m → m.Whole) (all m) (fun y _ => sound.whole y m) y took

structure Ran (s u : Post) (i t : Nat) : Prop where
  sound : Sound u
  boxes : ∀ j,j ≠ i → u.boxes j = s.boxes j
  stage : ∀ x,x ≠ t → u.stage x = s.stage x
  closes : (u.boxes i).state = .closed → (s.boxes i).state = .closed ∨ (s.boxes i).state = .closing ∧ s.Inside i t
  stays : (s.boxes i).state = .closed → (u.boxes i).state = .closed

lemma Sound.alive (sound : Sound s) (low : s.Inside i t) : (s.boxes i).state ≠ .closed := by
  intro shut
  have law := sound.boxes i
  exact law.used low (law.closed shut).1

lemma Sound.ran (sound : Sound s) (old : ∀ j ≠ i,¬ s.Inside j t) (done : Done s u i t) (live : (s.boxes i).state = .opened ∨ s.Inside i t) : Ran s u i t := by
  refine ⟨sound.done old done,done.touch.boxes,done.touch.stage,fun closed => ?_,fun closed => ?_⟩
  · cases state : (s.boxes i).state with
    | closed => exact .inl rfl
    | opened =>
      rw [done.live state] at closed
      cases closed
    | closing =>
      rw [state] at live
      exact .inr ⟨rfl,live.resolve_left (by simp)⟩
  rcases live with opened | low
  · rw [opened] at closed
    cases closed
  exact absurd closed (sound.alive low)

lemma Post.out_of_at (out : ∀ m,s.stage t ≠ .sending i m) (off : ∀ n,s.stage t ≠ .receiving i n) : ¬ s.Inside i t := by
  rintro (⟨m,role⟩ | ⟨n,role⟩)
  · exact out m role
  exact off n role

namespace Sound
variable (sound : Sound s)
include sound

lemma run (spot : (s.stage t).at = some i) :
    s.run t = .error .timerAdd ∨ ∃ u,s.run t = .ok u ∧ Ran s u i t ∧ ((s.boxes i).state = .opened → (u.boxes i).state = .opened) := by
  have away (j : Nat) (ne : j ≠ i) : ¬ s.Inside j t := by
    intro low
    have here := inside_at low
    rw [spot] at here
    cases here
    exact ne rfl
  have goes {r : Except Fault Post} (goes : s.Goes i t r) (live : (s.boxes i).state = .opened ∨ s.Inside i t) :
      r = .error .timerAdd ∨ ∃ u,r = .ok u ∧ Ran s u i t ∧ ((s.boxes i).state = .opened → (u.boxes i).state = .opened) :=
    goes.imp_right fun ⟨u,ran,done⟩ => ⟨u,ran,sound.ran away done live,done.live⟩
  have law := sound.boxes i
  unfold Post.run
  cases stage : s.stage t with
  | idle => simp [stage,Stage.at] at spot
  | got m => simp [stage,Stage.at] at spot
  | loaded k m late =>
    obtain rfl : k = i := by simpa [stage,Stage.at] using spot
    have out (j : Nat) : ¬ s.Inside j t := out_of_at (by simp [stage]) (by simp [stage])
    have all : m.Whole := sound.whole t m (by rw [stage]; rfl)
    by_cases may : s.isOpen k = true
    · exact goes (send_done law stage may all) (.inl (isOpen_state may))
    refine .inr ⟨s.sendFails t m eInval,if_neg may,?_,id⟩
    exact ⟨sound.restage out rfl rfl rfl (by simp) (by simp) (by simp [msg]),fun _ _ => rfl,fun _ ne => put_other ne,.inl,id⟩
  | asking k size _ =>
    obtain rfl : k = i := by simpa [stage,Stage.at] using spot
    have out (j : Nat) : ¬ s.Inside j t := out_of_at (by simp [stage]) (by simp [stage])
    by_cases may : s.isOpen k = true
    · exact goes (recv_done law stage may) (.inl (isOpen_state may))
    refine .inr ⟨s.recvFails t eInval,if_neg may,?_,id⟩
    exact ⟨sound.restage out rfl rfl rfl (by simp) (by simp) (by simp [msg]),fun _ _ => rfl,fun _ ne => put_other ne,.inl,id⟩
  | sending k m =>
    obtain rfl : k = i := by simpa [stage,Stage.at] using spot
    exact goes (resumeSend_done law stage (sound.whole t m (by rw [stage]; rfl))) (.inr (.inl ⟨m,stage⟩))
  | receiving k size =>
    obtain rfl : k = i := by simpa [stage,Stage.at] using spot
    exact goes (resumeRecv_done law stage) (.inr (.inr ⟨size,stage⟩))

lemma store (spot : (s.stage t).at = none) : ∃ u,s.run t = .ok u ∧ Sound u ∧ u.boxes = s.boxes := by
  unfold Post.run
  cases stage : s.stage t with
  | idle => exact ⟨s,rfl,sound,rfl⟩
  | got m =>
    have all : m.Whole := sound.whole t m (by rw [stage]; rfl)
    have out (j : Nat) : ¬ s.Inside j t := out_of_at (by simp [stage]) (by simp [stage])
    refine ⟨{s with stage:=put s.stage t .idle,ret:=put s.ret t 0,delivered:=⟨t,m.pid,m.data,m⟩ :: s.delivered},?_,?_,rfl⟩
    · dsimp only
      unfold Post.store
      rw [all.stored]
    exact sound.restage out rfl rfl rfl (by simp) (by simp) (by simp [msg])
  | _ => simp [stage,Stage.at] at spot

lemma refuse (held : (s.stage t).holds = some m) (id : Nat) : ∃ u,s.refuse t id m = .ok u ∧ Sound u ∧ ∀ j,(u.boxes j).state = (s.boxes j).state := by
  have stage := holds_iff.mp held
  have out (j : Nat) : ¬ s.Inside j t := out_of_at (by simp [stage]) (by simp [stage])
  have all : m.Whole := sound.whole t m (by rw [stage]; rfl)
  have fails : Sound (s.recvFails t eInval) := sound.restage out rfl rfl rfl (by simp) (by simp) (by simp [msg])
  have idle : (s.recvFails t eInval).stage t = .idle := put_same ..
  have gone (j : Nat) : ¬ (s.recvFails t eInval).Inside j t := out_of_at (by simp [idle]) (by simp [idle])
  unfold Post.refuse
  dsimp only
  split
  next may =>
    have live := isOpen_state may
    have mid := (mid_iff (gone id)).mpr (fails.boxes id)
    have boxes : (s.recvFails t eInval).boxes = s.boxes := rfl
    unfold putBack
    dsimp only
    rw [if_pos live]
    generalize s.recvFails t eInval = v at *
    obtain ⟨woken,touch,kept,opened,slots,cap⟩ := mid.added (m := m)
      (v := v.box id {v.boxes id with slots:=(v.boxes id).slots + 1,msgs:=m :: (v.boxes id).msgs}) live all rfl (.inr rfl) rfl rfl rfl
    generalize wakeupReceiver (v.box id {v.boxes id with slots:=(v.boxes id).slots + 1,msgs:=m :: (v.boxes id).msgs}) id = w at *
    have still : w.stage t = .idle := by rw [kept]; exact idle
    have left (j : Nat) : ¬ w.Inside j t := out_of_at (by simp [still]) (by simp [still])
    have law : w.Law id := by
      rw [← mid_iff (left id),slots,cap]
      exact Mbox.Law.less woken (by omega) le_rfl
    have done : Done v w id t := ⟨touch,law,fun j _ => left j,fun _ => opened,fun k took => by rw [still] at took; cases took⟩
    refine ⟨w,rfl,fails.done (fun j _ => gone j) done,fun j => ?_⟩
    by_cases eq : j = id
    · subst eq
      rw [opened,← boxes]
      exact live.symm
    rw [touch.boxes j eq,boxes]
  exact ⟨_,rfl,fails,fun _ => rfl⟩

-- ipc_mbox_free returns the box itself if nobody is in it.
lemma free (t i : Nat) : ∃ u,s.free t i = .ok u ∧ Sound u ∧ (∀ j ≠ i,u.boxes j = s.boxes j) ∧ u.stage = s.stage ∧
    ((u.boxes i).state = .closed → (s.boxes i).state = .closed ∨ (s.boxes i).inuse = 0) ∧ ((s.boxes i).state = .closed → (u.boxes i).state = .closed) := by
  by_cases may : s.isOpen i = true
  · have live := isOpen_state may
    have law := sound.boxes i
    have touch : ∀ j ≠ i,∀ x,s.Inside j x → (s.emptied t i).procs.asleep x = s.procs.asleep x ∧ (s.emptied t i).procs.wakeupFlags x = s.procs.wakeupFlags x := by
      intro j ne x low
      have receiver : x ∉ (s.boxes i).receivers := fun mem => ne (low.same (.inr (law.recv.member x mem).1))
      have sender : x ∉ (s.boxes i).senders := fun mem => ne (low.same (.inl (law.send.member x mem).1))
      have one := wakeupAll_other (wakeupAll s.procs (s.boxes i).senders) _ receiver
      have two := wakeupAll_other s.procs _ sender
      exact ⟨one.1.trans two.1,one.2.trans two.2⟩
    -- whatever the box becomes, the other boxes are as they were
    have all (v : Post) (procs : v.procs = (s.emptied t i).procs) (stage : v.stage = s.stage) (others : ∀ j ≠ i,v.boxes j = s.boxes j)
        (here : (v.boxes i).Law (s.emptied t i).procs (s.sends i) (s.recvs i) 0 ((v.boxes i).maxSlots - (v.boxes i).slots) (v.boxes i).slots) : Sound v := by
      have sends (j x : Nat) := sends_congr (congrFun stage x) j
      have recvs (j x : Nat) := recvs_congr (congrFun stage x) j
      refine ⟨fun j => ?_,fun x m took => sound.whole x m (by rwa [stage] at took)⟩
      unfold Post.Law
      rw [procs]
      by_cases eq : j = i
      · subst eq
        exact here.frame (sends j) (recvs j) (fun _ _ => rfl) fun _ _ sleeps => sleeps
      rw [others j eq]
      refine Mbox.Law.frame (sound.boxes j) (sends j) (recvs j) (fun x low => (touch j eq x low).2) fun x low sleeps => ?_
      rwa [(touch j eq x low).1] at sleeps
    have ran : s.free t i = if (s.boxes i).inuse = 0 then (s.emptied t i).mboxFree i else .ok (s.emptied t i) := if_pos may
    rw [ran]
    have box : (s.emptied t i).boxes i = {s.boxes i with state:=.closing,msgs:=[],discarded:=(s.boxes i).msgs,senders:=[],receivers:=[]} := put_same ..
    have others (j : Nat) (ne : j ≠ i) : (s.emptied t i).boxes j = s.boxes j := put_other ne
    split
    next idle =>
      have here := law.emptied (t := t) .closed 0 0 (.inr ⟨rfl,idle,rfl⟩)
      let b : Mbox := {s.boxes i with state:=.closed,maxSlots:=0,slots:=0,msgs:=[],discarded:=(s.boxes i).msgs,senders:=[],receivers:=[]}
      have freed : (s.emptied t i).mboxFree i = .ok ((s.emptied t i).box i b) := by
        unfold mboxFree
        rw [box]
        exact if_pos ⟨rfl,idle,rfl,rfl,rfl⟩
      have new : ((s.emptied t i).box i b).boxes i = b := put_same ..
      have rest (j : Nat) (ne : j ≠ i) : ((s.emptied t i).box i b).boxes j = s.boxes j := (put_other ne).trans (others j ne)
      refine ⟨_,freed,all _ rfl rfl rest ?_,rest,rfl,fun _ => .inr idle,fun _ => ?_⟩
      · rw [new]
        exact here
      rw [new]
    rename_i used
    have here := law.emptied (t := t) .closing (s.boxes i).maxSlots (s.boxes i).slots (.inl ⟨rfl,used⟩)
    refine ⟨_,rfl,all _ rfl rfl others ?_,others,rfl,fun shut => ?_,fun shut => ?_⟩
    · rw [box]
      exact here
    · rw [box] at shut
      cases shut
    cases live.symm.trans shut
  refine ⟨_,if_neg may,?_,fun _ _ => rfl,rfl,.inl,id⟩
  exact sound.aside rfl (fun _ _ => .rfl) (fun _ _ => .rfl) (fun _ => rfl) (fun _ sleeps => sleeps) sound.whole

-- Timers and kills only wake.
lemma tick (ran : s.step .tick = .ok u) : Sound u ∧ u.boxes = s.boxes ∧ u.stage = s.stage := by
  simp only [Post.step] at ran
  cases ticked : s.procs.runTimerList with
  | error f =>
    rw [ticked] at ran
    cases ran
  | ok _ =>
    rw [ticked] at ran
    cases ran
    have woken := Procs.runTimerList_woken ticked
    exact ⟨sound.aside rfl (fun _ _ => .rfl) (fun _ _ => .rfl) (fun x => congrFun woken.2 x) (fun x => (woken.1 x).slept) sound.whole,rfl,rfl⟩

lemma kill (t : Nat) : Sound {s with procs:=s.procs.doKill t} :=
  sound.aside rfl (fun _ _ => .rfl) (fun _ _ => .rfl) (fun x => congrFun (s.procs.doKill_frame t).1 x) (fun x => (s.procs.doKill_woken t x).slept)
    sound.whole

end Sound

end Calls

-- The free list holds the closed boxes of the mapped pages, each once, and every opening
-- of a box was followed by one return, but for the last if the box is still in use.
structure Desk.Law (d : Desk) : Prop where
  sound : Sound d.post
  once : d.free.Nodup
  shelf : ∀ i,i ∈ d.free ↔ i < d.pages * mboxPerPage ∧ (d.post.boxes i).state = .closed
  beyond : ∀ i,d.pages * mboxPerPage ≤ i → (d.post.boxes i).state = .closed
  count : ∀ i,d.openings i = d.returns i + if (d.post.boxes i).state = .closed then 0 else 1

section Desks
variable {d : Desk} {s : Post}

lemma Desk.Law.post (law : d.Law) (sound : Sound s) (state : ∀ i,(s.boxes i).state = (d.post.boxes i).state) (id : Nat → Nat) : Desk.Law {d with post:=s,id:=id} := by
  refine ⟨sound,law.once,fun i => ?_,fun i far => ?_,fun i => ?_⟩
  · rw [state i]
    exact law.shelf i
  · rw [state i]
    exact law.beyond i far
  rw [state i]
  exact law.count i

lemma Desk.Law.inside (law : d.Law) (used : (d.post.boxes i).state ≠ .closed) : i < d.pages * mboxPerPage := by
  by_contra far
  exact used (law.beyond i (Nat.le_of_not_lt far))

lemma Desk.Law.shelve (law : d.Law) (sound : Sound s) (boxes : ∀ j ≠ i,s.boxes j = d.post.boxes j)
    (stays : (d.post.boxes i).state = .closed → (s.boxes i).state = .closed) : (d.shelve i s).Law := by
  unfold Desk.shelve
  split
  next returned =>
    have out : i ∉ d.free := fun mem => returned.1 ((law.shelf i).mp mem).2
    refine ⟨sound,?_,fun j => ?_,fun j far => ?_,fun j => ?_⟩
    · exact nodup_append.mpr ⟨law.once,nodup_singleton i,fun a left b right => by
        rintro rfl
        exact out (mem_singleton.mp right ▸ left)⟩
    · by_cases eq : j = i
      · subst eq
        simp [law.inside returned.1,returned.2]
      simp [boxes j eq,law.shelf j,eq]
    · by_cases eq : j = i
      · subst eq
        exact returned.2
      rw [boxes j eq]
      exact law.beyond j far
    by_cases eq : j = i
    · subst eq
      have old := law.count j
      rw [if_neg returned.1] at old
      simp [returned.2,old]
    have old := law.count j
    simp [put_other eq,boxes j eq,old]
  rename_i same
  have state (j : Nat) : (s.boxes j).state = .closed ↔ (d.post.boxes j).state = .closed := by
    by_cases eq : j = i
    · subst eq
      by_cases shut : (d.post.boxes j).state = .closed
      · exact iff_of_true (stays shut) shut
      exact iff_of_false (fun new => same ⟨shut,new⟩) shut
    rw [boxes j eq]
  refine ⟨sound,law.once,fun j => ?_,fun j far => (state j).mpr (law.beyond j far),fun j => ?_⟩
  · rw [state j]
    exact law.shelf j
  simp only [state j]
  exact law.count j

-- The box opened by new_mbox was closed and is used by nobody.
lemma Sound.open (sound : Sound s) (shut : (s.boxes i).state = .closed) (maxSlots : Nat) (ret : Nat → Int) :
    Sound {s.box i {s.boxes i with state:=.opened,maxSlots:=maxSlots,enqueued:=[],taken:=[],discarded:=[]} with ret:=ret} := by
  have law := sound.boxes i
  have parts := law.shut (by simp [shut])
  have zero := law.closed shut
  refine ⟨fun j => ?_,sound.whole⟩
  by_cases eq : j = i
  · subst eq
    have here : Mbox.Law {s.boxes j with state:=.opened,maxSlots:=maxSlots,enqueued:=[],taken:=[],discarded:=[]} s.procs (s.sends j) (s.recvs j) 0
        (maxSlots - (s.boxes j).slots) (s.boxes j).slots := by
      have senders := law.send
      rw [parts.2.1] at senders
      refine ⟨law.inside,law.apart,?_,law.recv,law.flags,fun _ => ?_,by simp,by simp,by simp,law.whole⟩
      · rw [parts.2.1]
        exact senders.any _
      rw [parts.1]
      exact zero.2
    unfold Post.Law
    dsimp [Post.box]
    rw [put_same]
    exact here
  have same := sound.boxes j
  unfold Post.Law at same ⊢
  dsimp [Post.box]
  rw [put_other eq]
  exact same

namespace Desk.Law

lemma takeFirst (law : d.Law) (t maxSlots : Nat) : (d.takeFirst t maxSlots).Law := by
  unfold Desk.takeFirst
  split
  · exact {law with sound:={law.sound with}}
  rename_i i rest line
  have parts := (law.shelf i).mp (by rw [line]; exact mem_cons_self ..)
  have once := law.once
  rw [line] at once
  have distinct := nodup_cons.mp once
  refine ⟨law.sound.open parts.2 maxSlots _,distinct.2,fun j => ?_,fun j far => ?_,fun j => ?_⟩
  · by_cases eq : j = i
    · subst eq
      simp [distinct.1,Post.box]
    have old := law.shelf j
    rw [line] at old
    simpa [eq,Post.box,put_other eq] using old
  · have beyond : d.pages * mboxPerPage ≤ j := far
    have eq : j ≠ i := by
      rintro rfl
      omega
    simpa [Post.box,put_other eq] using law.beyond j beyond
  by_cases eq : j = i
  · subst eq
    have old := law.count j
    rw [if_pos parts.2] at old
    simp [Post.box,old]
  simpa [Post.box,put_other eq] using law.count j

lemma page (law : d.Law) (t maxSlots : Nat) (got : Bool) : (d.page t maxSlots got).Law := by
  unfold Desk.page
  split
  · refine takeFirst ?_ t maxSlots
    have new (i : Nat) (mem : i ∈ range' (d.pages * mboxPerPage) mboxPerPage) : d.pages * mboxPerPage ≤ i ∧ i < (d.pages + 1) * mboxPerPage := by
      have bounds := mem_range'_1.mp mem
      exact ⟨bounds.1,by rw [Nat.add_mul,one_mul]; exact bounds.2⟩
    refine ⟨law.sound,?_,fun i => ?_,fun i far => ?_,law.count⟩
    · refine nodup_append.mpr ⟨law.once,nodup_range',fun a left b right => ?_⟩
      rintro rfl
      have near := ((law.shelf a).mp left).1
      have far := (new a right).1
      omega
    · simp only [mem_append,mem_range'_1,law.shelf i,Nat.add_mul,one_mul]
      constructor
      · rintro (⟨near,shut⟩ | ⟨far,near⟩)
        · exact ⟨by omega,shut⟩
        exact ⟨near,law.beyond i far⟩
      rintro ⟨near,shut⟩
      by_cases far : d.pages * mboxPerPage ≤ i
      · exact .inr ⟨far,near⟩
      exact .inl ⟨by omega,shut⟩
    refine law.beyond i ?_
    rw [Nat.add_mul] at far
    omega
  exact law.takeFirst t maxSlots

lemma init (law : d.Law) (t maxSlots : Nat) : (d.init t maxSlots).Law := by
  have ret (ret : Nat → Int) : Desk.Law {d with post:={d.post with ret:=ret}} := {law with sound:={law.sound with}}
  unfold Desk.init
  split
  · exact ret _
  split
  · split
    · exact ret _
    exact {law with}
  exact law.takeFirst t maxSlots

end Desk.Law

-- A box that becomes closed goes to the free list, where it was not: by ipc_mbox_free if
-- nobody is inside, and otherwise by the last one inside.
def Returned (d : Desk) (e : Task) (u : Desk) : Prop :=
  ∀ i,(d.post.boxes i).state ≠ .closed → (u.post.boxes i).state = .closed → i ∉ d.free ∧ u.free = d.free ++ [i] ∧
    ((∃ t,e = .free t i ∧ ∀ x,¬ d.post.Inside i x) ∨ ∃ t,e = .run t ∧ ∀ x,d.post.Inside i x ↔ x = t)

def Stays (d : Desk) (e : Task) (u : Desk) : Prop :=
  ∀ i,(∀ x,e ≠ .free x i) → (d.post.boxes i).state = .opened → (u.post.boxes i).state = .opened

lemma no_closing (state : ∀ i,(u.post.boxes i).state = (d.post.boxes i).state ∨ (u.post.boxes i).state = .opened) : Returned d e u ∧ Stays d e u := by
  refine ⟨fun i used shut => ?_,fun i _ live => (state i).elim (·.trans live) id⟩
  rcases state i with eq | opened
  · exact absurd (eq.symm.trans shut) used
  cases shut.symm.trans opened

lemma Desk.shelve_post (d : Desk) (i : Nat) (s : Post) : (d.shelve i s).post = s := by
  unfold Desk.shelve
  split <;> rfl

lemma Desk.shelve_returned (law : d.Law) (boxes : ∀ j ≠ i,s.boxes j = d.post.boxes j)
    (how : (s.boxes i).state = .closed → (d.post.boxes i).state ≠ .closed → (∃ t,e = .free t i ∧ ∀ x,¬ d.post.Inside i x) ∨ ∃ t,e = .run t ∧ ∀ x,d.post.Inside i x ↔ x = t)
    (kept : (∀ x,e ≠ .free x i) → (d.post.boxes i).state = .opened → (s.boxes i).state = .opened) :
    Returned d e (d.shelve i s) ∧ Stays d e (d.shelve i s) := by
  refine ⟨fun j used shut => ?_,fun j unfreed live => ?_⟩ <;> rw [d.shelve_post] at *
  rotate_left
  · rcases eq_or_ne j i with rfl | ne
    · exact kept unfreed live
    rwa [boxes j ne]
  have eq : j = i := by
    by_contra ne
    rw [boxes j ne] at shut
    exact used shut
  subst eq
  refine ⟨fun mem => used ((law.shelf j).mp mem).2,?_,how shut used⟩
  unfold Desk.shelve
  rw [if_pos ⟨used,shut⟩]

lemma takeFirst_states (d : Desk) (t maxSlots i : Nat) : ((d.takeFirst t maxSlots).post.boxes i).state = (d.post.boxes i).state ∨
    ((d.takeFirst t maxSlots).post.boxes i).state = .opened := by
  unfold Desk.takeFirst
  split
  · exact .inl rfl
  rename_i head rest line
  by_cases eq : i = head
  · simp [eq,Post.box]
  simp [Post.box,put_other eq]

lemma init_states (d : Desk) (t maxSlots i : Nat) : ((d.init t maxSlots).post.boxes i).state = (d.post.boxes i).state ∨
    ((d.init t maxSlots).post.boxes i).state = .opened := by
  unfold Desk.init
  split
  · exact .inl rfl
  split
  · split <;> exact .inl rfl
  exact takeFirst_states d t maxSlots i

namespace Desk

lemma Law.step (law : d.Law) (may : d.Enabled e) :
    (∃ f,d.step e = .error f ∧ (f = .timerAdd ∨ f = .timerExpires ∨ f = .timerState)) ∨ ∃ u,d.step e = .ok u ∧ u.Law ∧ Returned d e u ∧ Stays d e u := by
  have sound := law.sound
  cases e with
  | init t maxSlots => exact .inr ⟨_,rfl,law.init t maxSlots,no_closing (init_states d t maxSlots)⟩
  | page got =>
    cases opening : d.opening with
    | none =>
      rw [Desk.Enabled,opening] at may
      cases may
    | some who =>
      obtain ⟨t,maxSlots⟩ := who
      refine .inr ⟨d.page t maxSlots got,?_,law.page t maxSlots got,no_closing ?_⟩
      · simp [Desk.step,opening]
      unfold Desk.page
      split
      · exact takeFirst_states {d with pages:=d.pages + 1,free:=_} t maxSlots
      exact takeFirst_states d t maxSlots
  | free t i =>
    obtain ⟨s,ran,new,boxes,stage,closes,stays⟩ := sound.free t i
    refine .inr ⟨d.shelve i s,by simp [Desk.step,ran,map],law.shelve new boxes stays,Desk.shelve_returned law boxes (fun shut used => ?_)
      fun unfreed => absurd rfl (unfreed t)⟩
    have idle := (closes shut).resolve_left used
    exact .inl ⟨t,rfl,(sound.boxes i).none idle⟩
  | load t i data late =>
    obtain ⟨⟨_,idle,_⟩,_,some,_⟩ := may
    have out (j : Nat) : ¬ d.post.Inside j t := out_of_at (by simp [idle]) (by simp [idle])
    have next : Sound {d.post with stage:=put d.post.stage t (.loaded i (loadMsg t d.post.serial data) late),serial:=d.post.serial + 1} := by
      refine sound.restage out rfl rfl rfl (by simp) (by simp) fun m took => ?_
      cases took
      exact loadMsg_whole some
    exact .inr ⟨_,rfl,law.post next (fun _ => rfl) d.id,no_closing fun _ => .inl rfl⟩
  | ask t i size late =>
    obtain ⟨⟨_,idle,_⟩,_⟩ := may
    have out (j : Nat) : ¬ d.post.Inside j t := out_of_at (by simp [idle]) (by simp [idle])
    have next : Sound {d.post with stage:=put d.post.stage t (.asking i size late)} := sound.restage out rfl rfl rfl (by simp) (by simp) (by simp [msg])
    exact .inr ⟨_,rfl,law.post next (fun _ => rfl) _,no_closing fun _ => .inl rfl⟩
  | run t =>
    cases spot : (d.post.stage t).at with
    | none =>
      obtain ⟨s,ran,new,boxes⟩ := sound.store spot
      refine .inr ⟨{d with post:=s},by simp [Desk.step,spot,ran,map],law.post new (fun i => by rw [boxes]) d.id,
        no_closing fun i => .inl (congrArg Mbox.state (congrFun boxes i))⟩
    | some i =>
      rcases sound.run spot with fault | ⟨s,ran,new,kept⟩
      · exact .inl ⟨_,by simp [Desk.step,spot,fault,map],.inl rfl⟩
      refine .inr ⟨d.shelve i s,by simp [Desk.step,spot,ran,map],law.shelve new.sound new.boxes new.stays,
        Desk.shelve_returned law new.boxes (fun shut used => .inr ⟨t,rfl,fun x => ⟨fun low => ?_,?_⟩⟩) fun _ => kept⟩
      · -- whoever else was low would be low still
        by_contra ne
        have still := (inside_congr (new.stage x ne) i).mpr low
        have idle := ((new.sound.boxes i).closed shut).1
        exact (new.sound.boxes i).none idle x still
      rintro rfl
      exact ((new.closes shut).resolve_left used).2
  | refuse t =>
    cases held : (d.post.stage t).holds with
    | none =>
      rw [Desk.Enabled,held] at may
      cases may.2
    | some m =>
      obtain ⟨s,ran,new,state⟩ := sound.refuse held (d.id t)
      exact .inr ⟨{d with post:=s},by simp [Desk.step,held,ran,map],law.post new state d.id,no_closing fun i => .inl (state i)⟩
  | tick =>
    cases ticked : d.post.step .tick with
    | error f =>
      refine .inl ⟨f,by simp [Desk.step,ticked,map],?_⟩
      simp only [Post.step] at ticked
      cases list : d.post.procs.runTimerList with
      | error g =>
        rw [list] at ticked
        cases ticked
        exact .inr (Procs.runTimerList_fault list)
      | ok _ =>
        rw [list] at ticked
        cases ticked
    | ok s =>
      obtain ⟨new,boxes,_⟩ := sound.tick ticked
      refine .inr ⟨{d with post:=s},by simp [Desk.step,ticked,map],law.post new (fun i => by rw [boxes]) d.id,
        no_closing fun i => .inl (congrArg Mbox.state (congrFun boxes i))⟩
  | kill t => exact .inr ⟨_,rfl,law.post (sound.kill t) (fun _ => rfl) d.id,no_closing fun _ => .inl rfl⟩

lemma fresh_law : Desk.fresh.Law := by
  refine ⟨⟨fun i => ?_,by simp [Desk.fresh,first,msg]⟩,nodup_nil,by simp [Desk.fresh],fun _ _ => rfl,fun _ => rfl⟩
  have none : ∀ u,¬ (first.sends i u ∨ first.recvs i u) := by rintro u (⟨m,role⟩ | ⟨n,role⟩) <;> simp [first] at role
  refine ⟨?_,fun u sends => absurd (.inl sends) (none u),.empty _ fun u sends => absurd (.inl sends) (none u),
    .empty _ fun u recvs => absurd (.inr recvs) (none u),fun u sends => absurd (.inl sends) (none u),fun live => ?_,fun _ => ⟨rfl,rfl,rfl⟩,
    fun closing => ?_,fun _ => ⟨rfl,rfl⟩,by simp [Desk.fresh,first]⟩
  · have empty : {u | Desk.fresh.post.sends i u ∨ Desk.fresh.post.recvs i u} = ∅ := Set.eq_empty_iff_forall_notMem.mpr none
    rw [empty]
    simp [Desk.fresh,first]
  · cases live
  cases closing

lemma Law.moves (law : d.Law) (moved : d.Move e u) : u.Law ∧ Returned d e u ∧ Stays d e u := by
  rcases law.step moved.1 with ⟨f,fault,_⟩ | ⟨w,ran,new⟩
  · rw [moved.2] at fault
    cases fault
  have eq : w = u := Except.ok.inj (ran.symm.trans moved.2)
  exact eq ▸ new

lemma law_of_path (path : Path Desk.Move Desk.fresh tasks d) : d.Law := path.invariant (fun _ _ _ law moved => (law.moves moved).1) fresh_law

end Desk

end Desks

structure LifeCycle (d : Desk) : Prop where
  inside : ∀ i,{t | d.post.Inside i t}.encard = (d.post.boxes i).inuse
  free : d.free.Nodup ∧ ∀ i,i ∈ d.free ↔ i < d.pages * mboxPerPage ∧ (d.post.boxes i).state = .closed
  closed : ∀ i,(d.post.boxes i).state = .closed → (∀ t,¬ d.post.Inside i t) ∧ (d.post.boxes i).senders = [] ∧ (d.post.boxes i).receivers = []
  closing : ∀ i,(d.post.boxes i).state = .closing → i ∉ d.free ∧ ∃ t,d.post.Inside i t
  count : ∀ i,d.openings i = d.returns i + if (d.post.boxes i).state = .closed then 0 else 1
  returned : ∀ e u,d.Move e u → Returned d e u
  safe : ∀ e f,d.Enabled e → d.step e = .error f → f ≠ .mboxFree ∧ f ≠ .mboxOpened ∧ f ≠ .mboxSlots ∧ f ≠ .mboxClosing ∧ f ≠ .mboxFlags

-- Whatever is opened, sent, received and freed: inuse counts those inside, every opening
-- is followed by one return of the box, and no assert on a box fails.
theorem mailbox_life_cycle (path : Path Desk.Move Desk.fresh tasks d) : LifeCycle d := by
  have law := law_of_path path
  refine ⟨fun i => ?_,⟨law.once,law.shelf⟩,fun i closed => ?_,fun i closing => ⟨fun member => ?_,?_⟩,law.count,fun e u moved => (law.moves moved).2.1,
    fun e f enabled fault => ?_⟩
  · simpa [Post.Inside] using (law.sound.boxes i).inside
  · have box := law.sound.boxes i
    exact ⟨box.none (box.closed closed).1,(box.shut (by simp [closed])).2⟩
  · exact absurd (closing.symm.trans ((law.shelf i).mp member).2) (by simp)
  · have box := law.sound.boxes i
    by_contra none
    have empty : {t | d.post.sends i t ∨ d.post.recvs i t} = ∅ := Set.eq_empty_iff_forall_notMem.mpr fun t inside => none ⟨t,inside⟩
    have count := box.inside
    rw [empty] at count
    simp only [Set.encard_empty,Nat.cast_zero,add_zero] at count
    exact box.closing closing (by exact_mod_cast count.symm)
  rcases law.step enabled with ⟨g,ran,which⟩ | ⟨u,ran,_⟩
  · rw [ran] at fault
    cases fault
    rcases which with rfl | rfl | rfl <;> simp
  rw [ran] at fault
  cases fault

abbrev Desk.runs : Desk → List Task → Option Desk := Runs.runs Desk.Enabled fun d e => (d.step e).toOption

def freeing : List Task := [.init 0 1,.page true,.ask 1 0 16 0,.run 1,.free 2 0,.run 1]

theorem mailbox_life_cycle_freeing : ∃ d,Path Desk.Move Desk.fresh freeing d ∧ (d.free.length,d.openings 0,d.returns 0) = (56,1,1) ∧ LifeCycle d := by
  have ran : (Desk.fresh.runs freeing).map (fun d => (d.free.length,d.openings 0,d.returns 0)) = some (56,1,1) := by decide +kernel
  obtain ⟨d,last,shown⟩ := Option.map_eq_some_iff.mp ran
  have path := runs_path_ok last
  exact ⟨d,path,shown,mailbox_life_cycle path⟩

-- Whoever is asleep in an open box waits for nothing that is there: as many receivers as
-- there are messages have been taken out of the queue and woken, and as many senders as
-- there are free slots.
theorem no_lost_wakeups (path : Path Desk.Move Desk.fresh tasks d) (live : (d.post.boxes i).state = .opened) :
    ((d.post.boxes i).receivers ≠ [] → ∃ woken : List Nat,woken.Nodup ∧ (d.post.boxes i).msgs.length ≤ woken.length ∧
      ∀ t ∈ woken,d.post.recvs i t ∧ d.post.procs.wakeupFlags t = wtMboxRecv ∧ t ∉ (d.post.boxes i).receivers ∧ d.post.procs.asleep t = false) ∧
    ((d.post.boxes i).senders ≠ [] → ∃ woken : List Nat,woken.Nodup ∧ (d.post.boxes i).maxSlots - (d.post.boxes i).msgs.length ≤ woken.length ∧
      ∀ t ∈ woken,d.post.sends i t ∧ d.post.procs.wakeupFlags t = wtMboxSend ∧ t ∉ (d.post.boxes i).senders ∧ d.post.procs.asleep t = false) ∧
    ((∀ t,d.post.stage t ≠ .idle → d.post.procs.asleep t = true) →
      (∀ t,d.post.recvs i t → (d.post.boxes i).msgs = []) ∧ ∀ t,d.post.sends i t → (d.post.boxes i).maxSlots ≤ (d.post.boxes i).msgs.length) := by
  have law := (law_of_path path).sound.boxes i
  have slots := law.slots live
  have receivers (waiting : (d.post.boxes i).receivers ≠ []) := law.recv.woken waiting
  have senders (waiting : (d.post.boxes i).senders ≠ []) := law.send.woken waiting
  rw [slots] at receivers senders
  have awake {t : Nat} (sleeps : ¬ d.post.procs.asleep t = true) : d.post.procs.asleep t = false := by simpa using sleeps
  refine ⟨fun waiting => ?_,fun waiting => ?_,fun asleep => ⟨fun t role => ?_,fun t role => ?_⟩⟩
  · obtain ⟨woken,once,enough,each⟩ := receivers waiting
    exact ⟨woken,once,enough,fun t member => (each t member).imp_right (.imp_right (.imp_right awake))⟩
  · obtain ⟨woken,once,enough,each⟩ := senders waiting
    exact ⟨woken,once,enough,fun t member => (each t member).imp_right (.imp_right (.imp_right awake))⟩
  · have busy : d.post.stage t ≠ .idle := by
      obtain ⟨n,stage⟩ := role
      simp [stage]
    obtain ⟨woken,once,enough,each⟩ := receivers (ne_nil_of_mem (law.recv.slept t role (asleep t busy)))
    cases woken with
    | nil => exact length_eq_zero_iff.mp (Nat.le_zero.mp enough)
    | cons u rest =>
      obtain ⟨⟨n,stage⟩,_,_,up⟩ := each u (mem_cons_self ..)
      exact absurd (asleep u (by simp [stage])) up
  have busy : d.post.stage t ≠ .idle := by
    obtain ⟨m,stage⟩ := role
    simp [stage]
  obtain ⟨woken,once,enough,each⟩ := senders (ne_nil_of_mem (law.send.slept t role (asleep t busy)))
  cases woken with
  | nil =>
    simp only [length_nil,Nat.le_zero] at enough
    omega
  | cons u rest =>
    obtain ⟨⟨m,stage⟩,_,_,up⟩ := each u (mem_cons_self ..)
    exact absurd (asleep u (by simp [stage])) up

def arriving : List Task := [.init 0 2,.page true,.ask 1 0 16 0,.run 1,.ask 2 0 16 0,.run 2,.load 3 0 [7] 0,.run 3]

theorem no_lost_wakeups_arriving : ∃ d,Path Desk.Move Desk.fresh arriving d ∧ (d.post.boxes 0).receivers = [2] ∧
    ∃ woken : List Nat,woken.Nodup ∧ 1 ≤ woken.length ∧
      ∀ t ∈ woken,d.post.recvs 0 t ∧ d.post.procs.wakeupFlags t = wtMboxRecv ∧ t ∉ (d.post.boxes 0).receivers ∧ d.post.procs.asleep t = false := by
  have ran : (Desk.fresh.runs arriving).map (fun d => ((d.post.boxes 0).state,(d.post.boxes 0).receivers,(d.post.boxes 0).msgs.length)) =
      some (.opened,[2],1) := by decide +kernel
  obtain ⟨d,last,shown⟩ := Option.map_eq_some_iff.mp ran
  simp only [Prod.mk.injEq] at shown
  have path := runs_path_ok last
  have woken := (no_lost_wakeups path shown.1).1 (by simp [shown.2.1])
  rw [shown.2.2] at woken
  exact ⟨d,path,shown.2.1,woken⟩

end Ucore.Sync.Mail

import Ucore.Sync.Life

-- The ids that ipc_mbox_init returns.
namespace Ucore.Sync.Mail
open Runs Desk Post
open List (range')
variable {d u : Desk} {e : Task} {t i n : Nat}

-- ipc_mbox_init of t ends in the step e and returns i.
def Desk.Gives (d : Desk) (e : Task) (u : Desk) (t i : Nat) : Prop :=
  u.post.ret t = i ∧ ((∃ n,e = .init t n ∧ u.opening = none) ∨ ∃ got n,e = .page got ∧ d.opening = some (t,n))

-- The box that ipc_mbox_init would open now: the first of the free list, or the
-- first of a new page.
def Desk.next (d : Desk) : Nat := d.free.headD (d.pages * mboxPerPage)

lemma takeFirst_gives (given : (d.takeFirst t n).post.ret t = (i : Int)) : d.free.head? = some i ∧ ((d.takeFirst t n).post.boxes i).state = .opened := by
  unfold takeFirst at given ⊢
  split at given
  · simp [eNoMem] at given
  rename_i head rest line
  obtain rfl : head = i := by simpa using given
  rw [line]
  simp [box]

lemma Desk.Law.gives (law : d.Law) (moved : d.Move e u) (gives : d.Gives e u t i) :
    i = d.next ∧ (d.post.boxes i).state = .closed ∧ (u.post.boxes i).state = .opened := by
  have shut {i : Nat} (first : d.free.head? = some i) : i = d.next ∧ (d.post.boxes i).state = .closed :=
    ⟨by simp [Desk.next,List.headD_eq_head?_getD,first],((law.shelf i).mp (List.mem_of_mem_head? first)).2⟩
  obtain ⟨ret,⟨n,rfl,done⟩ | ⟨_,n,rfl,opening⟩⟩ := gives
  · cases moved.2
    unfold Desk.init at ret done ⊢
    split at ret
    · simp [eInval] at ret
    split at ret
    · split at ret
      · simp [eNoMem] at ret
      simp_all
    rename_i fits free
    rw [if_neg fits,if_neg free]
    obtain ⟨first,opened⟩ := takeFirst_gives ret
    exact ⟨(shut first).1,(shut first).2,opened⟩
  have ran := moved.2
  simp only [Desk.step,opening] at ran
  cases ran
  unfold Desk.page at ret ⊢
  split at ret
  next =>
    obtain ⟨first,opened⟩ := takeFirst_gives ret
    rw [if_pos ‹_›,← and_assoc]
    refine ⟨?_,opened⟩
    cases old : d.free with
    | cons j rest => exact shut (by simpa [old] using first)
    | nil =>
      obtain rfl : d.pages * mboxPerPage = i := by simpa [old,mboxPerPage,List.range'_succ] using first
      exact ⟨by simp [Desk.next,old],law.beyond _ le_rfl⟩
  next =>
    obtain ⟨first,opened⟩ := takeFirst_gives ret
    rw [if_neg ‹_›]
    exact ⟨(shut first).1,(shut first).2,opened⟩

-- n boxes are open, all opened by process 0.
structure Desk.Full (d : Desk) (n : Nat) : Prop where
  pages : d.pages = (n + 55) / 56
  free : d.free = range' n ((n + 55) / 56 * 56 - n)
  ready : d.post.procs.asleep 0 = false ∧ d.post.stage 0 = .idle
  idle : d.opening = none

lemma takeFirst_full (free : d.free = range' n ((n + 56) / 56 * 56 - n)) (pages : d.pages = (n + 56) / 56)
    (ready : d.post.procs.asleep 0 = false ∧ d.post.stage 0 = .idle) : (d.takeFirst 0 1).post.ret 0 = n ∧ (d.takeFirst 0 1).Full (n + 1) := by
  rw [show (n + 56) / 56 * 56 - n = (n + 56) / 56 * 56 - (n + 1) + 1 by omega,List.range'_succ] at free
  unfold takeFirst
  rw [free]
  exact ⟨put_same d.post.ret 0 (n : Int),pages,rfl,ready,rfl⟩

lemma Desk.Full.next (full : d.Full n) (small : n < 8232) : ∃ tasks v e u,Path Desk.Move d tasks v ∧ v.Move e u ∧ v.Gives e u 0 n ∧ u.Full (n + 1) := by
  have ready : d.Ready 0 := ⟨full.ready.1,full.ready.2,by simp [full.idle]⟩
  by_cases edge : n % 56 = 0
  · have free : d.free = [] := by rw [full.free,show (n + 55) / 56 * 56 - n = 0 by omega]; rfl
    have pages : d.pages ≠ maxMboxPages := by rw [full.pages]; exact show (n + 55) / 56 ≠ 147 by omega
    have asks : d.Move (.init 0 1) {d with opening:=some (0,1)} :=
      ⟨⟨ready,full.idle⟩,by rw [Desk.step,Desk.init,if_neg (by decide),if_pos free,if_neg pages]⟩
    obtain ⟨ret,full⟩ := takeFirst_full (n:=n)
      (d:={d with opening:=some (0,1),pages:=d.pages + 1,free:=d.free ++ range' (d.pages * mboxPerPage) mboxPerPage})
      (by
        rw [free,List.nil_append,full.pages,show (n + 56) / 56 * 56 - n = 56 by omega]
        exact congrArg (range' · 56) (show (n + 55) / 56 * 56 = n by omega))
      (show d.pages + 1 = _ by rw [full.pages]; omega) full.ready
    exact ⟨_,_,.page true,_,.step .nil asks,⟨rfl,rfl⟩,⟨ret,.inr ⟨true,1,rfl,rfl⟩⟩,full⟩
  have free : d.free = range' n ((n + 56) / 56 * 56 - n) := by rw [full.free,show (n + 55) / 56 = (n + 56) / 56 by omega]
  obtain ⟨ret,more⟩ := takeFirst_full free (by rw [full.pages]; omega) full.ready
  have some : d.free ≠ [] := by
    rw [free,show (n + 56) / 56 * 56 - n = (n + 56) / 56 * 56 - (n + 1) + 1 by omega,List.range'_succ]
    exact List.cons_ne_nil _ _
  refine ⟨[],d,.init 0 1,_,.nil,⟨⟨ready,full.idle⟩,?_⟩,⟨ret,.inl ⟨1,rfl,more.idle⟩⟩,more⟩
  rw [Desk.step,Desk.init,if_neg (by decide),if_neg some]

lemma Desk.fresh_full : fresh.Full 0 := ⟨rfl,rfl,⟨rfl,rfl⟩,rfl⟩

-- A new id is not in use, and get_mbox takes it until it is freed.
theorem mailbox_ids (path : Path Desk.Move fresh tasks d) (moved : d.Move e u) (gives : d.Gives e u t i) :
    (d.post.boxes i).state = .closed ∧
      ((∀ later w,Path Desk.Move u later w → (∀ c ∈ later,∀ x,c ≠ .free x i) → w.post.isOpen i = true) ↔ d.next < 8192) := by
  have law := law_of_path path
  obtain ⟨rfl,closed,opened⟩ := law.gives moved gives
  refine ⟨closed,fun usable => ?_,fun small later w after unfreed => ?_⟩
  · have now := usable [] u .nil nofun
    simp only [isOpen,Bool.and_eq_true,decide_eq_true_eq] at now
    exact now.1
  have live : w.Law ∧ (w.post.boxes d.next).state = .opened := by
    induction after with
    | nil => exact ⟨(law.moves moved).1,opened⟩
    | step _ next ih =>
      obtain ⟨law,live⟩ := ih fun c member => unfreed c (by simp [member])
      exact ⟨(law.moves next).1,(law.moves next).2.2 d.next (unfreed _ (by simp)) live⟩
  simp [isOpen,small,live.2]

-- Box 0 of the first page, through a second box, which is freed, and a message.
def using0 : List Task := [.init 1 2,.load 2 0 [7] 0,.run 2,.free 1 1,.ask 3 0 16 0,.run 3,.run 3]

theorem mailbox_ids_used : ∃ w,Path Desk.Move ((fresh.init 0 1).page 0 1 true) using0 w ∧ (w.returns 1,w.post.isOpen 0,w.post.delivered.length) = (1,true,1) := by
  have asks : fresh.Move (.init 0 1) (fresh.init 0 1) := ⟨by decide,rfl⟩
  have gives : (fresh.init 0 1).Gives (.page true) ((fresh.init 0 1).page 0 1 true) 0 0 := ⟨rfl,.inr ⟨true,1,rfl,rfl⟩⟩
  have ran : (((fresh.init 0 1).page 0 1 true).runs using0).map (fun w => (w.returns 1,w.post.delivered.length)) = some (1,1) := by decide +kernel
  obtain ⟨w,last,shown⟩ := Option.map_eq_some_iff.mp ran
  injection shown with returned delivered
  have usable := (mailbox_ids (.step .nil asks) ⟨by decide,rfl⟩ gives).2.mpr (by decide)
  have path := runs_path_ok last
  exact ⟨w,path,by rw [returned,delivered,usable using0 w path (by simp [using0])]⟩

theorem unusable_id : ∃ tasks d e u,Path Desk.Move fresh tasks d ∧ d.Move e u ∧ d.Gives e u 0 8192 ∧ u.post.isOpen 8192 = false := by
  have fill (n : Nat) (small : n ≤ 8192) : ∃ tasks d,Path Desk.Move fresh tasks d ∧ d.Full n := by
    induction n with
    | zero => exact ⟨[],_,.nil,fresh_full⟩
    | succ n ih =>
      obtain ⟨tasks,d,path,full⟩ := ih (by omega)
      obtain ⟨more,v,e,u,later,moved,_,full⟩ := full.next (by omega)
      exact ⟨_,u,.step (path.append later) moved,full⟩
  obtain ⟨tasks,d,path,full⟩ := fill 8192 le_rfl
  obtain ⟨more,v,e,u,later,moved,gives,_⟩ := full.next (by decide)
  exact ⟨_,v,e,u,path.append later,moved,gives,rfl⟩

end Ucore.Sync.Mail

import Ucore.Sfs.Threads

-- The order in which the calls take their semaphores, and that without sfs_sync no set
-- of threads waits in a circle.
namespace Ucore.Sfs.Threads
open Runs Waits Hold World
open List (length_pos_iff)

lemma put_same (f : Nat → α) (k : Nat) (v : α) : put f k v k = v := by simp [put]

lemma put_other {f : Nat → α} {k j : Nat} {v : α} (ne : j ≠ k) : put f k v j = f j := by simp [put,ne]

-- When a thread may go down on a semaphore: mutex_sem first, then inodes, then fs_sem,
-- then io_sem. Two inodes at once are for the holder of mutex_sem. Below fs_sem only
-- the inode being taken out of memory is locked.
def Hold.Ready (h : Hold) : Sem → Prop
  | .mutex => ∀ s,h.sems s = false
  | .inode node => h.sems .io = false ∧
    ((h.sems .fs = false ∧ node ∈ h.refs ∧ (h.sems .mutex = true ∨ ∀ other,h.sems (.inode other) = false)) ∨
      (h.sems .fs = true ∧ h.dying = some node))
  | .fs => h.sems .fs = false ∧ h.sems .io = false
  | .io => h.sems .io = false

structure Hold.Calm (h : Hold) : Prop where
  fs : h.sems .fs = false
  io : h.sems .io = false
  due : h.due = none
  dying : h.dying = none

-- The discipline of a call from what the thread has on: which semaphores each step
-- needs, and that an inode is locked and used only with a reference to it. A down on a
-- semaphore the thread has itself never returns, so nothing is asked of what follows it.
def Fits : Hold → Code → Prop
  | h,.done => (∀ s,h.sems s = false) ∧ h.due = none ∧ h.dying = none
  | h,.down s rest => h.Ready s ∧ (h.sems s = false → Fits (h.lock s) rest)
  | h,.up s rest => h.sems s = true ∧ (s = .fs → ∀ node,h.dying = some node → h.sems (.inode node) = false) ∧
      Fits (h.unlock s) rest
  | h,.pick next => ∀ c,Fits h (next c)
  | h,.look _ next => ∀ sin,Fits h (next sin)
  | h,.set _ _ rest => Fits h rest
  | h,.refInc node rest => node ∈ h.refs ∧ Fits (h.gain node) rest
  | h,.refDec node rest => h.Calm ∧ node ∈ h.refs ∧ (h.sems (.inode node) = true → node ∈ h.refs.erase node) ∧
      Fits (h.lose node) rest
  | h,.lookup next => h.sems .fs = true ∧ h.dying = none ∧ ∀ node,Fits (h.gain node) (next node)
  | h,.createInode _ next => ∀ node,Fits (h.gain node) (next node)
  | h,.setLinks node rest => node ∈ h.refs ∧ Fits h rest
  | h,.reclaimDec node next => h.sems .fs = true ∧ h.due = some node ∧ h.dying = none ∧
      ∀ last : Bool,Fits {h with due:=none,dying:=if last then some node else none} (next last)
  | h,.removeLinks _ rest => Fits h rest
  | h,.inodeList next => ∀ nodes,Fits h (next nodes)

namespace Hold

lemma unlock_lock {h : Hold} (free : h.sems s = false) (live : s = .fs → h.dying = none) : (h.lock s).unlock s = h := by
  obtain ⟨sems,_,_,dying⟩ := h
  have same : (fun q => if q = s then false else if q = s then true else sems q) = sems := by
    funext q
    by_cases eq : q = s
    · subst eq
      simpa using free.symm
    simp [eq]
  have kept : (if s = .fs then none else dying) = dying := by
    split
    · exact (live ‹_›).symm
    rfl
  simp only [lock,unlock,same,kept]

lemma lose_gain (h : Hold) (node : Nat) : (h.gain node).lose node = h := by simp [gain,lose]

end Hold

section Pieces
variable {h : Hold}

lemma fits_kmalloc (rest : ∀ ok,Fits h (next ok)) : Fits h (kmalloc next) := fun _ => rest _

lemma fits_ioLock (free : h.sems .io = false) (rest : Fits h next) : Fits h (sfsIoLock next) := by
  refine ⟨free,fun _ => ⟨by simp [Hold.lock],by simp,?_⟩⟩
  rwa [unlock_lock free (by simp)]

lemma fits_transfers (free : h.sems .io = false) (rest : Fits h next) : Fits h (transfers n next) := by
  induction n with
  | zero => exact rest
  | succ n ih => exact fits_ioLock free ih

lemma fits_disk (free : h.sems .io = false) (rest : ∀ ok,Fits h (next ok)) : Fits h (disk next) := fun _ => fits_transfers free fun _ => rest _

lemma fits_search (free : h.sems .io = false) (rest : ∀ r,Fits h (next r)) : Fits h (sfsDirentSearch next) := by
  refine fits_kmalloc fun ok => ?_
  split
  · exact fun _ => fits_transfers free fun _ => rest _
  exact rest _

lemma fits_write (free : h.sems .io = false) (rest : ∀ ok,Fits h (next ok)) : Fits h (sfsDirentWrite next) := by
  refine fits_kmalloc fun ok => ?_
  split
  · exact fits_disk free rest
  exact rest _

lemma fits_link (free : h.sems .io = false) (rest : ∀ ok,Fits h (next ok)) : Fits h (sfsDirentLink node link next) := by
  refine fits_write free fun ok => ?_
  split
  · exact rest _
  exact rest _

lemma fits_unlink (free : h.sems .io = false) (rest : ∀ ok,Fits h (next ok)) : Fits h (sfsDirentUnlink node link next) := by
  refine fits_write free fun ok => ?_
  split
  · exact rest _
  exact rest _

-- The lock is taken and kept, or nothing has changed.
lemma fits_trylock {code ne : Code} (ready : h.Ready (.inode node)) (kept : h.sems (.inode node) = false → Fits (h.lock (.inode node)) code)
    (refused : Fits h ne) : Fits h (trylockSin node fun ok => if ok then code else ne) := by
  intro sin
  simp only [reduceIte,Bool.false_eq_true]
  split
  · exact refused
  refine ⟨ready,fun free sin => ?_⟩
  dsimp only
  split
  · refine ⟨by simp [Hold.lock],by simp,?_⟩
    rwa [unlock_lock free (by simp)]
  exact kept free

lemma fits_unlock (free : h.sems (.inode node) = false) (rest : Fits h next) : Fits (h.lock (.inode node)) (unlockSin node next) := by
  refine ⟨by simp [Hold.lock],by simp,?_⟩
  rwa [unlock_lock free (by simp)]

lemma fits_up_fs (free : h.sems .fs = false) (calm : h.dying = none) (rest : Fits h next) : Fits (h.lock .fs) (.up .fs next) := by
  refine ⟨by simp [Hold.lock],fun _ node dying => ?_,?_⟩
  · simp [Hold.lock,calm] at dying
  rwa [unlock_lock free fun _ => calm]

lemma Hold.gain_lock (h : Hold) (s : Sem) (node : Nat) : (h.lock s).gain node = (h.gain node).lock s := rfl

lemma fits_load (fs : h.sems .fs = false) (io : h.sems .io = false) (calm : h.dying = none)
    (none : Fits h (next none)) (some : ∀ node,Fits (h.gain node) (next (some node))) : Fits h (sfsLoadInode next) := by
  refine ⟨⟨fs,io⟩,fun _ hit => ?_⟩
  have back : Fits (h.lock .fs) (.up .fs (next .none)) := fits_up_fs fs calm none
  have got (node : Nat) : Fits ((h.lock .fs).gain node) (.up .fs (next (.some node))) := by
    rw [gain_lock]
    exact fits_up_fs fs calm (some node)
  dsimp only
  split
  · exact ⟨by simp [Hold.lock],calm,got⟩
  refine fits_kmalloc fun ok => ?_
  split
  · refine fits_ioLock (by simp [Hold.lock,io]) fun c => ?_
    dsimp only
    split
    · exact back
    refine fits_kmalloc fun ok => ?_
    split
    · exact fun node => ⟨by simp [Hold.gain],got node⟩
    exact back
  exact back

lemma fits_createInode (fs : h.sems .fs = false) (io : h.sems .io = false) (calm : h.dying = none)
    (none : Fits h (next none)) (some : ∀ node,Fits (h.gain node) (next (some node))) : Fits h (sfsDirentCreateInode dir next) := by
  refine fits_kmalloc fun ok => ?_
  split
  · refine fits_disk io fun ok => ?_
    split
    · refine fits_kmalloc fun ok => ?_
      split
      · intro node
        exact ⟨⟨fs,io⟩,fun _ => ⟨by simp [Hold.gain,Hold.lock],fits_up_fs fs calm (some node)⟩⟩
      exact none
    exact none
  exact none

lemma fits_fsync (ready : h.Ready (.inode node)) (rest : ∀ ok,Fits h (next ok)) : Fits h (sfsFsync node next) := by
  have io : (h.lock (.inode node)).sems .io = false := by simp [Hold.lock,ready.1]
  intro sin
  dsimp only
  split
  · exact rest _
  refine fits_trylock ready (fun free sin => ?_) (rest _)
  dsimp only
  split
  · refine fits_ioLock io fun c => ?_
    dsimp only
    split
    · exact fits_unlock free (rest _)
    exact fits_unlock free (rest _)
  exact fits_unlock free (rest _)

-- A thread that owes a reclaim comes out of sfs_reclaim with what it had before.
lemma fits_reclaim (calm : h.Calm) (unlocked : h.sems (.inode node) = false) (rest : Fits h next) : Fits {h with due:=some node} (sfsReclaim node next) := by
  obtain ⟨fs,io,due,dying⟩ := calm
  obtain ⟨sems,refs,_,_⟩ := h
  cases due
  cases dying
  refine ⟨⟨fs,io⟩,fun _ => ⟨by simp [Hold.lock],rfl,rfl,fun last => ?_⟩⟩
  -- fs_sem is held; either way the next up of it gives the start back
  have out (dying : Option Nat) (code : Code) (only : ∀ ne,dying = some ne → ne = node) (after : Fits ⟨sems,refs,none,none⟩ code) :
      Fits {Hold.lock ⟨sems,refs,some node,none⟩ .fs with due:=none,dying:=dying} (.up .fs code) := by
    refine ⟨by simp [Hold.lock],fun _ ne eq => ?_,?_⟩
    · rw [only ne eq]
      simpa [Hold.lock] using unlocked
    have eq := unlock_lock (show (mk sems refs none none).sems .fs = false from fs) fun _ => rfl
    rw [← eq] at after
    simpa [Hold.lock,Hold.unlock] using after
  cases last with
  | false => exact out none _ (by simp) rest
  | true =>
    have gone (code : Code) (after : Fits ⟨sems,refs,none,none⟩ code) := out (some node) code (by simp) after
    simp only [reduceIte]
    intro _
    dsimp only
    split
    · refine fits_disk (by simpa [Hold.lock] using io) fun _ => ?_
      exact gone _ (fits_disk io fun _ => rest)
    split
    · refine fits_fsync ⟨by simpa [Hold.lock] using io,.inr ⟨by simp [Hold.lock],rfl⟩⟩ fun ok => ?_
      split
      · exact gone _ rest
      exact gone _ rest
    exact gone _ rest

end Pieces

structure Hold.Rest (h : Hold) : Prop where
  sems : ∀ s,h.sems s = false
  due : h.due = none
  dying : h.dying = none

section Calls
variable {h : Hold}

namespace Hold.Rest

lemma fits (rest : h.Rest) : Fits h .done := ⟨rest.sems,rest.due,rest.dying⟩

lemma calm (rest : h.Rest) : h.Calm := ⟨rest.sems _,rest.sems _,rest.due,rest.dying⟩

lemma gain (rest : h.Rest) (node : Nat) : (h.gain node).Rest := {rest with}

lemma lose (rest : h.Rest) (node : Nat) : (h.lose node).Rest := {rest with}

lemma ready (rest : h.Rest) (owned : node ∈ h.refs) : h.Ready (.inode node) := ⟨rest.sems _,.inl ⟨rest.sems _,owned,.inr fun _ => rest.sems _⟩⟩

end Hold.Rest

lemma Hold.Calm.lock_inode (calm : h.Calm) (node : Nat) : (h.lock (.inode node)).Calm := ⟨by simp [Hold.lock,calm.fs],by simp [Hold.lock,calm.io],calm.due,calm.dying⟩

lemma Hold.Calm.gain (calm : h.Calm) (node : Nat) : (h.gain node).Calm := {calm with}

lemma fits_drop (calm : h.Calm) (older : h.sems (.inode node) = true → node ∈ h.refs) (rest : Fits h next) : Fits (h.gain node) (.refDec node next) := by
  refine ⟨calm.gain node,by simp [Hold.gain],?_,?_⟩
  · simpa [Hold.gain] using older
  rwa [lose_gain]

lemma Hold.Rest.drop (rest : h.Rest) (owned : node ∈ h.refs) (after : Fits (h.lose node) next) : Fits h (.refDec node next) := ⟨rest.calm,owned,by simp [rest.sems],after⟩

lemma fits_load_calm (calm : h.Calm) (none : Fits h (next none)) (some : ∀ node,Fits (h.gain node) (next (some node))) :
    Fits h (sfsLoadInode next) := fits_load calm.fs calm.io calm.dying none some

lemma fits_lookupOnce (rest : h.Rest) (owned : node ∈ h.refs) (none : Fits h (next none))
    (some : ∀ sub,Fits (h.gain sub) (next (some sub))) : Fits h (sfsLookupOnce node next) := by
  refine fits_trylock (rest.ready owned) (fun _ => ?_) none
  refine fits_search (rest.calm.lock_inode node).io fun r => fits_unlock (rest.sems _) ?_
  split
  · exact fits_load_calm rest.calm none some
  exact none

lemma Hold.gain_lose_refs (h : Hold) (node sub : Nat) : sub ∈ ((h.gain sub).lose node).refs ∨ node = sub := by
  by_cases eq : node = sub
  · exact .inr eq
  left
  simp [Hold.gain,Hold.lose,Ne.symm eq]

lemma Hold.passed (h : Hold) {node : Nat} (owned : node ∈ h.refs) (sub : Nat) : sub ∈ ((h.gain sub).lose node).refs := by
  rcases h.gain_lose_refs node sub with held | rfl
  · exact held
  rwa [lose_gain]

lemma fits_lookupLoop (n : Nat) : ∀ {h : Hold} {node : Nat},h.Rest → node ∈ h.refs → Fits h (sfsLookupLoop n node) := by
  induction n with
  | zero => exact fun rest _ => rest.fits
  | succ n ih =>
    intro h node rest owned _
    have stop : Fits h (.refDec node .done) := rest.drop owned (rest.lose node).fits
    -- the walk goes on at the load inode, after the reference to this one is cut
    have onward (sub : Nat) : Fits (h.gain sub) (.refDec node (sfsLookupLoop n sub)) :=
      (rest.gain sub).drop (List.mem_cons_of_mem _ owned) (ih ((rest.gain sub).lose node) (h.passed owned sub))
    dsimp only
    split
    · exact stop
    intro c
    dsimp only
    split
    · exact stop
    · exact fits_load_calm rest.calm stop onward
    exact fits_lookupOnce rest owned stop onward

lemma fits_out (rest : h.Rest) (node : Nat) : Fits (h.lock (.inode node)) (unlockSin node .done) := fits_unlock (rest.sems _) rest.fits

section
variable (rest : h.Rest) (owned : node ∈ h.refs)
include rest owned

lemma fits_dropped (link : Nat) : Fits ((h.lock (.inode node)).gain link) (.refDec link (unlockSin node .done)) := by
  refine fits_drop (rest.calm.lock_inode node) (fun held => ?_) (fits_out rest node)
  have eq : link = node := by simpa [Hold.lock,rest.sems] using held
  exact eq ▸ owned

lemma fits_create : Fits h (sfsCreate node excl) := by
  have calm := rest.calm.lock_inode node
  have out := fits_out rest node
  have kept (link : Nat) : Fits ((h.lock (.inode node)).gain link) (unlockSin node .done) := by
    rw [gain_lock]
    exact fits_unlock (rest.sems _) (rest.gain link).fits
  refine fits_trylock (rest.ready owned) (fun _ => fits_search calm.io fun r => ?_) rest.fits
  cases r with
  | failed => exact out
  | found =>
    dsimp only
    split
    · exact out
    refine fits_load_calm calm out fun link sin => ?_
    dsimp only
    split
    · exact kept link
    exact fits_dropped rest owned link
  | noent =>
    refine fits_createInode calm.fs calm.io calm.dying out fun link => ?_
    refine fits_link (calm.gain link).io fun ok => ?_
    split
    · exact kept link
    exact fits_dropped rest owned link

lemma fits_mkdir : Fits h (sfsMkdir node) := by
  have calm := rest.calm.lock_inode node
  have out := fits_out rest node
  refine fits_trylock (rest.ready owned) (fun _ => fits_search calm.io fun r => ?_) rest.fits
  split
  · refine fits_createInode calm.fs calm.io calm.dying out fun link => ?_
    refine fits_link (calm.gain link).io fun ok => ?_
    split
    · exact fits_dropped rest owned link
    exact fits_dropped rest owned link
  exact out

lemma fits_linkCall : Fits h (sfsLink node link) := by
  have out := fits_out rest node
  intro _
  dsimp only
  split
  · exact rest.fits
  refine fits_trylock (rest.ready owned) (fun _ => ?_) rest.fits
  refine fits_search (rest.calm.lock_inode node).io fun r => ?_
  split
  · exact fits_link (rest.calm.lock_inode node).io fun _ => out
  exact out

lemma fits_io : Fits h (sfsIo node) := by
  have out := fits_out rest node
  refine fits_trylock (rest.ready owned) (fun _ => ?_) rest.fits
  refine fits_disk (rest.calm.lock_inode node).io fun grown => ?_
  split
  · exact out
  exact out

lemma fits_getdirentry : Fits h (sfsGetdirentry node) := by
  refine fits_kmalloc fun ok => ?_
  split
  · refine fits_trylock (rest.ready owned) (fun _ => ?_) rest.fits
    exact fits_disk (rest.calm.lock_inode node).io fun _ => fits_unlock (rest.sems _) rest.fits
  exact rest.fits

end

lemma fits_namefileLoop (n : Nat) : ∀ {h : Hold} {node : Nat},h.Rest → node ∈ h.refs → Fits h (sfsNamefileLoop n node) := by
  induction n with
  | zero => exact fun rest owned => rest.drop owned (rest.lose _).fits
  | succ n ih =>
    intro h node rest owned
    refine fits_load_calm rest.calm (rest.drop owned (rest.lose _).fits) fun parent => ?_
    have after := (rest.gain parent).lose node
    have held := h.passed owned parent
    have stop := after.drop held (after.lose parent).fits
    refine (rest.gain parent).drop (List.mem_cons_of_mem _ owned) ?_
    refine fits_trylock (after.ready held) (fun _ => ?_) stop
    refine fits_disk (after.calm.lock_inode parent).io fun ok => fits_unlock (after.sems _) ?_
    split
    · exact ih after held
    exact stop

lemma Hold.Rest.mutex (rest : h.Rest) : (h.lock .mutex).Calm := ⟨by simp [Hold.lock,rest.sems],by simp [Hold.lock,rest.sems],rest.due,rest.dying⟩

lemma fits_up_mutex (rest : h.Rest) : Fits (h.lock .mutex) (.up .mutex .done) := by
  refine ⟨by simp [Hold.lock],by simp,?_⟩
  rw [unlock_lock (rest.sems _) (by simp)]
  exact rest.fits

lemma fits_back (rest : h.Rest) (node : Nat) : Fits ((h.lock .mutex).lock (.inode node)) (unlockSin node (.up .mutex .done)) :=
  fits_unlock (by simp [Hold.lock,rest.sems]) (fits_up_mutex rest)

lemma Hold.Calm.ready (calm : h.Calm) (mutex : h.sems .mutex = true) (owned : node ∈ h.refs) : h.Ready (.inode node) := ⟨calm.io,.inl ⟨calm.fs,owned,.inl mutex⟩⟩

lemma fits_unlinkCall (rest : h.Rest) (owned : node ∈ h.refs) : Fits h (sfsUnlink node) := by
  have calm := rest.mutex
  have both := calm.lock_inode node
  have back := fits_back rest node
  have out (link : Nat) : Fits (((h.lock .mutex).lock (.inode node)).gain link) (unlinkOut node link) := by
    refine fits_drop both (fun held => ?_) back
    have eq : link = node := by simpa [Hold.lock,rest.sems] using held
    exact eq ▸ owned
  refine ⟨rest.sems,fun _ => fits_trylock (calm.ready (by simp [Hold.lock]) owned) (fun _ => ?_) (fits_up_mutex rest)⟩
  refine fits_search both.io fun r => ?_
  split
  · refine fits_load_calm both back fun link sin => ?_
    have inner := both.gain link
    dsimp only
    split
    · refine fits_trylock (inner.ready (by simp [Hold.lock,Hold.gain]) (by simp [Hold.gain])) (fun unlocked slots => ?_) (out link)
      have leave := fits_unlock unlocked (out link)
      dsimp only
      split
      · exact leave
      refine fits_unlink (inner.lock_inode link).io fun ok => ?_
      split
      · exact leave
      exact leave
    exact fits_unlink inner.io fun _ => out link
  exact back

lemma fits_rename1 (io : h.sems .io = false) (rest : Fits h next) : Fits h (sfsRename1 next) := by
  refine fits_search io fun r => ?_
  split
  · refine fits_search io fun r => ?_
    split
    · exact fits_write io fun _ => rest
    exact rest
  exact rest

lemma fits_rename2 (calm : h.Calm) (locked : ∀ ne,h.sems (.inode ne) = true → ne ∈ h.refs) (rest : Fits h next) : Fits h (sfsRename2 node newNode next) := by
  have cut (link : Nat) : Fits (h.gain link) (.refDec link next) := fits_drop calm (locked link) rest
  have relinked (link : Nat) (isdir : Bool) : Fits (h.gain link) (sfsRename2Link node newNode link isdir next) := by
    refine fits_link calm.io fun ok => ?_
    split
    · split
      · exact cut link
      exact cut link
    refine fits_link calm.io fun ok => ?_
    split
    · exact cut link
    exact cut link
  refine fits_search calm.io fun r => ?_
  split
  · refine fits_search calm.io fun r => ?_
    split
    · refine fits_load_calm calm rest fun link => ?_
      refine fits_unlink calm.io fun ok => ?_
      split
      · intro _
        dsimp only
        split
        · exact relinked link true
        exact relinked link false
      exact cut link
    exact rest
  exact rest

lemma fits_rename (rest : h.Rest) (owned : node ∈ h.refs) (held : newNode ∈ h.refs) : Fits h (sfsRename node newNode) := by
  have calm := rest.mutex
  have one := calm.lock_inode node
  have back := fits_back rest node
  refine ⟨rest.sems,fun _ => fits_trylock (calm.ready (by simp [Hold.lock]) owned) (fun _ => ?_) (fits_up_mutex rest)⟩
  split
  · exact fits_rename1 one.io back
  refine fits_trylock (one.ready (by simp [Hold.lock]) held) (fun unlocked => ?_) back
  refine fits_rename2 (one.lock_inode newNode) ?_ (fits_unlock unlocked back)
  intro ne locked
  have either : ne = newNode ∨ ne = node := by
    by_contra neither
    push Not at neither
    simp [Hold.lock,rest.sems,neither] at locked
  rcases either with rfl | rfl
  · exact held
  exact owned

namespace Op

lemma fits {op : Op} (rest : h.Rest) (owned : ∀ node ∈ op.args,node ∈ h.refs) (ne : op ≠ .sync) : Fits h op.code := by
  have own {node : Nat} (mem : node ∈ op.args) := owned node mem
  cases op with
  | lookup node names =>
    have held : node ∈ h.refs := own (by simp [args])
    exact ⟨held,fits_lookupLoop names (rest.gain node) (by simp [Hold.gain])⟩
  | create node excl => exact fits_create rest (own (by simp [args]))
  | mkdir node => exact fits_mkdir rest (own (by simp [args]))
  | link node goal => exact fits_linkCall rest (own (by simp [args]))
  | unlink node => exact fits_unlinkCall rest (own (by simp [args]))
  | rename node newNode => exact fits_rename rest (own (by simp [args])) (own (by simp [args]))
  | io node => exact fits_io rest (own (by simp [args]))
  | truncate node =>
    intro eq
    dsimp only
    split
    · exact rest.fits
    exact fits_io rest (own (by simp [args]))
  | fsync node => exact fits_fsync (rest.ready (own (by simp [args]))) fun _ => rest.fits
  | getdirentry node => exact fits_getdirentry rest (own (by simp [args]))
  | namefile node depth =>
    have held : node ∈ h.refs := own (by simp [args])
    simp only [code]
    refine fits_kmalloc fun ok => ?_
    split
    · exact ⟨held,fits_namefileLoop depth (rest.gain node) (by simp [Hold.gain])⟩
    exact rest.fits
  | close node =>
    have held : node ∈ h.refs := own (by simp [args])
    exact fits_fsync (rest.ready held) fun _ => rest.drop held (rest.lose node).fits
  | drop node => exact rest.drop (own (by simp [args])) (rest.lose node).fits
  | sync => exact absurd rfl ne

end Op

end Calls

structure Agrees (w : World) (t : Nat) (h : Hold) : Prop where
  held : ∀ s,w.holder s = some t ↔ h.sems s = true
  owned : ∀ node,(w.owners node).count t = h.refs.count node
  pending : ∀ node,(w.pending node).count t = if h.due = some node then 1 else 0
  dying : ∀ node,h.dying = some node → h.sems .fs = true ∧ w.owners node = [] ∧ node < w.fresh
  locked : ∀ node,h.sems (.inode node) = true → node ∈ h.refs ∨ h.dying = some node

-- What holds between any two steps of any threads. The pending calls of sfs_reclaim
-- are reclaim_count, less one for an inode with references.
structure Counted (w : World) : Prop where
  agrees : ∀ t,Agrees w t (w.hold t)
  reclaims : ∀ node,w.reclaims node = (w.pending node).length + min 1 (w.owners node).length
  unborn : ∀ node,w.fresh ≤ node → w.owners node = [] ∧ w.pending node = []
  listed : ∀ node ∈ w.listed,node < w.fresh

structure Safe (w : World) : Prop where
  fits : ∀ t,Fits (w.hold t) (w.code t)
  counted : Counted w

section Steps
variable {w : World}

lemma Agrees.owner (own : Agrees w t h) : t ∈ w.owners node ↔ node ∈ h.refs := by rw [← List.count_pos_iff,← List.count_pos_iff,own.owned]

lemma Agrees.free (own : Agrees w t h) (free : w.holder s = none) : h.sems s = false := by
  by_contra taken
  have one := (own.held s).mpr (by simpa using taken)
  simp [free] at one

lemma Counted.born (good : Counted w) (owned : node ∈ (w.hold t).refs) : node < w.fresh := by
  by_contra late
  have none := (good.unborn node (by omega)).1
  have mem := (good.agrees t).owner.mpr owned
  simp [none] at mem

lemma Counted.holder_unique (good : Counted w) (first : (w.hold t).sems s = true) (two : (w.hold u).sems s = true) : t = u := by
  have one := ((good.agrees t).held s).mpr first
  rw [((good.agrees u).held s).mpr two] at one
  exact (Option.some.inj one).symm

lemma agrees_put {v : World} (all : ∀ u,Agrees w u (w.hold u)) (hold : v.hold = put w.hold t h) (mine : Agrees v t h)
    (others : ∀ u ≠ t,Agrees w u (w.hold u) → Agrees v u (w.hold u)) : ∀ u,Agrees v u (v.hold u) := by
  intro u
  rw [hold]
  by_cases me : u = t
  · subst me
    rwa [put_same]
  rw [put_other me]
  exact others u me (all u)

lemma Counted.lock (good : Counted w) (free : w.holder s = none) (ready : (w.hold t).Ready s) : Counted (w.lock t s) := by
  have own := good.agrees t
  refine {good with agrees:=agrees_put good.agrees rfl ?_ ?_}
  · refine ⟨fun q => ?_,own.owned,own.pending,fun node dying => ?_,fun node locked => ?_⟩
    · by_cases eq : q = s
      · simp [World.lock,Hold.lock,eq]
      simp [World.lock,Hold.lock,eq,own.held]
    · have old := own.dying node dying
      exact ⟨by simp [Hold.lock,old.1],old.2⟩
    by_cases eq : Sem.inode node = s
    · subst eq
      rcases ready.2 with ⟨_,owned,_⟩ | ⟨_,dying⟩
      · exact .inl owned
      exact .inr dying
    exact own.locked node (by simpa [Hold.lock,eq] using locked)
  intro u me its
  refine {its with held:=fun q => ?_}
  by_cases eq : q = s
  · simp [World.lock,eq,its.free free,Ne.symm me]
  simp [World.lock,eq,its.held]

lemma Counted.unlock (good : Counted w) (taken : (w.hold t).sems s = true)
    (alive : s = .fs → ∀ node,(w.hold t).dying = some node → (w.hold t).sems (.inode node) = false) : Counted (w.unlock t s) := by
  have own := good.agrees t
  refine {good with agrees:=agrees_put good.agrees rfl ?_ ?_}
  · refine ⟨fun q => ?_,own.owned,own.pending,fun node dying => ?_,fun node locked => ?_⟩
    · by_cases eq : q = s
      · simp [World.unlock,Hold.unlock,eq]
      simp [World.unlock,Hold.unlock,eq,own.held]
    · simp only [Hold.unlock] at dying ⊢
      split at dying
      · cases dying
      next ne =>
        have old := own.dying node dying
        rw [if_neg (Ne.symm ne)]
        exact old
    have old : (w.hold t).sems (.inode node) = true := by
      by_contra off
      simp [Hold.unlock,off] at locked
    rcases own.locked node old with owned | dying
    · exact .inl owned
    by_cases last : s = .fs
    · simp [alive last node dying] at old
    exact .inr (by simpa [Hold.unlock,last] using dying)
  intro u me its
  refine {its with held:=fun q => ?_}
  by_cases eq : q = s
  · subst eq
    have off : (w.hold u).sems q ≠ true := fun on => me (good.holder_unique on taken)
    simp [World.unlock,off]
  simp [World.unlock,eq,its.held]

lemma Counted.gain (good : Counted w) (born : node < w.fresh) (alive : ∀ u,(w.hold u).dying ≠ some node) : Counted (w.gain t node) := by
  have own := good.agrees t
  have unowned {ne : Nat} (off : ne ≠ node) : (w.gain t node).owners ne = w.owners ne := put_other off
  have more : (w.gain t node).owners node = t :: w.owners node := put_same ..
  refine ⟨agrees_put good.agrees rfl ?_ ?_,fun ne => ?_,fun ne late => ?_,good.listed⟩
  · refine ⟨own.held,fun ne => ?_,own.pending,fun ne dying => ?_,fun ne locked => ?_⟩
    · by_cases same : ne = node
      · subst same
        simp [more,Hold.gain,own.owned]
      simp [unowned same,Hold.gain,own.owned,Ne.symm same]
    · have old := own.dying ne dying
      have off : ne ≠ node := fun eq => alive t (eq ▸ dying)
      exact ⟨old.1,by rw [unowned off]; exact old.2.1,old.2.2⟩
    rcases own.locked ne locked with owned | dying
    · exact .inl (List.mem_cons_of_mem _ owned)
    exact .inr dying
  · intro u me its
    refine ⟨its.held,fun ne => ?_,its.pending,fun ne dying => ?_,its.locked⟩
    · by_cases same : ne = node
      · subst same
        simp [more,its.owned,Ne.symm me]
      simp [unowned same,its.owned]
    have old := its.dying ne dying
    have off : ne ≠ node := fun eq => alive u (eq ▸ dying)
    exact ⟨old.1,by rw [unowned off]; exact old.2.1,old.2.2⟩
  · by_cases same : ne = node
    · subst same
      have old := good.reclaims ne
      by_cases first : w.owners ne = []
      · simp [World.gain,put,first,old]
      have pre := length_pos_iff.mpr first
      simp only [World.gain,put_same,if_neg first,List.length_cons]
      omega
    simpa [World.gain,put,same] using good.reclaims ne
  have off : ne ≠ node := by
    rintro rfl
    exact absurd born (by simpa [World.gain] using late)
  rw [unowned off]
  exact good.unborn ne late

lemma Agrees.owned_nonempty (own : Agrees w t h) (owned : node ∈ h.refs) : w.owners node ≠ [] := List.ne_nil_of_mem (own.owner.mpr owned)

lemma Counted.alive (good : Counted w) (owned : node ∈ (w.hold t).refs) : ∀ u,(w.hold u).dying ≠ some node := by
  intro u dying
  exact (good.agrees t).owned_nonempty owned ((good.agrees u).dying node dying).2.1

-- Under fs_sem, with nothing of its own on the way out, a thread knows that nobody is.
lemma Counted.nobody_dying (good : Counted w) (fs : (w.hold t).sems .fs = true) (none : (w.hold t).dying = none) : ∀ u node,(w.hold u).dying ≠ some node := by
  intro u node dying
  have eq := good.holder_unique ((good.agrees u).dying node dying).1 fs
  subst eq
  simp [none] at dying

lemma Counted.lose_agrees (good : Counted w) (owned : node ∈ (w.hold t).refs)
    (older : (w.hold t).sems (.inode node) = true → node ∈ (w.hold t).refs.erase node) :
    ∀ u,Agrees (w.lose t node) u ((w.lose t node).hold u) := by
  have own := good.agrees t
  have same {ne : Nat} (off : ne ≠ node) : (w.lose t node).owners ne = w.owners ne := put_other off
  have fewer : (w.lose t node).owners node = (w.owners node).erase t := put_same ..
  have gone {ne : Nat} (none : w.owners ne = []) : (w.lose t node).owners ne = [] := by
    by_cases eq : ne = node
    · subst eq
      simp [fewer,none]
    rw [same eq,none]
  refine agrees_put good.agrees rfl ?_ ?_
  · refine ⟨own.held,fun ne => ?_,own.pending,fun ne dying => ?_,fun ne locked => ?_⟩
    · by_cases eq : ne = node
      · subst eq
        simp [fewer,Hold.lose,List.count_erase_self,own.owned]
      simp [same eq,Hold.lose,List.count_erase_of_ne eq,own.owned]
    · have old := own.dying ne dying
      exact ⟨old.1,gone old.2.1,old.2.2⟩
    rcases own.locked ne locked with held | dying
    · by_cases eq : ne = node
      · subst eq
        exact .inl (older locked)
      exact .inl ((List.mem_erase_of_ne eq).mpr held)
    exact .inr dying
  intro u me its
  refine ⟨its.held,fun ne => ?_,its.pending,fun ne dying => ?_,its.locked⟩
  · by_cases eq : ne = node
    · subst eq
      rw [fewer,List.count_erase_of_ne me,its.owned]
    rw [same eq,its.owned]
  have old := its.dying ne dying
  exact ⟨old.1,gone old.2.1,old.2.2⟩

lemma World.lose_other (off : ne ≠ node) : (w.lose t node).owners ne = w.owners ne := put_other off

lemma Counted.lose (good : Counted w) (owned : node ∈ (w.hold t).refs)
    (older : (w.hold t).sems (.inode node) = true → node ∈ (w.hold t).refs.erase node)
    (more : (w.lose t node).owners node ≠ []) : Counted (w.lose t node) := by
  refine ⟨good.lose_agrees owned older,fun ne => ?_,fun ne late => ?_,good.listed⟩
  · by_cases eq : ne = node
    · subst eq
      have pre := length_pos_iff.mpr ((good.agrees t).owned_nonempty owned)
      have after := length_pos_iff.mpr more
      have old := good.reclaims ne
      change w.reclaims ne = (w.pending ne).length + min 1 ((w.lose t ne).owners ne).length
      omega
    rw [lose_other eq]
    exact good.reclaims ne
  have off : ne ≠ node := by
    rintro rfl
    exact absurd (good.born owned) (by simpa [World.lose] using late)
  rw [lose_other off]
  exact good.unborn ne late

lemma Counted.owe (good : Counted w) (owned : node ∈ (w.hold t).refs) (calm : (w.hold t).Calm)
    (older : (w.hold t).sems (.inode node) = true → node ∈ (w.hold t).refs.erase node)
    (last : (w.lose t node).owners node = []) : Counted ((w.lose t node).owe t node) := by
  have all := good.lose_agrees owned older
  have own := all t
  have idle : ((w.lose t node).hold t).due = none := by simpa [World.lose,put,Hold.lose] using calm.due
  have unowed : ((w.lose t node).pending node).count t = 0 := by simp [own.pending,idle]
  refine ⟨agrees_put all rfl ?_ ?_,fun ne => ?_,fun ne late => ?_,good.listed⟩
  · refine {own with pending:=fun ne => ?_}
    by_cases eq : ne = node
    · subst eq
      simp [World.owe,put,unowed]
    have pre := own.pending ne
    simpa [World.owe,put,eq,Ne.symm eq,idle] using pre
  · intro u me its
    refine {its with pending:=fun ne => ?_}
    by_cases eq : ne = node
    · subst eq
      simpa [World.owe,put,Ne.symm me] using its.pending ne
    simpa [World.owe,put,eq] using its.pending ne
  · by_cases eq : ne = node
    · subst eq
      have pre := length_pos_iff.mpr ((good.agrees t).owned_nonempty owned)
      have after := congrArg List.length last
      have old := good.reclaims ne
      have listed : ((w.lose t ne).owe t ne).pending ne = t :: w.pending ne := put_same ..
      rw [listed,List.length_cons]
      change w.reclaims ne = (w.pending ne).length + 1 + min 1 ((w.lose t ne).owners ne).length
      simp only [List.length_nil] at after
      omega
    have listed : ((w.lose t node).owe t node).pending ne = w.pending ne := put_other eq
    have owners : ((w.lose t node).owe t node).owners ne = w.owners ne := put_other eq
    rw [listed,owners]
    exact good.reclaims ne
  have off : ne ≠ node := by
    rintro rfl
    exact absurd (good.born owned) (by simpa [World.owe,World.lose] using late)
  have old := good.unborn ne late
  exact ⟨(put_other off).trans old.1,(put_other off).trans old.2⟩

-- reclaim_count goes down with the pending calls; at zero there is no reference.
lemma Counted.settle (good : Counted w) (fs : (w.hold t).sems .fs = true) (due : (w.hold t).due = some node)
    (unlocked : ∀ ne,(w.hold t).sems (.inode ne) = true → ne ∈ (w.hold t).refs) : Counted (w.settle t node) := by
  have own := good.agrees t
  have once : (w.pending node).count t = 1 := by simp [own.pending,due]
  have mem : t ∈ w.pending node := List.count_pos_iff.mp (by omega)
  have size := List.length_erase_of_mem mem
  have waiting := List.length_pos_of_mem mem
  have old := good.reclaims node
  refine ⟨agrees_put good.agrees rfl ?_ ?_,fun ne => ?_,fun ne late => ?_,good.listed⟩
  · refine ⟨own.held,own.owned,fun ne => ?_,fun ne dying => ?_,fun ne locked => .inl (unlocked ne locked)⟩
    · by_cases eq : ne = node
      · subst eq
        simp [World.settle,put,List.count_erase_self,once]
      simpa [World.settle,put,eq,Ne.symm eq,due] using own.pending ne
    dsimp only at dying
    split at dying
    · cases dying
      refine ⟨fs,?_,?_⟩
      · by_contra owned
        have pre : 0 < (w.owners node).length := length_pos_iff.mpr owned
        omega
      by_contra late
      have none := (good.unborn node (by simpa [World.settle] using late)).2
      simp [none] at mem
    cases dying
  · intro u me its
    refine {its with pending:=fun ne => ?_}
    by_cases eq : ne = node
    · subst eq
      simpa [World.settle,put,List.count_erase_of_ne me] using its.pending ne
    simpa [World.settle,put,eq] using its.pending ne
  · by_cases eq : ne = node
    · subst eq
      simp only [World.settle,put_same,size]
      omega
    have fewer : (w.settle t node).reclaims ne = w.reclaims ne := put_other eq
    have kept : (w.settle t node).pending ne = w.pending ne := put_other eq
    rw [fewer,kept]
    exact good.reclaims ne
  have none := good.unborn ne late
  have off : ne ≠ node := by
    rintro rfl
    simp [none.2] at mem
  exact ⟨none.1,(put_other off).trans none.2⟩

lemma Safe.resume {v : World} (safe : Safe w) (good : Counted v) (code : v.code = w.code) (hold : ∀ u ≠ t,v.hold u = w.hold u)
    (fits : Fits (v.hold t) next) : Safe (v.resume t next) := by
  refine ⟨fun u => ?_,{good with agrees:=fun u => ?_}⟩
  · by_cases me : u = t
    · subst me
      simpa [World.resume,put] using fits
    simpa [World.resume,put,me,code,hold u me] using safe.fits u
  have own := good.agrees u
  exact {own with}

lemma Counted.sins (good : Counted w) (sins : Nat → Sin) : Counted {w with sins:=sins} := by
  refine {good with agrees:=fun u => ?_}
  have own := good.agrees u
  exact {own with}

lemma Counted.listing (good : Counted w) (born : ∀ node ∈ nodes,node < w.fresh) : Counted {w with listed:=nodes} := by
  refine ⟨fun u => ?_,good.reclaims,good.unborn,born⟩
  have own := good.agrees u
  exact {own with}

lemma Counted.birth (good : Counted w) (sins : Nat → Sin) : Counted {w with fresh:=w.fresh + 1,sins:=sins} := by
  refine ⟨fun u => ?_,good.reclaims,fun node late => ?_,fun node mem => ?_⟩
  · have own := good.agrees u
    refine {own with dying:=fun node dying => ?_}
    have old := own.dying node dying
    exact ⟨old.1,old.2.1,Nat.lt_succ_of_lt old.2.2⟩
  · exact good.unborn node (Nat.le_of_succ_le late)
  exact Nat.lt_succ_of_lt (good.listed node mem)

lemma Safe.run (safe : Safe w) (ran : w.run t c = some v) : Safe v := by
  have fits := safe.fits t
  have good := safe.counted
  unfold World.run at ran
  split at ran
  case h_1 => cases ran
  case h_2 s rest eq =>
    rw [eq] at fits
    split at ran
    · cases ran
      refine safe.resume (good.lock ‹_› fits.1) rfl (fun u ne => put_other ne) ?_
      simpa only [World.lock,put_same] using fits.2 ((good.agrees t).free ‹_›)
    cases ran
  case h_3 s rest eq =>
    cases ran
    rw [eq] at fits
    refine safe.resume (good.unlock fits.1 fits.2.1) rfl (fun u ne => put_other ne) ?_
    simpa only [World.unlock,put_same] using fits.2.2
  case h_4 next eq =>
    cases ran
    rw [eq] at fits
    exact safe.resume good rfl (fun _ _ => rfl) (fits c)
  case h_5 node next eq =>
    cases ran
    rw [eq] at fits
    exact safe.resume good rfl (fun _ _ => rfl) (fits _)
  case h_6 node change rest eq =>
    cases ran
    rw [eq] at fits
    exact safe.resume (good.sins _) rfl (fun _ _ => rfl) fits
  case h_7 node rest eq =>
    cases ran
    rw [eq] at fits
    refine safe.resume (good.gain (good.born fits.1) (good.alive fits.1)) rfl (fun u ne => put_other ne) ?_
    simpa only [World.gain,put_same] using fits.2
  case h_8 node rest eq =>
    rw [eq] at fits
    obtain ⟨calm,owned,older,after⟩ := fits
    have mine : (w.lose t node).hold t = (w.hold t).lose node := put_same ..
    split at ran
    next last =>
      cases ran
      refine safe.resume (good.owe owned calm older last) rfl (fun u ne => ?_) ?_
      · simp [World.owe,World.lose,put,ne]
      -- nobody refers to the inode any more, so this thread has not locked it either
      have unlocked : (w.hold t).sems (.inode node) = false := by
        by_contra locked
        have still := older (by simpa using locked)
        have own := good.lose_agrees owned older t
        rw [mine] at own
        have mem := own.owner.mpr still
        simp [last] at mem
      simp only [World.owe,put_same,mine]
      exact fits_reclaim {calm with} unlocked after
    cases ran
    refine safe.resume (good.lose owned older ‹_›) rfl (fun u ne => put_other ne) ?_
    rwa [mine]
  case h_9 next eq =>
    rw [eq] at fits
    split at ran
    · cases ran
    rename_i node got
    cases ran
    have born := good.listed node (List.mem_of_getElem? got)
    refine safe.resume (good.gain born fun u => good.nobody_dying fits.1 fits.2.1 u node) rfl (fun u ne => put_other ne) ?_
    simpa only [World.gain,put_same] using fits.2.2 node
  case h_10 sin next eq =>
    cases ran
    rw [eq] at fits
    have wider := good.birth (put w.sins w.fresh sin)
    refine safe.resume (wider.gain (Nat.lt_succ_self _) fun u dying => ?_) rfl (fun u ne => put_other ne) ?_
    · exact absurd ((good.agrees u).dying _ dying).2.2 (lt_irrefl _)
    simpa only [World.gain,put_same] using fits w.fresh
  case h_11 node rest eq =>
    cases ran
    rw [eq] at fits
    refine safe.resume (good.listing fun ne mem => ?_) rfl (fun _ _ => rfl) fits.2
    rcases List.mem_cons.mp mem with rfl | old
    · exact good.born fits.1
    exact good.listed ne old
  case h_12 node next eq =>
    cases ran
    rw [eq] at fits
    obtain ⟨fs,due,none,after⟩ := fits
    have unlocked (ne : Nat) (locked : (w.hold t).sems (.inode ne) = true) : ne ∈ (w.hold t).refs := by
      rcases (good.agrees t).locked ne locked with owned | dying
      · exact owned
      simp [none] at dying
    refine safe.resume (good.settle fs due unlocked) rfl (fun u ne => put_other ne) ?_
    simpa [World.settle,put] using after (decide (w.reclaims node - 1 = 0))
  case h_13 node rest eq =>
    cases ran
    rw [eq] at fits
    exact safe.resume (good.listing fun ne mem => good.listed ne (List.mem_of_mem_erase mem)) rfl (fun _ _ => rfl) fits
  case h_14 next eq =>
    cases ran
    rw [eq] at fits
    exact safe.resume good rfl (fun _ _ => rfl) (fits _)

lemma Code.of_isDone {code : Code} (done : code.isDone = true) : code = .done := by cases code <;> first | rfl | cases done

lemma Safe.rest (safe : Safe w) (done : (w.code t).isDone = true) : (w.hold t).Rest := by
  have fits := safe.fits t
  rw [Code.of_isDone done] at fits
  exact ⟨fits.1,fits.2.1,fits.2.2⟩

lemma Safe.apply (safe : Safe w) (ne : ∀ t,label ≠ .enter t .sync) (moved : w.apply label = some v) : Safe v := by
  cases label with
  | run t c => exact safe.run moved
  | enter t _ =>
    simp only [World.apply] at moved
    split at moved
    next may =>
      cases moved
      have fits := Op.fits (safe.rest may.1) may.2 fun eq => ne t (by rw [eq])
      exact safe.resume safe.counted rfl (fun _ _ => rfl) fits
    cases moved
  | share t u node =>
    simp only [World.apply] at moved
    split at moved
    next may =>
      cases moved
      have good := safe.counted
      have rest := safe.rest may.2
      refine ⟨fun x => ?_,good.gain (good.born may.1) (good.alive may.1)⟩
      by_cases me : x = u
      · subst me
        have mine : (w.gain x node).hold x = (w.hold x).gain node := put_same ..
        rw [mine]
        change Fits _ (w.code x)
        rw [Code.of_isDone may.2]
        exact (rest.gain node).fits
      have its : (w.gain u node).hold x = w.hold x := put_other me
      rw [its]
      exact safe.fits x
    cases moved

lemma Idle.safe (idle : Idle w) : Safe w := by
  refine ⟨fun t => ?_,⟨fun t => ?_,fun node => ?_,fun node late => ⟨idle.unborn node late,idle.pending node⟩,idle.listed⟩⟩
  · rw [idle.code t]
    exact ⟨idle.sems t,idle.due t,idle.dying t⟩
  · refine ⟨fun s => ?_,fun node => idle.owners node t,fun node => ?_,fun node dying => ?_,fun node locked => ?_⟩
    · simp [idle.holder,idle.sems]
    · simp [idle.pending,idle.due]
    · simp [idle.dying] at dying
    simp [idle.sems] at locked
  rw [idle.reclaims,idle.pending]
  split
  · simp [*]
  have some := length_pos_iff.mpr ‹w.owners node ≠ []›
  simp only [List.length_nil]
  omega

lemma Safe.path (safe : Safe w) (path : Path move w labels v) (ne : ∀ label ∈ labels,∀ t,label ≠ .enter t .sync) : Safe v := by
  induction path with
  | nil => exact safe
  | step _ next ih =>
    have pre := ih fun label mem => ne label (List.mem_append_left _ mem)
    exact pre.apply (ne _ (by simp)) next

-- Where a waiting thread stands: mutex_sem, inodes, inodes under mutex_sem, fs_sem, io_sem.
def World.level (w : World) (t : Nat) : Nat :=
  match w.code t with
  | .down .mutex _ => 0
  | .down (.inode _) _ => if (w.hold t).sems .mutex then 2 else 1
  | .down .fs _ => 3
  | .down .io _ => 4
  | _ => 0

lemma World.level_le (w : World) (t : Nat) : w.level t ≤ 4 := by
  unfold level
  split
  case h_2 => split <;> omega
  all_goals omega

lemma Counted.dying_unlocked (good : Counted w) (dying : (w.hold t).dying = some node) (locked : (w.hold u).sems (.inode node) = true) : u = t := by
  rcases (good.agrees u).locked node locked with owned | eq
  · exact absurd dying (good.alive owned t)
  exact good.holder_unique ((good.agrees u).dying node eq).1 ((good.agrees t).dying node dying).1

-- A thread that waits for another one holds nothing at its own level or above.
lemma Safe.level_rises (safe : Safe w) (ne : u ≠ t) (beyond : v ≠ u) (wait : w.waits t u) (after : w.waits u v) : w.level t < w.level u := by
  obtain ⟨s,_,code,held⟩ := wait
  obtain ⟨q,_,next,taken⟩ := after
  have good := safe.counted
  have mine := safe.fits t
  have its := safe.fits u
  rw [code] at mine
  rw [next] at its
  have has := ((good.agrees u).held s).mp held
  have blocks := ((good.agrees v).held q).mp taken
  have ready := its.1
  simp only [level,code,next]
  cases q with
  | mutex => simp [ready s] at has
  | io =>
    cases s with
    | io => simp [show (w.hold u).sems .io = false from ready] at has
    | inode node => dsimp only; split <;> omega
    | mutex => dsimp only; omega
    | fs => dsimp only; omega
  | fs =>
    cases s with
    | io => simp [ready.2] at has
    | fs => simp [ready.1] at has
    | inode node => dsimp only; split <;> omega
    | mutex => dsimp only; omega
  | inode _ =>
    rcases ready.2 with ⟨fs,_,alone⟩ | ⟨_,dying⟩
    · cases s with
      | io => simp [ready.1] at has
      | fs => simp [fs] at has
      | mutex => simp [has]
      | inode first =>
        -- u has an inode and waits for a second one, so it has mutex_sem, and t has not
        rcases alone with mutex | none
        · have lacking : (w.hold t).sems .mutex = false := by
            by_contra both
            exact ne (good.holder_unique mutex (by simpa using both))
          simp [mutex,lacking]
        simp [none first] at has
    exact absurd (good.dying_unlocked dying blocks) beyond

end Steps

abbrev World.runs : World → List Label → Option World := Runs.runs (fun _ _ => True) World.apply

lemma World.runs_path {w : World} (ran : w.runs labels = some v) : Path move w labels v := (Runs.runs_path ran).mono fun _ _ _ moved => moved.2

def Code.wants : Code → Option Sem
  | .down s _ => some s
  | _ => none

lemma World.waits_of_wants {w : World} (wants : (w.code t).wants = some s) (held : w.holder s = some u) : w.waits t u := by
  cases code : w.code t with
  | down q rest =>
    rw [code] at wants
    have eq : q = s := Option.some.inj wants
    exact ⟨s,rest,by rw [code,eq],held⟩
  | _ => simp [code,Code.wants] at wants

def firstWorld : World where
  code := fun _ => .done
  hold := fun t => ⟨fun _ => false,if t < 2 then [0] else [],none,none⟩
  holder := fun _ => none
  owners := fun node => if node = 0 then [0,1] else []
  pending := fun _ => []
  reclaims := fun node => if node = 0 then 1 else 0
  sins := fun _ => ⟨true,2,false,false⟩
  listed := [0]
  fresh := 1

lemma firstWorld_idle : Idle firstWorld := by
  refine ⟨fun _ => rfl,fun _ _ => rfl,fun _ => rfl,fun _ => rfl,fun _ => rfl,fun node t => ?_,fun _ => rfl,fun node => ?_,fun node late => ?_,?_⟩
  · by_cases zero : node = 0
    · subst zero
      rcases t with _ | _ | t <;> simp [firstWorld]
    rcases t with _ | _ | t <;> simp [firstWorld,zero,Ne.symm zero]
  · by_cases zero : node = 0 <;> simp [firstWorld,zero]
  · have some : node ≠ 0 := by
      rintro rfl
      exact absurd late (by decide)
    simp [firstWorld,some]
  simp [firstWorld]

def createRun : List Label :=
  .enter 0 (.create 0 true) :: [0,0,0,1,0,0,1,1,0,0,1,1,0,0,0,0,1,2,0,0,0,0,1,0,0,0].map (.run 0)

-- In every run in which no thread enters sfs_sync, no set of threads is deadlocked.
theorem sfs_deadlock_free {w v : World} (idle : Idle w) (path : Path move w labels v)
    (noSync : ∀ label ∈ labels,∀ t,label ≠ .enter t .sync) : ¬Deadlock v.waits := by
  have safe := idle.safe.path path noSync
  exact no_deadlock_of_level v.level_le fun t u x other beyond wait after => safe.level_rises other beyond wait after

-- Thread 1 wants the root, which thread 0 has locked.
def waitRun : List Label :=
  createRun ++ .enter 0 (.create 0 true) :: [0,0,0].map (.run 0) ++ [.enter 1 (.create 0 true),.run 1 0]

theorem sfs_deadlock_free_create : Idle firstWorld ∧ ∃ v,Path move firstWorld waitRun v ∧ v.waits 1 0 ∧ ¬Deadlock v.waits := by
  have ran : (firstWorld.runs waitRun).map (fun v => ((v.code 1).wants,v.holder (.inode 0))) = some (some (.inode 0),some 0) := by decide +kernel
  obtain ⟨v,last,stuck⟩ := Option.map_eq_some_iff.mp ran
  obtain ⟨wants,held⟩ := Prod.mk.inj stuck
  have path : Path move firstWorld waitRun v := runs_path last
  refine ⟨firstWorld_idle,v,path,waits_of_wants wants held,sfs_deadlock_free firstWorld_idle path ?_⟩
  intro label member t same
  subst same
  simp [waitRun,createRun] at member

-- Thread 0 makes a second file and sleeps in kmalloc with the root locked; sfs_sync in
-- thread 1 writes the first file, then waits for the root under fs_sem, which thread 0
-- needs for its new inode.
def syncRun : List Label :=
  createRun ++ .enter 0 (.create 0 true) :: [0,0,0].map (.run 0) ++
    .enter 1 .sync :: [0,0,0,0,0,0,0,0,0,0,1,0,0,0].map (.run 1) ++
    [1,1,0,0,0,1,1,0,0,1,1,0].map (.run 0)

theorem sync_create_deadlock : Idle firstWorld ∧ ∃ v,Path move firstWorld syncRun v ∧ v.waits 0 1 ∧ v.waits 1 0 ∧ Deadlock v.waits := by
  have ran : (firstWorld.runs syncRun).map (fun v => ((v.code 0).wants,v.holder .fs,(v.code 1).wants,v.holder (.inode 0))) =
      some (some .fs,some 1,some (.inode 0),some 0) := by decide +kernel
  obtain ⟨v,last,stuck⟩ := Option.map_eq_some_iff.mp ran
  simp only [Prod.mk.injEq] at stuck
  obtain ⟨needs,sync,wants,create⟩ := stuck
  have first := waits_of_wants needs sync
  have second := waits_of_wants wants create
  have path : Path move firstWorld syncRun v := runs_path last
  exact ⟨firstWorld_idle,v,path,first,second,.of_pair (by decide) first second⟩

end Ucore.Sfs.Threads

import Ucore.Sfs.Inode

-- sfs_inode.c: create, mkdir, link, unlink, rename, path lookup and namefile.
namespace Ucore.Sfs
open Bytes Outcomes

def sfsMkdirFinish (sin lnksin : Nat) : SfsM Unit := do
  sfsDirinfoSetParent lnksin sin
  sfsNlinksIncNolock lnksin
  sfsNlinksIncNolock sin

def sfsMkdirNolock (sin : Nat) (name : CStr) : SfsM Unit := do
  let found ← sfsDirentSearchNolock sin name
  match found with
  | .found _ _ => fail .eExists
  | .noent slot => do
    let lnksin ← sfsDirentCreateInode sfsTypeDir
    let r ← attempt (sfsDirentLinkNolock sin slot lnksin name)
    match r with
    | .error e => do
      let s ← state
      check ((s.node lnksin).din.nlinks = 0 && (s.node lnksin).refCount = 1 && (s.node lnksin).openCount = 0) .mkdirUndo
      vopRefDec [sin] lnksin
      fail e
    | .ok _ => do
      sfsMkdirFinish sin lnksin
      vopRefDec [sin] lnksin

def sfsMkdir (sin : Nat) (name : CStr) : SfsM Unit :=
  if name.strlen > sfsMaxFnameLen then fail .eTooBig
  else if name = dot ∨ name = dotDot then fail .eExists
  else do
    trylockSin [] sin
    sfsMkdirNolock sin name

def sfsLinkNolock (sin lnksin : Nat) (name : CStr) : SfsM Unit := do
  let found ← sfsDirentSearchNolock sin name
  match found with
  | .found _ _ => fail .eExists
  | .noent slot => sfsDirentLinkNolock sin slot lnksin name

def sfsLink (sin : Nat) (name : CStr) (lnksin : Nat) : SfsM Unit :=
  if name.strlen > sfsMaxFnameLen then fail .eTooBig
  else if name = dot ∨ name = dotDot then fail .eExists
  else do
    let s ← state
    if (s.node lnksin).din.type = sfsTypeDir then fail .eIsdir
    else do
      trylockSin [] sin
      sfsLinkNolock sin lnksin name

def sfsRename1Nolock (sin : Nat) (name newName : CStr) : SfsM Unit :=
  if name = newName then pure ()
  else do
    let old ← sfsDirentSearchNolock sin name
    match old with
    | .noent _ => fail .eNoent
    | .found ino slot => do
      let new ← sfsDirentSearchNolock sin newName
      match new with
      | .found _ _ => fail .eExists
      | .noent _ => sfsDirentWriteNolock sin slot (some (ino,newName))

-- The new entry could not be written: the old one is put back, if that works.
def sfsRename2Undo (sin slot1 lnksin : Nat) (name : CStr) (isdir : Bool) : SfsM Unit := do
  let r ← attempt (sfsDirentLinkNolock sin slot1 lnksin name)
  match r with
  | .ok _ => when isdir (sfsNlinksIncNolock sin)
  | .error _ => pure ()

def sfsRename2Move (sin slot1 : Nat) (name : CStr) (newsin slot2 : Nat) (newName : CStr) (lnksin : Nat) : SfsM Unit := do
  sfsDirentUnlinkNolock sin slot1 lnksin
  let s ← state
  let isdir := (s.node lnksin).din.type = sfsTypeDir
  when isdir (sfsNlinksDecNolock sin)
  let r ← attempt (sfsDirentLinkNolock newsin slot2 lnksin newName)
  match r with
  | .error e => do
    sfsRename2Undo sin slot1 lnksin name isdir
    fail e
  | .ok _ => when isdir do
    sfsNlinksIncNolock newsin
    sfsDirinfoSetParent lnksin newsin

def sfsRename2Nolock (sin : Nat) (name : CStr) (newsin : Nat) (newName : CStr) : SfsM Unit := do
  let old ← sfsDirentSearchNolock sin name
  match old with
  | .noent _ => fail .eNoent
  | .found ino slot1 => do
    let new ← sfsDirentSearchNolock newsin newName
    match new with
    | .found _ _ => fail .eExists
    | .noent slot2 => do
      let lnksin ← sfsLoadInode ino
      let r ← attempt (sfsRename2Move sin slot1 name newsin slot2 newName lnksin)
      vopRefDec [newsin,sin] lnksin
      match r with
      | .error e => fail e
      | .ok _ => pure ()

def sfsRename (sin : Nat) (name : CStr) (newsin : Nat) (newName : CStr) : SfsM Unit :=
  if name.strlen > sfsMaxFnameLen ∨ newName.strlen > sfsMaxFnameLen then fail .eTooBig
  else if name = dot ∨ name = dotDot then fail .eInval
  else if newName = dot ∨ newName = dotDot then fail .eExists
  else do
    trylockSin [] sin
    if sin = newsin then sfsRename1Nolock sin name newName
    else do
      trylockSin [sin] newsin
      sfsRename2Nolock sin name newsin newName

def sfsCreateNolock (sin : Nat) (name : CStr) (excl : Bool) : SfsM Nat := do
  let found ← sfsDirentSearchNolock sin name
  match found with
  | .found ino _ =>
    if excl then fail .eExists
    else do
      let lnksin ← sfsLoadInode ino
      let s ← state
      if (s.node lnksin).din.type = sfsTypeFile then pure lnksin
      else do
        vopRefDec [sin] lnksin
        fail .eExists
  | .noent slot => do
    let lnksin ← sfsDirentCreateInode sfsTypeFile
    let r ← attempt (sfsDirentLinkNolock sin slot lnksin name)
    match r with
    | .error e => do
      vopRefDec [sin] lnksin
      fail e
    | .ok _ => pure lnksin

def sfsCreate (sin : Nat) (name : CStr) (excl : Bool) : SfsM Nat :=
  if name.strlen > sfsMaxFnameLen then fail .eTooBig
  else if name = dot ∨ name = dotDot then fail .eExists
  else do
    trylockSin [] sin
    sfsCreateNolock sin name excl

def setRemoved (sin : Nat) : SfsM Unit := modify fun s => s.setNode sin fun n => {n with removed:=true}

def sfsUnlinkDir (sin slot lnksin : Nat) : SfsM Unit := do
  trylockSin [sin] lnksin
  let s ← state
  if (s.node lnksin).din.slots ≠ 0 then fail .eNotempty
  else do
    sfsDirentUnlinkNolock sin slot lnksin
    setRemoved lnksin
    sfsNlinksDecNolock lnksin
    sfsNlinksDecNolock sin

def sfsUnlinkEntry (sin slot lnksin : Nat) : SfsM Unit := do
  let s ← state
  if (s.node lnksin).din.type ≠ sfsTypeDir then sfsDirentUnlinkNolock sin slot lnksin
  else sfsUnlinkDir sin slot lnksin

def sfsUnlinkNolock (sin : Nat) (name : CStr) : SfsM Unit := do
  let found ← sfsDirentSearchNolock sin name
  match found with
  | .noent _ => fail .eNoent
  | .found ino slot => do
    let lnksin ← sfsLoadInode ino
    let r ← attempt (sfsUnlinkEntry sin slot lnksin)
    vopRefDec [sin] lnksin
    match r with
    | .error e => fail e
    | .ok _ => pure ()

def sfsUnlink (sin : Nat) (name : CStr) : SfsM Unit :=
  if name.strlen > sfsMaxFnameLen then fail .eTooBig
  else if name = dot ∨ name = dotDot then fail .eIsdir
  else do
    trylockSin [] sin
    sfsUnlinkNolock sin name

def sfsLookupSubpath (path : CStr) : CStr × Option CStr :=
  let rest := (path.1.dropWhile (· ≠ 47)).dropWhile (· = 47)
  have plain : (0 : UInt8) ∉ path.1.takeWhile (· ≠ 47) := fun h => path.2 (List.takeWhile_sublist _ |>.subset h)
  have plainRest : (0 : UInt8) ∉ rest := fun h =>
    path.2 ((List.dropWhile_sublist _).subset ((List.dropWhile_sublist _).subset h))
  (⟨path.1.takeWhile (· ≠ 47),plain⟩,if rest = [] then none else some ⟨rest,plainRest⟩)

lemma lookupSubpath_shorter {path name sub : CStr} (split : sfsLookupSubpath path = (name,some sub)) : sub.1.length < path.1.length := by
  simp only [sfsLookupSubpath,Prod.mk.injEq] at split
  obtain ⟨_,tail⟩ := split
  split at tail
  · cases tail
  rename_i nonempty
  cases tail
  change ((path.1.dropWhile (fun c => decide (c ≠ 47))).dropWhile (fun c => decide (c = 47))).length < path.1.length
  have outer := (List.dropWhile_sublist (l:=path.1) (fun c => decide (c ≠ 47))).length_le
  cases rest : path.1.dropWhile (fun c => decide (c ≠ 47)) with
  | nil => rw [rest] at nonempty; simp at nonempty
  | cons c cs =>
    have slash : c = 47 := by
      have := List.head?_dropWhile_not (fun c => decide (c ≠ 47)) path.1
      rw [rest] at this
      simpa using this
    have inner := (List.dropWhile_sublist (l:=cs) (fun c : UInt8 => decide (c = 47))).length_le
    rw [rest,List.length_cons] at outer
    simp only [slash,List.dropWhile_cons,decide_true,if_true]
    omega

def sfsLookupOnce (sin : Nat) (name : CStr) : SfsM Nat := do
  trylockSin [] sin
  let found ← sfsDirentSearchNolock sin name
  match found with
  | .noent _ => fail .eNoent
  | .found ino _ => sfsLoadInode ino

def sfsLookupStep (sin : Nat) (name : CStr) : SfsM Nat :=
  if name = dotDot then sfsLoadParent sin
  else if name.strlen > sfsMaxFnameLen then fail .eTooBig
  else sfsLookupOnce sin name

def sfsLookupNext (node : Nat) (name : CStr) : SfsM Nat := do
  let r ← attempt (sfsLookupStep node name)
  vopRefDec [] node
  match r with
  | .error e => fail e
  | .ok subnode => pure subnode

def sfsLookupLoop (node : Nat) (path : CStr) : SfsM Nat := do
  let s ← state
  if (s.node node).din.type ≠ sfsTypeDir then do
    vopRefDec [] node
    fail .eNotdir
  else
    match _split : sfsLookupSubpath path with
    | (name,none) => if name = dot then pure node else sfsLookupNext node name
    | (name,some sub) =>
      if name = dot then sfsLookupLoop node sub
      else do
        let subnode ← sfsLookupNext node name
        sfsLookupLoop subnode sub
termination_by path.1.length
decreasing_by all_goals exact lookupSubpath_shorter _split

def sfsLookup (node : Nat) (path : CStr) : SfsM Nat := do
  check (path.1 ≠ [] && path.1.head? ≠ some 47) .lookupPath
  vopRefInc node
  sfsLookupLoop node path

def sfsLookupParentLoop (node : Nat) (path : CStr) : SfsM (Nat × CStr) := do
  let s ← state
  if (s.node node).din.type ≠ sfsTypeDir then do
    vopRefDec [] node
    fail .eNotdir
  else
    match _split : sfsLookupSubpath path with
    | (name,none) => pure (node,name)
    | (name,some sub) =>
      if name = dot then sfsLookupParentLoop node sub
      else do
        let subnode ← sfsLookupNext node name
        sfsLookupParentLoop subnode sub
termination_by path.1.length
decreasing_by all_goals exact lookupSubpath_shorter _split

def sfsLookupParent (node : Nat) (path : CStr) : SfsM (Nat × CStr) := do
  check (path.1 ≠ [] && path.1.head? ≠ some 47) .lookupPath
  vopRefInc node
  sfsLookupParentLoop node path

-- sfs_namefile writes the path backwards from the end of the buffer; acc is
-- what stands there already. alen is at least one, so resid bounds the walk.
def sfsNamefileLoop (node resid : Nat) (acc : List UInt8) : SfsM (List UInt8) :=
  if node = sfsBlknRoot then do
    vopRefDec [] node
    pure acc
  else do
    let r ← attempt (sfsLoadParent node)
    vopRefDec [] node
    match r with
    | .error e => fail e
    | .ok parent => do
      let s ← state
      check (node ≠ parent && (s.node parent).din.type = sfsTypeDir) .namefileParent
      let found ← attempt (do trylockSin [] parent; sfsDirentFindinoNolock parent node)
      match found with
      | .error e => do
        vopRefDec [] parent
        fail e
      | .ok entry =>
        if h : entry.name.strlen + 1 > resid then do
          vopRefDec [] parent
          fail .eNoMem
        else sfsNamefileLoop parent (resid - (entry.name.strlen + 1)) (entry.name.1 ++ [47] ++ acc)
termination_by resid
decreasing_by omega

-- The bytes left in the buffer: the path with a leading slash, ended by a zero.
def sfsNamefile (node resid : Nat) : SfsM (List UInt8) :=
  if resid ≤ 2 then fail .eNoMem
  else do
    let mem ← kmalloc
    if mem = false then fail .eNoMem
    else do
      vopRefInc node
      let path ← sfsNamefileLoop node (resid - 2) []
      pure (47 :: path ++ [0])

end Ucore.Sfs

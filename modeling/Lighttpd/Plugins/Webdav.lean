import Lighttpd.Lib.CString
import Lighttpd.Lib.FileTree

/-!
# `mod_webdav.c`: `MOVE`

`MOVE` copies what is at the source and deletes it there. Without `USE_PROPPATCH`, as the module is
built, `webdav_copy_dir` does not descend into the directories that it makes, while
`webdav_delete_dir` descends into all of them; and neither looks at everything that can fail. What
that leaves is the subject of `moveSafe_iff`. The branch is modelled from the `stat` of the source
on; a path is what `stat` sees there, links being followed.
-/

namespace Lighttpd

open CLib

abbrev Path := List Bytes

abbrev Files.Tree := FileTree Bytes Bytes

inductive Errno where
  | eexist
  | eisdir
  | enoent
  | enospc
  | enotdir
  | other
  deriving DecidableEq, Repr

/-- The system calls of the branch, by their place in the source. -/
inductive DavCall where
  | statSource
  | statDest
  | statInside
  | unlinkDest
  | mkdirDest
  | rename
  | opendirCopy
  | statCopy (p : Path)
  | mkdirCopy (p : Path)
  | streamOpen (p : Path)
  | openCopy (p : Path)
  | writeCopy (p : Path)
  | opendirDelete (p : Path)
  | statDelete (p : Path)
  | rmdirDelete (p : Path)
  | unlinkDelete (p : Path)
  deriving DecidableEq, Repr

/-- What the system does beyond the tree: the calls it fails, for whatever reason, and how many bytes
a `write` to a file takes at most. -/
structure DavSystem where
  fails : DavCall → Option Errno
  takes : Path → Nat

section Code

variable (sys : DavSystem) (overwrite : Bool)

def davStat (t : Files.Tree) (call : DavCall) (p : Path) : Except Errno (FileNode Bytes) :=
  match sys.fails call with
  | some e => .error e
  | none =>
    match t.node p with
    | some n => .ok n
    | none => .error .enoent

def davMkdir (t : Files.Tree) (call : DavCall) (p : Path) : Option Errno × Files.Tree :=
  match sys.fails call with
  | some e => (some e, t)
  | none => if (t.node p).isSome then (some .eexist, t) else (none, t.set p .dir)

def davUnlink (t : Files.Tree) (call : DavCall) (p : Path) : Files.Tree :=
  if sys.fails call = none ∧ t.node p ≠ some .dir then t.remove p else t

def davRmdir (t : Files.Tree) (call : DavCall) (p : Path) : Files.Tree :=
  if sys.fails call = none ∧ t.node p = some .dir ∧ t.names p = [] then t.remove p else t

/-- `open` for writing, with `O_TRUNC` and `O_CREAT`, and `O_EXCL` if nothing is overwritten. -/
def davOpen (t : Files.Tree) (p : Path) : Except Errno Files.Tree :=
  match sys.fails (.openCopy p) with
  | some e => .error e
  | none =>
    if (t.node p).isSome ∧ ¬ overwrite then .error .eexist
    else
      match t.node p with
      | some .dir => .error .eisdir
      | some .other => .ok t
      | some (.file _) | none => .ok (t.set p (.file []))

/-- The status of a failed `open`. -/
def openStatus : Errno → Nat
  | .eexist => 412
  | .eisdir | .enoent => 409
  | _ => 403

/-- `write` of the mapped file `src` with the content `s`; pages that the file has lost since fault.
The status, and the tree. -/
def davWrite (t : Files.Tree) (src dst : Path) (s : Bytes) : Nat × Files.Tree :=
  match sys.fails (.writeCopy dst) with
  | some e => (if e = .enospc then 507 else 403, t)
  | none =>
    if t.node src ≠ some (.file s) then (403, t)
    else
      match t.node dst with
      | some (.file _) => (0, t.set dst (.file (s.take (sys.takes dst))))
      | _ => (0, t)

/-- `stream_open` maps the file, which fails for an empty one. -/
def streamOpen (t : Files.Tree) (src : Path) : Option Bytes :=
  match t.node src with
  | some (.file s) => if sys.fails (.streamOpen src) = none ∧ s ≠ [] then some s else none
  | _ => none

def webdavCopyFile (t : Files.Tree) (src dst : Path) : Nat × Files.Tree :=
  match streamOpen sys t src with
  | none => (403, t)
  | some s =>
    match davOpen sys overwrite t dst with
    | .error e => (openStatus e, t)
    | .ok t => davWrite sys t src dst s

/-- One entry in the loop of `webdav_copy_dir`: a status other than 0 ends the loop. -/
def copyEntry (src dst : Path) (name : Bytes) (t : Files.Tree) : Nat × Files.Tree :=
  match davStat sys t (.statCopy (src ++ [name])) (src ++ [name]) with
  | .error _ => (0, t)
  -- what is in the directory is copied with `USE_PROPPATCH` only
  | .ok .dir => (0, (davMkdir sys t (.mkdirCopy (dst ++ [name])) (dst ++ [name])).2)
  | .ok (.file _) => webdavCopyFile sys overwrite t (src ++ [name]) (dst ++ [name])
  | .ok .other => (0, t)

/-- The loop of `webdav_copy_dir`, over the entries that `readdir` gives. -/
def copyEntries (src dst : Path) : List Bytes → Files.Tree → Nat × Files.Tree
  | [], t => (0, t)
  | name :: names, t =>
    match copyEntry sys overwrite src dst name t with
    | (0, t) => copyEntries src dst names t
    | (status, t) => (status, t)

def webdavCopyDir (t : Files.Tree) (src dst : Path) : Nat × Files.Tree :=
  if sys.fails .opendirCopy = none then copyEntries sys overwrite src dst (t.names src) t
  else (0, t)

/-- One entry in the loop of `webdav_delete_dir`, which is `del`. -/
def deleteEntry (del : Path → Files.Tree → Files.Tree) (p : Path) (t : Files.Tree) (name : Bytes) :
    Files.Tree :=
  match davStat sys t (.statDelete (p ++ [name])) (p ++ [name]) with
  | .error _ => t
  | .ok .dir => davRmdir sys (del (p ++ [name]) t) (.rmdirDelete (p ++ [name])) (p ++ [name])
  | .ok _ => davUnlink sys t (.unlinkDelete (p ++ [name])) (p ++ [name])

/-- `fuel` bounds the depth. -/
def webdavDeleteDir : Nat → Path → Files.Tree → Files.Tree
  | 0, _, t => t
  | fuel + 1, p, t =>
    if sys.fails (.opendirDelete p) = none then
      (t.names p).foldl (deleteEntry sys (webdavDeleteDir fuel) p) t
    else t

def makeDest (t : Files.Tree) (dst : Path) : Option Nat × Files.Tree :=
  match davMkdir sys t .mkdirDest dst with
  | (some _, t) => (some 403, t)
  | (none, t) => (none, t)

def prepareDest (t : Files.Tree) (dst : Path) : Option Nat × Files.Tree :=
  match davStat sys t .statDest dst with
  | .error _ => makeDest sys t dst
  | .ok .dir => (none, t)
  | .ok _ =>
    if ¬ overwrite then (some 409, t) else makeDest sys (davUnlink sys t .unlinkDest dst) dst

def moveDir (t : Files.Tree) (src dst : Path) : Nat × Files.Tree :=
  match prepareDest sys overwrite t dst with
  | (some status, t) => (status, t)
  | (none, t) =>
    match webdavCopyDir sys overwrite t src dst with
    | (0, t) =>
      (201, davRmdir sys (webdavDeleteDir sys t.height src t) (.rmdirDelete src) src)
    | (status, t) => (status, t)

/-- The path that a file moves to, in the destination if that is a directory, and what `stat` says
of it. -/
def moveTarget (t : Files.Tree) (src dst : Path) : Path × Except Errno (FileNode Bytes) :=
  match davStat sys t .statDest dst, src.getLast? with
  | .ok .dir, some name => (dst ++ [name], davStat sys t .statInside (dst ++ [name]))
  | found, _ => (dst, found)

def davRename (t : Files.Tree) (src dst : Path) : Option Files.Tree :=
  if sys.fails .rename ≠ none ∨ t.node dst = some .dir then none
  else if src = dst then some t
  else (t.node src).map ((t.remove src).set dst ·)

def renameOrCopy (t : Files.Tree) (src dst : Path) (status : Nat) : Nat × Files.Tree :=
  match davRename sys t src dst with
  | some t => (status, t)
  | none =>
    match webdavCopyFile sys overwrite t src dst with
    | (0, t) => (status, davUnlink sys t (.unlinkDelete src) src)
    | (refused, t) => (refused, t)

def moveFile (t : Files.Tree) (src dst : Path) : Nat × Files.Tree :=
  match moveTarget sys t src dst with
  | (_, .error .enotdir) => (409, t)
  | (target, .error _) => renameOrCopy sys overwrite t src target 201
  | (target, .ok _) =>
    if ¬ overwrite then (412, t) else renameOrCopy sys overwrite t src target 204

/-- The branch in `mod_webdav_subrequest_handler`: the status, and the tree. -/
def webdavMove (t : Files.Tree) (src dst : Path) : Nat × Files.Tree :=
  match davStat sys t .statSource src with
  | .error .enoent => (404, t)
  | .error _ => (403, t)
  | .ok .dir => moveDir sys overwrite t src dst
  | .ok _ => moveFile sys overwrite t src dst

end Code

section Touches

open FileTree

variable (sys : DavSystem) (overwrite : Bool) (t : Files.Tree) (call : DavCall) (p src dst : Path)

variable {call p} in
theorem davStat_ok {n : FileNode Bytes} (h : davStat sys t call p = .ok n) : t.node p = some n := by
  unfold davStat at h
  split at h
  · exact nomatch h
  · split at h
    · next hn => exact hn.trans (congrArg some (Except.ok.inj h))
    · exact nomatch h

theorem davMkdir_changesIn : ChangesIn {p} t (davMkdir sys t call p).2 := by
  unfold davMkdir
  split
  · exact .refl _ t
  · split
    · exact .refl _ t
    · exact changesIn_set t p .dir

theorem davUnlink_deletesIn : DeletesIn {p} t (davUnlink sys t call p) := by
  unfold davUnlink
  split
  · exact deletesIn_remove t p
  · exact .refl _ t

theorem davRmdir_deletesIn : DeletesIn {p} t (davRmdir sys t call p) := by
  unfold davRmdir
  split
  · exact deletesIn_remove t p
  · exact .refl _ t

theorem webdavCopyFile_changesIn :
    ChangesIn {dst} t (webdavCopyFile sys overwrite t src dst).2 := by
  have hopen : ∀ t', davOpen sys overwrite t dst = .ok t' → ChangesIn {dst} t t' := by
    intro t' h
    unfold davOpen at h
    split at h
    · exact nomatch h
    · split at h
      · exact nomatch h
      · split at h
        · exact nomatch h
        · exact Except.ok.inj h ▸ .refl _ t
        all_goals exact Except.ok.inj h ▸ changesIn_set t dst _
  have hwrite : ∀ t' s, ChangesIn {dst} t' (davWrite sys t' src dst s).2 := by
    intro t' s
    unfold davWrite
    split
    · exact .refl _ t'
    · split
      · exact .refl _ t'
      · split
        · exact changesIn_set t' dst _
        · exact .refl _ t'
  unfold webdavCopyFile
  split
  · exact .refl _ t
  · split
    · exact .refl _ t
    · next t' ht' => exact (hopen t' ht').trans (hwrite t' _)

theorem copyEntry_changesIn (name : Bytes) :
    ChangesIn {dst ++ [name]} t (copyEntry sys overwrite src dst name t).2 := by
  unfold copyEntry
  split
  · exact .refl _ t
  · exact davMkdir_changesIn sys t _ _
  · exact webdavCopyFile_changesIn sys overwrite t _ _
  · exact .refl _ t

theorem copyEntries_changesIn (names : List Bytes) :
    ChangesIn {p | ∃ name ∈ names, p = dst ++ [name]} t
      (copyEntries sys overwrite src dst names t).2 := by
  induction names generalizing t with
  | nil => exact .refl _ t
  | cons name names ih =>
    have hfirst : ChangesIn {p | ∃ n ∈ name :: names, p = dst ++ [n]} t
        (copyEntry sys overwrite src dst name t).2 := by
      refine (copyEntry_changesIn sys overwrite t src dst name).mono ?_
      rintro p rfl
      exact ⟨name, List.mem_cons_self, rfl⟩
    unfold copyEntries
    split
    · next t' heq =>
      rw [heq] at hfirst
      refine hfirst.trans ((ih t').mono ?_)
      rintro p ⟨n, hn, rfl⟩
      exact ⟨n, List.mem_cons_of_mem name hn, rfl⟩
    · next heq => exact heq ▸ hfirst

theorem deleteEntry_deletesIn (name : Bytes) {del : Path → Files.Tree → Files.Tree}
    (hdel : DeletesIn {q | p ++ [name] <+: q} t (del (p ++ [name]) t)) :
    DeletesIn {q | p <+: q} t (deleteEntry sys del p t name) := by
  have hbelow : ∀ q, p ++ [name] <+: q → p <+: q := fun q => (List.prefix_append p [name]).trans
  have hentry : ({p ++ [name]} : Set Path) ⊆ {q | p <+: q} := by
    rintro q rfl
    exact List.prefix_append p [name]
  unfold deleteEntry
  split
  · exact .refl _ t
  · exact (hdel.mono hbelow).trans ((davRmdir_deletesIn sys _ _ _).mono hentry)
  · exact (davUnlink_deletesIn sys t _ _).mono hentry

theorem webdavDeleteDir_deletesIn (fuel : Nat) (p : Path) :
    DeletesIn {q | p <+: q} t (webdavDeleteDir sys fuel p t) := by
  induction fuel generalizing p t with
  | zero => exact .refl _ t
  | succ fuel ih =>
    unfold webdavDeleteDir
    split
    · generalize t.names p = names
      induction names generalizing t with
      | nil => exact .refl _ t
      | cons name names ihNames =>
        exact (deleteEntry_deletesIn sys t p name (ih t (p ++ [name]))).trans (ihNames _)
    · exact .refl _ t

theorem webdavDeleteDir_fuel {fuel : Nat} {p : Path}
    (hdepth : ∀ q, p.length + fuel < q.length → t.node q = none) :
    webdavDeleteDir sys (fuel + 1) p t = webdavDeleteDir sys fuel p t := by
  induction fuel generalizing p t with
  | zero =>
    rw [webdavDeleteDir, webdavDeleteDir, names_eq_nil hdepth]
    exact ite_self t
  | succ fuel ih =>
    rw [webdavDeleteDir, webdavDeleteDir]
    congr 1
    generalize t.names p = names
    induction names generalizing t with
    | nil => rfl
    | cons name names ihNames =>
      have hentry : ∀ q, (p ++ [name]).length + fuel < q.length → t.node q = none := by
        intro q hq
        refine hdepth q ?_
        rw [List.length_append, List.length_singleton] at hq
        omega
      have hstep : deleteEntry sys (webdavDeleteDir sys (fuel + 1)) p t name =
          deleteEntry sys (webdavDeleteDir sys fuel) p t name := by
        unfold deleteEntry
        rw [ih t hentry]
      have hdel := deleteEntry_deletesIn sys t p name
        (webdavDeleteDir_deletesIn sys t fuel (p ++ [name]))
      rw [List.foldl_cons, List.foldl_cons, hstep]
      exact ihNames _ fun q hq => hdel.absent (hdepth q hq)

theorem webdavDeleteDir_height {fuel : Nat} (p : Path) :
    webdavDeleteDir sys (t.height + fuel) p t = webdavDeleteDir sys t.height p t := by
  induction fuel with
  | zero => rfl
  | succ fuel ih =>
    rw [← Nat.add_assoc]
    refine Eq.trans (webdavDeleteDir_fuel sys t ?_) ih
    intro q hq
    exact node_of_height (by omega)

theorem makeDest_changesIn : ChangesIn {dst} t (makeDest sys t dst).2 := by
  have h := davMkdir_changesIn sys t .mkdirDest dst
  unfold makeDest
  split
  · next heq => rwa [heq] at h
  · next heq => rwa [heq] at h

theorem prepareDest_changesIn : ChangesIn {dst} t (prepareDest sys overwrite t dst).2 := by
  unfold prepareDest
  split
  · exact makeDest_changesIn sys t dst
  · exact .refl _ t
  · split
    · exact .refl _ t
    · exact (davUnlink_deletesIn sys t _ dst).changesIn.trans (makeDest_changesIn sys _ dst)

end Touches

end Lighttpd

import Lighttpd.Array

/-!
# `stat_cache.c`, `etag.c`: the cache of file information

The cache keeps one entry for each hash of a name and a setting. `HAVE_LSTAT` is defined,
`HAVE_FAM_H` and `HAVE_XATTR` are not, and the engine is `STAT_CACHE_ENGINE_SIMPLE`. The splay tree
is the finite map it stands for. What the system answers (`DiskAnswers`) holds for one
second.
-/

namespace Lighttpd

open CLib

/-- `struct stat` -/
structure Stat where
  stMode : Nat
  stIno : Int
  stSize : Int
  stMtime : Int
  deriving DecidableEq, Repr

/-- `S_IFMT` -/
def fileType (mode : Nat) : Nat := mode &&& 0o170000

def S_ISREG (mode : Nat) : Bool := fileType mode == 0o100000

def S_ISDIR (mode : Nat) : Bool := fileType mode == 0o040000

def S_ISLNK (mode : Nat) : Bool := fileType mode == 0o120000

/-- The answers of `stat`, `lstat` and `open(.., O_RDONLY)`. -/
structure DiskAnswers where
  stat : Bytes → Option Stat
  lstat : Bytes → Option Stat
  readable : Bytes → Bool

def ETAG_USE_INODE : Nat := 1

def ETAG_USE_MTIME : Nat := 2

def ETAG_USE_SIZE : Nat := 4

/-- `con->conf.mimetypes` and `con->etag_flags`. -/
structure StatConf where
  mimetypes : Arr DataString
  etagFlags : Nat

/-- `stat_cache_entry` -/
structure StatCacheEntry where
  name : Buffer
  etag : Buffer
  st : Stat
  statTs : Int
  isSymlink : Bool
  contentType : Buffer
  deriving DecidableEq, Repr

/-- `stat_cache` -/
structure StatCache where
  files : Nat → Option StatCacheEntry
  hashKey : Buffer

section Code

variable [Malloc]

def etagCreate (etag : Buffer) (st : Stat) (flags : Nat) : Buffer :=
  if flags = 0 then etag
  else
    let etag := bufferReset etag
    let etag :=
      if flags &&& ETAG_USE_INODE ≠ 0 then
        bufferAppendStringLen (bufferAppendOffT etag st.stIno) (some (ascii "-"))
      else etag
    let etag :=
      if flags &&& ETAG_USE_SIZE ≠ 0 then
        bufferAppendStringLen (bufferAppendOffT etag st.stSize) (some (ascii "-"))
      else etag
    if flags &&& ETAG_USE_MTIME ≠ 0 then bufferAppendLong etag st.stMtime else etag

def statCacheInit : StatCache where
  files _ := none
  hashKey := bufferInit

/-- `calloc` clears what is not a buffer. -/
def statCacheEntryInit : StatCacheEntry where
  name := bufferInit
  etag := bufferInit
  st := ⟨0, 0, 0, 0⟩
  statTs := 0
  isSymlink := false
  contentType := bufferInit

/-- A `char` is signed, and so is what is added. -/
def hashStep (hash : UInt32) (c : UInt8) : UInt32 := (hash <<< 5) + hash + UInt32.ofInt (charVal c)

/-- The hash of the string in the buffer, without its highest bit. -/
def hashme (str : Bytes) : Nat := (str.foldl hashStep 5381 &&& 0x7fffffff).toNat

/-- Whether `stat_cache_lstat` returns 0. -/
def statCacheLstat (fs : DiskAnswers) (dname : Bytes) : Bool :=
  (fs.lstat dname).any fun lst => S_ISLNK lst.stMode

/-- The loop over the directories above the name, up to the root. -/
def linkAbove (fs : DiskAnswers) : Nat → Bytes → Bool
  | 0, _ => false
  | fuel + 1, dname =>
    match strrchr dname 47 with
    | none => false
    | some 0 => false
    | some sCur => statCacheLstat fs (dname.take sCur) || linkAbove fs fuel (dname.take sCur)

def isSymlink (fs : DiskAnswers) (name : Buffer) : Bool :=
  statCacheLstat fs name.str ||
    decide (name.used > 2) && linkAbove fs (name.str.length + 1) name.str

/-- `stat`, and whether a regular file can be read. -/
def statFile (fs : DiskAnswers) (name : Buffer) : Option Stat :=
  match fs.stat name.str with
  | none => none
  | some st =>
    if S_ISREG st.stMode then
      if name.ptr[name.used - 2]? = some 47 then none
      else if fs.readable name.str then some st else none
    else some st

def typeFits (name : Buffer) (ds : DataString) : Bool :=
  let type := ds.key
  type.used ≠ 0 && decide (type.used ≤ name.used) &&
    strncaseeq (type.used - 1) (name.ptr.drop (name.used - type.used)) type.ptr

def contentTypeOf (conf : StatConf) (name contentType : Buffer) : Buffer :=
  let contentType := bufferReset contentType
  match conf.mimetypes.elements.find? (typeFits name) with
  | some ds => bufferCopyStringBuffer contentType ds.value
  | none => contentType

def refresh (fs : DiskAnswers) (conf : StatConf) (followSymlink : Bool) (curTs : Int)
    (name : Buffer) (st : Stat) (sce : StatCacheEntry) : StatCacheEntry :=
  let sce := { sce with
    st := st
    statTs := curTs
    isSymlink := !followSymlink && isSymlink fs name }
  if S_ISREG st.stMode then { sce with
    contentType := contentTypeOf conf name sce.contentType
    etag := etagCreate sce.etag st conf.etagFlags }
  else if S_ISDIR st.stMode then { sce with etag := etagCreate sce.etag st conf.etagFlags }
  else sce

def hashBuffer (hashKey name : Buffer) (followSymlink : Bool) : Buffer :=
  bufferAppendLong (bufferCopyStringBuffer hashKey name) (if followSymlink then 1 else 0)

/-- The file is looked at, and the entry is put in at `fileNdx`. -/
def statCacheUpdate (fs : DiskAnswers) (conf : StatConf) (followSymlink : Bool) (curTs : Int)
    (sc : StatCache) (fileNdx : Nat) (name : Buffer) (sce : StatCacheEntry) :
    Option StatCacheEntry × StatCache :=
  match statFile fs name with
  | none => (none, sc)
  | some st =>
    let sce := refresh fs conf followSymlink curTs name st sce
    (some sce, { sc with files := fun ndx => if ndx = fileNdx then some sce else sc.files ndx })

/-- `none` is `HANDLER_ERROR`, and else the entry is the result of `HANDLER_GO_ON`. -/
def statCacheGetEntry (fs : DiskAnswers) (conf : StatConf) (followSymlink : Bool) (curTs : Int)
    (sc : StatCache) (name : Buffer) : Option StatCacheEntry × StatCache :=
  let sc := { sc with hashKey := hashBuffer sc.hashKey name followSymlink }
  let fileNdx := hashme sc.hashKey.str
  let update := statCacheUpdate fs conf followSymlink curTs sc fileNdx name
  match sc.files fileNdx with
  | none => update { statCacheEntryInit with name := bufferCopyStringBuffer bufferInit name }
  | some sce =>
    if bufferIsEqual name sce.name then
      if sce.statTs = curTs then (some sce, sc) else update sce
    -- a collision: the entry is used for the requested file, but keeps its name
    else update sce

def statCacheTriggerCleanup (curTs : Int) (sc : StatCache) : StatCache :=
  { sc with files := fun ndx =>
      match sc.files ndx with
      | some sce => if curTs - sce.statTs > 2 then none else some sce
      | none => none }

end Code

end Lighttpd

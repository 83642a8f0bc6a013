import Lighttpd.Base

/-!
# `http-header-glue.c`: response headers and dates

The functions that set a response header, and the cache of formatted modification times.
-/

namespace Lighttpd

open CLib

/-! ## Dates -/

/-- `struct tm` -/
structure Tm where
  year : Int
  month : Nat
  day : Nat
  hour : Nat
  min : Nat
  sec : Nat
  wday : Nat
  deriving DecidableEq, Repr

/-- `gmtime`. The years are counted from March, so that the leap day is the last of its year. -/
def gmtime (t : Int) : Tm :=
  let days := t / 86400
  let secs := (t % 86400).toNat
  let z := days + 719468
  let era := z / 146097
  let doe := (z % 146097).toNat
  let yoe := (doe - doe / 1460 + doe / 36524 - doe / 146096) / 365
  let doy := doe - (365 * yoe + yoe / 4 - yoe / 100)
  let mp := (5 * doy + 2) / 153
  let month := if mp < 10 then mp + 3 else mp - 9
  { year := era * 400 + yoe + if month ≤ 2 then 1 else 0
    month := month
    day := doy - (153 * mp + 2) / 5 + 1
    hour := secs / 3600
    min := secs / 60 % 60
    sec := secs % 60
    wday := ((days + 4) % 7).toNat }

def dayNames : List String := ["Sun", "Mon", "Tue", "Wed", "Thu", "Fri", "Sat"]

def monthNames : List String :=
  ["Jan", "Feb", "Mar", "Apr", "May", "Jun", "Jul", "Aug", "Sep", "Oct", "Nov", "Dec"]

/-- `%02d` -/
def twoDigits (n : Nat) : Bytes := [digitByte (n / 10), digitByte (n % 10)]

/-- The format `"%a, %d %b %Y %H:%M:%S GMT"`. -/
def formatTm (tm : Tm) : Bytes :=
  ascii (dayNames.getD tm.wday "?") ++ ascii ", " ++ twoDigits tm.day ++ ascii " " ++
    ascii (monthNames.getD (tm.month - 1) "?") ++ ascii " " ++ decimal tm.year ++ ascii " " ++
    twoDigits tm.hour ++ ascii ":" ++ twoDigits tm.min ++ ascii ":" ++ twoDigits tm.sec ++
    ascii " GMT"

example : formatTm (gmtime 784111777) = ascii "Sun, 06 Nov 1994 08:49:37 GMT" := by decide

example : formatTm (gmtime 951827696) = ascii "Tue, 29 Feb 2000 12:34:56 GMT" := by decide

/-- `strftime` with that format: the block at `ptr` afterwards, and the number of characters. For
`NULL` the library only counts; a text that does not fit in `max` gives 0. -/
def strftime (ptr : Bytes) (max : Nat) (t : Int) : Option (Bytes × Nat) :=
  let text := formatTm (gmtime t)
  if max ≤ text.length then some (ptr, 0)
  else if ptr = [] then some ([], text.length)
  else if text.length < ptr.length then some (memcpy ptr 0 (text ++ [0]), text.length)
  else none

section Operations

variable [Malloc]

/-! ## The cache -/

/-- The loop over the cache: the slot where it ends, and whether the time was found there. -/
def cacheSlot (lastMod : Int) : List MtimeCache → Nat → Nat × Bool
  | [], i => (i, false)
  | c :: cs, i =>
    if c.mtime = lastMod then (i, true)
    else if c.mtime = 0 then (i, false)
    else cacheSlot lastMod cs (i + 1)

def formatCached (str : Buffer) (lastMod : Int) : Option Buffer := do
  let str := bufferPrepareCopy str 1024
  let (ptr, len) ← strftime str.ptr (str.size - 1) lastMod
  some { str with ptr := ptr, used := len + 1 }

def strftimeCacheGet (cache : List MtimeCache) (lastMod : Int) :
    Option (List MtimeCache × Buffer) :=
  match cacheSlot lastMod cache 0 with
  | (i, true) => do
    let c ← cache[i]?
    some (cache, c.str)
  | (i, false) => do
    let i := if i = FILE_CACHE_MAX then 0 else i
    let c ← cache[i]?
    let str ← formatCached c.str lastMod
    some (cache.set i { mtime := lastMod, str := str }, str)

/-! ## Response headers -/

/-- `key` is a C string; `value` the `vallen` bytes at the argument, `none` for `NULL`. -/
def responseHeaderInsert (headers : Arr DataString) (key : Bytes) (value : Option Bytes) :
    Option (Arr DataString) :=
  let (ds, headers) := arrayGetUnusedElement headers .string
  let ds := ds.getD (dataResponseInit 0)
  arrayInsertUnique headers { ds with
    key := bufferCopyStringLen ds.key (some key), value := bufferCopyStringLen ds.value value }

/-- An old value is replaced by the C string at `value`. -/
def responseHeaderOverwrite (headers : Arr DataString) (key : Bytes) (value : Option Bytes) :
    Option (Arr DataString) := do
  match ← arrayGetElement headers key with
  | some (ndx, ds) =>
    some (headers.setElement ndx { ds with value := bufferCopyString ds.value (value.map cstr) })
  | none => responseHeaderInsert headers key value

def responseHeaderAppend (headers : Arr DataString) (key : Bytes) (value : Option Bytes) :
    Option (Arr DataString) := do
  match ← arrayGetElement headers key with
  | some (ndx, ds) =>
    some (headers.setElement ndx { ds with
      value := bufferAppendStringLen (bufferAppendStringLen ds.value (some (ascii ", "))) value })
  | none => responseHeaderInsert headers key value

end Operations

/-! ## A time that was just formatted -/

theorem cacheSlot_set {t : Int} {cs : List MtimeCache} {k j : Nat}
    (h : cacheSlot t cs k = (j, false)) : k ≤ j ∧
      ∀ str, j - k < cs.length → cacheSlot t (cs.set (j - k) ⟨t, str⟩) k = (j, true) := by
  induction cs generalizing k with
  | nil =>
    obtain rfl : k = j := congrArg Prod.fst h
    exact ⟨Nat.le_refl _, fun _ hlt => absurd hlt (by simp)⟩
  | cons c cs ih =>
    rw [cacheSlot] at h
    split at h
    · cases h
    · next hne =>
      split at h
      · cases h
        refine ⟨Nat.le_refl _, fun str _ => ?_⟩
        rw [Nat.sub_self, List.set_cons_zero, cacheSlot, if_pos rfl]
      · next hzero =>
        obtain ⟨hle, hset⟩ := ih h
        refine ⟨by omega, fun str hlt => ?_⟩
        rw [List.length_cons] at hlt
        rw [show j - k = (j - (k + 1)) + 1 by omega, List.set_cons_succ, cacheSlot, if_neg hne,
          if_neg hzero]
        exact hset str (by omega)

theorem strftimeCacheGet_again [Malloc] {cache cache' : List MtimeCache} {t : Int} {str : Buffer}
    (h : strftimeCacheGet cache t = some (cache', str)) :
    strftimeCacheGet cache' t = some (cache', str) := by
  have found : ∀ {cs : List MtimeCache} {i : Nat}, cacheSlot t cs 0 = (i, true) →
      cs[i]? = some ⟨t, str⟩ → strftimeCacheGet cs t = some (cs, str) := by
    intro cs i hslot hget
    simp [strftimeCacheGet, hslot, hget]
  unfold strftimeCacheGet at h
  split at h
  · next i hslot =>
    obtain ⟨c, hget, h⟩ := Option.bind_eq_some_iff.mp h
    cases h
    simp [strftimeCacheGet, hslot, hget]
  · next i hslot =>
    obtain ⟨c, hget, h⟩ := Option.bind_eq_some_iff.mp h
    obtain ⟨str', -, h⟩ := Option.bind_eq_some_iff.mp h
    cases h
    obtain ⟨hlt, -⟩ := List.getElem?_eq_some_iff.mp hget
    by_cases hfull : i = FILE_CACHE_MAX
    · -- all slots are taken: the first one is used
      rw [if_pos hfull] at hlt ⊢
      refine found (i := 0) ?_ (by simp [hlt])
      cases cache with
      | nil => simp at hlt
      | cons c cs => rw [List.set_cons_zero, cacheSlot, if_pos rfl]
    · rw [if_neg hfull] at hlt ⊢
      exact found ((cacheSlot_set hslot).2 str hlt) (by simp [hlt])

end Lighttpd

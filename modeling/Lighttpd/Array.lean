import Lighttpd.Buffer

/-!
# `array.c`, `data_string.c`: lists of keyed elements

An array keeps its elements in the order they were inserted, and an index `sorted` over them for
the search by key. `array_reset` keeps the elements behind `used` for the next insertions. A read
outside the arrays, or of a slot that is `NULL`, has no value. The limit of `INT_MAX` elements,
more than fit into the address space, is left out.
-/

namespace Lighttpd

open CLib

/-- `data_type_t` -/
inductive DataType where
  | unset
  | string
  | count
  | array
  | integer
  | fastcgi
  | config
  deriving DecidableEq, Repr

/-- `DATA_UNSET`: what the array functions use of an element. `withIndexKey` gives it a generated
key. -/
class DataUnset (α : Type) where
  type : α → DataType
  key : α → Buffer
  isIndexKey : α → Bool
  withIndexKey : α → Buffer → α
  reset : α → α
  insertDup : α → α → α

/-- `array`; `data` has `size` slots, `sorted` is the part of the index written so far. -/
structure Arr (α : Type) where
  data : List (Option α)
  sorted : List Nat
  used : Nat
  uniqueNdx : Nat
  nextPowerOf2 : Nat
  isWeakref : Bool
  deriving DecidableEq, Repr

section Operations

variable {α : Type} [DataUnset α]

def arrayInit : Arr α where
  data := []
  sorted := []
  used := 0
  uniqueNdx := 0
  nextPowerOf2 := 1
  isWeakref := false

def arrayReset (a : Arr α) : Arr α :=
  if a.isWeakref then { a with used := 0 }
  else { a with
    data := (a.data.take a.used).map (Option.map DataUnset.reset) ++ a.data.drop a.used
    used := 0 }

/-- `a->sorted[pos]` and the element it stands for. -/
def Arr.atPos (a : Arr α) (pos : Nat) : Option (Nat × α) := do
  let ndx ← a.sorted[pos]?
  let el ← (← a.data[ndx]?)
  some (ndx, el)

/-- `key` against the key of an element, both with their terminators. -/
def compareKey (key : Bytes) (el : α) : Int :=
  bufferCaselessCompare key (DataUnset.key el).bytes

/-- One round of the search: the element that was found, and where the search stands. -/
def searchStep (a : Arr α) (key : Bytes) (i : Nat) (pos : Int) : Option (Option Nat × Int) :=
  if pos < 0 then some (none, pos + i)
  else if pos ≥ a.used then some (none, pos - i)
  else
    match a.atPos pos.toNat with
    | none => none
    | some (ndx, el) =>
      if compareKey key el = 0 then some (some ndx, pos)
      else if compareKey key el < 0 then some (none, pos - i)
      else some (none, pos + i)

/-- The loop of `array_get_index`. -/
def searchFrom (a : Arr α) (key : Bytes) : Nat → Nat → Int → Option (Option Nat × Int)
  | 0, _, _ => none
  | fuel + 1, i, pos =>
    match searchStep a key i pos with
    | none => none
    | some (some ndx, pos) => some (some ndx, pos)
    | some (none, pos) =>
      if i = 0 then some (none, pos) else searchFrom a key fuel (i / 2) pos

/-- The index of the element, -1 being `none`, and the value for `*rndx`. `key` is the `keylen`
bytes at the argument. -/
def arrayGetIndex (a : Arr α) (key : Bytes) : Option (Option Nat × Int) :=
  searchFrom a key (a.nextPowerOf2 + 1) (a.nextPowerOf2 / 2) (a.nextPowerOf2 / 2 : Nat)

def arrayGetElement (a : Arr α) (key : Bytes) : Option (Option (Nat × α)) :=
  match arrayGetIndex a (key ++ [0]) with
  | none => none
  | some (none, _) => some none
  | some (some ndx, _) =>
    match a.data[ndx]? with
    | some (some el) => some (some (ndx, el))
    | _ => none

/-- A change to the element at `ndx` through its pointer. -/
def Arr.setElement (a : Arr α) (ndx : Nat) (el : α) : Arr α :=
  { a with data := a.data.set ndx (some el) }

def arrayGetUnusedElement (a : Arr α) (t : DataType) : Option α × Arr α :=
  match (a.data.drop a.used).findIdx? (·.any (DataUnset.type · == t)) with
  | none => (none, a)
  | some j =>
    let i := a.used + j
    -- an empty slot is made at `used` for the next insertion
    ((a.data[i]?).join,
      { a with data := (a.data.set i (a.data[a.used]?).join).set a.used none })

def ensureKey [Malloc] (a : Arr α) (str : α) : Arr α × α :=
  if (DataUnset.key str).used = 0 ∨ DataUnset.isIndexKey str = true then
    ({ a with uniqueNdx := a.uniqueNdx + 1 },
      DataUnset.withIndexKey str (bufferCopyLong (DataUnset.key str) a.uniqueNdx))
  else (a, str)

def arrayGrow (a : Arr α) : Arr α :=
  if a.data.length = a.used then { a with data := a.data ++ List.replicate 16 none } else a

/-- The place of the new element in `sorted`, from the place where the search ended. -/
def insertPos (a : Arr α) (key : Bytes) (ndx : Nat) (pos : Int) : Option Int :=
  if pos = ndx then some pos
  else if pos < 0 then some (pos + 1)
  else
    match a.atPos pos.toNat with
    | none => none
    | some (_, el) => some (if compareKey key el > 0 then pos + 1 else pos)

/-- The new element goes to the end of `data`, and into `sorted` at `pos`. -/
def insertAt (a : Arr α) (str : α) (pos : Nat) : Arr α :=
  let ndx := a.used
  { a with
    data := a.data.set ndx (some str)
    used := ndx + 1
    sorted := a.sorted.take pos ++ ndx :: (a.sorted.drop pos).take (ndx - pos) ++
      a.sorted.drop (ndx + 1)
    nextPowerOf2 := if a.nextPowerOf2 = ndx then a.nextPowerOf2 * 2 else a.nextPowerOf2 }

/-- The insertion of an element whose key is not there; the search ended at `pos`. -/
def insertNew (a : Arr α) (str : α) (pos : Int) : Option (Arr α) :=
  let a := arrayGrow a
  let key := (DataUnset.key str).bytes
  match insertPos { a with data := a.data.set a.used (some str) } key a.used pos with
  | none => none
  | some pos => if 0 ≤ pos ∧ pos ≤ a.used then some (insertAt a str pos.toNat) else none

/-- An element whose key is there is merged into the old one and freed; the types have to agree. -/
def insertMerged (a : Arr α) (str : α) (ndx : Nat) : Option (Arr α) :=
  match a.data[ndx]? with
  | some (some el) =>
    if DataUnset.type el = DataUnset.type str then
      some (a.setElement ndx (DataUnset.insertDup el str))
    else none
  | _ => none

def arrayInsertUnique [Malloc] (a : Arr α) (str : α) : Option (Arr α) :=
  let (a, str) := ensureKey a str
  match arrayGetIndex a (DataUnset.key str).bytes with
  | none => none
  | some (some ndx, _) => insertMerged a str ndx
  | some (none, pos) => insertNew a str pos

/-- The old element with the key of `du`, if there is one. -/
def arrayReplace [Malloc] (a : Arr α) (du : α) : Option (Arr α × Option α) :=
  match arrayGetIndex a (DataUnset.key du).bytes with
  | none => none
  | some (none, _) => (arrayInsertUnique a du).map fun a => (a, none)
  | some (some ndx, _) =>
    match a.data[ndx]? with
    | some (some old) => some (a.setElement ndx du, some old)
    | _ => none

/-- What `array_set_key_value` uses of an element, which it takes for a `data_string`. -/
class StringData (α : Type) [DataUnset α] where
  init : α
  copyKey : α → Bytes → α
  copyValue : α → Option Bytes → α

/-- `key` is a C string, of which `keyLen` bytes are copied. -/
def arraySetKeyValue [Malloc] [StringData α] (hdrs : Arr α) (key : Bytes) (keyLen : Nat)
    (value : Option Bytes) : Option (Arr α) :=
  match arrayGetElement hdrs key with
  | none => none
  | some (some (ndx, el)) => some (hdrs.setElement ndx (StringData.copyValue el value))
  | some none =>
    let (el, hdrs) := arrayGetUnusedElement hdrs .string
    let el := StringData.copyKey (el.getD StringData.init) (key.take keyLen)
    arrayInsertUnique hdrs (StringData.copyValue el value)

def Arr.elements (a : Arr α) : List α := (a.data.take a.used).filterMap id

def Arr.keys (a : Arr α) : List Bytes := a.elements.map fun el => (DataUnset.key el).bytes

end Operations

/-! ## `data_string.c` -/

/-- `addr` tells allocations apart; `response` is for `data_response_init`, whose elements merge
differently. -/
structure DataString where
  addr : Nat
  key : Buffer
  value : Buffer
  isIndexKey : Bool
  response : Bool
  deriving DecidableEq, Repr

section DataString

variable [Malloc]

def dataStringInit (addr : Nat) : DataString where
  addr := addr
  key := bufferInit
  value := bufferInit
  isIndexKey := false
  response := false

def dataResponseInit (addr : Nat) : DataString := { dataStringInit addr with response := true }

def dataStringReset (ds : DataString) : DataString :=
  { ds with key := bufferReset ds.key, value := bufferReset ds.value }

/-- The text between the old and the new value of a header field. -/
def dupSeparator (dst : DataString) (value : Buffer) : Buffer :=
  if dst.response then
    let value := bufferAppendStringLen value (some (ascii "\r\n"))
    let value := bufferAppendStringBuffer value dst.key
    bufferAppendStringLen value (some (ascii ": "))
  else bufferAppendStringLen value (some (ascii ", "))

/-- `data_string_insert_dup` and `data_response_insert_dup` -/
def dataStringInsertDup (dst src : DataString) : DataString :=
  { dst with value :=
      if dst.value.used ≠ 0 then bufferAppendStringBuffer (dupSeparator dst dst.value) src.value
      else bufferCopyStringBuffer dst.value src.value }

instance : DataUnset DataString where
  type _ := .string
  key ds := ds.key
  isIndexKey ds := ds.isIndexKey
  withIndexKey ds key := { ds with key := key, isIndexKey := true }
  reset := dataStringReset
  insertDup := dataStringInsertDup

instance : StringData DataString where
  init := dataStringInit 0
  copyKey ds key := { ds with key := bufferCopyStringLen ds.key (some key) }
  copyValue ds value := { ds with value := bufferCopyStringLen ds.value value }

end DataString

def oneString (key value : Bytes) : Arr DataString where
  data := [some ⟨0, ⟨key ++ [0], key.length + 1, 1⟩, ⟨value ++ [0], value.length + 1, 1⟩, false, false⟩]
  sorted := [0]
  used := 1
  uniqueNdx := 0
  nextPowerOf2 := 2
  isWeakref := false

end Lighttpd

import Lighttpd.Base
import Lighttpd.Lib.Selection

/-!
# `mod_proxy.c`: the choice of a backend

`mod_proxy_check_extension` finds the hosts for a path and chooses one of them. In hash mode the
sentinel `ULONG_MAX` says that no host has been looked at, and with an `unsigned long` of 32 bits a
hash may have that value; in fair mode a host with `INT_MAX` connections is never chosen. Otherwise
the choice is the one that the mode stands for (`balances_iff`): the first host with the greatest
hash, one with the least usage, or each host in turn.
-/

namespace Lighttpd

open CLib Selection

/-! ## `crc32.c` -/

def crcC : List UInt32 := [
  0x00000000, 0x77073096, 0xee0e612c, 0x990951ba, 0x076dc419, 0x706af48f, 0xe963a535,
  0x9e6495a3, 0x0edb8832, 0x79dcb8a4, 0xe0d5e91e, 0x97d2d988, 0x09b64c2b, 0x7eb17cbd,
  0xe7b82d07, 0x90bf1d91, 0x1db71064, 0x6ab020f2, 0xf3b97148, 0x84be41de, 0x1adad47d,
  0x6ddde4eb, 0xf4d4b551, 0x83d385c7, 0x136c9856, 0x646ba8c0, 0xfd62f97a, 0x8a65c9ec,
  0x14015c4f, 0x63066cd9, 0xfa0f3d63, 0x8d080df5, 0x3b6e20c8, 0x4c69105e, 0xd56041e4,
  0xa2677172, 0x3c03e4d1, 0x4b04d447, 0xd20d85fd, 0xa50ab56b, 0x35b5a8fa, 0x42b2986c,
  0xdbbbc9d6, 0xacbcf940, 0x32d86ce3, 0x45df5c75, 0xdcd60dcf, 0xabd13d59, 0x26d930ac,
  0x51de003a, 0xc8d75180, 0xbfd06116, 0x21b4f4b5, 0x56b3c423, 0xcfba9599, 0xb8bda50f,
  0x2802b89e, 0x5f058808, 0xc60cd9b2, 0xb10be924, 0x2f6f7c87, 0x58684c11, 0xc1611dab,
  0xb6662d3d, 0x76dc4190, 0x01db7106, 0x98d220bc, 0xefd5102a, 0x71b18589, 0x06b6b51f,
  0x9fbfe4a5, 0xe8b8d433, 0x7807c9a2, 0x0f00f934, 0x9609a88e, 0xe10e9818, 0x7f6a0dbb,
  0x086d3d2d, 0x91646c97, 0xe6635c01, 0x6b6b51f4, 0x1c6c6162, 0x856530d8, 0xf262004e,
  0x6c0695ed, 0x1b01a57b, 0x8208f4c1, 0xf50fc457, 0x65b0d9c6, 0x12b7e950, 0x8bbeb8ea,
  0xfcb9887c, 0x62dd1ddf, 0x15da2d49, 0x8cd37cf3, 0xfbd44c65, 0x4db26158, 0x3ab551ce,
  0xa3bc0074, 0xd4bb30e2, 0x4adfa541, 0x3dd895d7, 0xa4d1c46d, 0xd3d6f4fb, 0x4369e96a,
  0x346ed9fc, 0xad678846, 0xda60b8d0, 0x44042d73, 0x33031de5, 0xaa0a4c5f, 0xdd0d7cc9,
  0x5005713c, 0x270241aa, 0xbe0b1010, 0xc90c2086, 0x5768b525, 0x206f85b3, 0xb966d409,
  0xce61e49f, 0x5edef90e, 0x29d9c998, 0xb0d09822, 0xc7d7a8b4, 0x59b33d17, 0x2eb40d81,
  0xb7bd5c3b, 0xc0ba6cad, 0xedb88320, 0x9abfb3b6, 0x03b6e20c, 0x74b1d29a, 0xead54739,
  0x9dd277af, 0x04db2615, 0x73dc1683, 0xe3630b12, 0x94643b84, 0x0d6d6a3e, 0x7a6a5aa8,
  0xe40ecf0b, 0x9309ff9d, 0x0a00ae27, 0x7d079eb1, 0xf00f9344, 0x8708a3d2, 0x1e01f268,
  0x6906c2fe, 0xf762575d, 0x806567cb, 0x196c3671, 0x6e6b06e7, 0xfed41b76, 0x89d32be0,
  0x10da7a5a, 0x67dd4acc, 0xf9b9df6f, 0x8ebeeff9, 0x17b7be43, 0x60b08ed5, 0xd6d6a3e8,
  0xa1d1937e, 0x38d8c2c4, 0x4fdff252, 0xd1bb67f1, 0xa6bc5767, 0x3fb506dd, 0x48b2364b,
  0xd80d2bda, 0xaf0a1b4c, 0x36034af6, 0x41047a60, 0xdf60efc3, 0xa867df55, 0x316e8eef,
  0x4669be79, 0xcb61b38c, 0xbc66831a, 0x256fd2a0, 0x5268e236, 0xcc0c7795, 0xbb0b4703,
  0x220216b9, 0x5505262f, 0xc5ba3bbe, 0xb2bd0b28, 0x2bb45a92, 0x5cb36a04, 0xc2d7ffa7,
  0xb5d0cf31, 0x2cd99e8b, 0x5bdeae1d, 0x9b64c2b0, 0xec63f226, 0x756aa39c, 0x026d930a,
  0x9c0906a9, 0xeb0e363f, 0x72076785, 0x05005713, 0x95bf4a82, 0xe2b87a14, 0x7bb12bae,
  0x0cb61b38, 0x92d28e9b, 0xe5d5be0d, 0x7cdcefb7, 0x0bdbdf21, 0x86d3d2d4, 0xf1d4e242,
  0x68ddb3f8, 0x1fda836e, 0x81be16cd, 0xf6b9265b, 0x6fb077e1, 0x18b74777, 0x88085ae6,
  0xff0f6a70, 0x66063bca, 0x11010b5c, 0x8f659eff, 0xf862ae69, 0x616bffd3, 0x166ccf45,
  0xa00ae278, 0xd70dd2ee, 0x4e048354, 0x3903b3c2, 0xa7672661, 0xd06016f7, 0x4969474d,
  0x3e6e77db, 0xaed16a4a, 0xd9d65adc, 0x40df0b66, 0x37d83bf0, 0xa9bcae53, 0xdebb9ec5,
  0x47b2cf7f, 0x30b5ffe9, 0xbdbdf21c, 0xcabac28a, 0x53b39330, 0x24b4a3a6, 0xbad03605,
  0xcdd70693, 0x54de5729, 0x23d967bf, 0xb3667a2e, 0xc4614ab8, 0x5d681b02, 0x2a6f2b94,
  0xb40bbe37, 0xc30c8ea1, 0x5a05df1b, 0x2d02ef8d]

/-- `CRC32C(c, d)` -/
def crcStep (c : UInt32) (d : UInt8) : UInt32 :=
  (c >>> 8) ^^^ crcC.getD ((c ^^^ d.toUInt32) &&& 0xFF).toNat 0

/-- `buffer` is the `length` bytes at the argument. -/
def generateCrc32c (buffer : Bytes) : UInt32 := ~~~ buffer.foldl crcStep 0xFFFFFFFF

example : generateCrc32c (ascii "123456789") = 0xCBF43926 := by decide +kernel

/-! ## The hosts -/

/-- `proxy_balance_t` -/
inductive ProxyBalance where
  | unset
  | fair
  | hash
  | rr
  deriving DecidableEq, Repr

/-- `data_proxy` -/
structure ProxyHost where
  host : Buffer
  port : Nat
  isDisabled : Bool
  usage : Int
  lastUsedNdx : Int
  deriving DecidableEq, Repr

def CursorIn (n : Nat) (ndx : Int) : Prop := -1 ≤ ndx ∧ ndx < n

/-- `extension->value`: the place of the last choice is kept in the first host. -/
structure HostList where
  data : List ProxyHost
  cursor : ∀ h, data.head? = some h → CursorIn data.length h.lastUsedNdx

namespace HostList

/-- A change to the host at `i` that leaves its `last_used_ndx`. -/
def modify (l : HostList) (i : Nat) (f : ProxyHost → ProxyHost)
    (hf : ∀ h, (f h).lastUsedNdx = h.lastUsedNdx) : HostList where
  data := l.data.modify i f
  cursor h hh := by
    rw [List.length_modify]
    cases hdata : l.data with
    | nil =>
      rw [hdata] at hh
      cases i <;> cases hh
    | cons first rest =>
      have hfirst := l.cursor first (hdata ▸ rfl)
      rw [hdata] at hh hfirst
      cases i with
      | zero =>
        obtain rfl : f first = h := Option.some.inj hh
        rw [hf]
        exact hfirst
      | succ i =>
        obtain rfl : first = h := Option.some.inj hh
        exact hfirst

/-- `host->usage++` -/
def use (l : HostList) (i : Nat) : HostList :=
  l.modify i (fun h => { h with usage := h.usage + 1 }) fun _ => rfl

/-- `data[0]->last_used_ndx = ndx` -/
def setCursor (l : HostList) (ndx : Int) (hndx : CursorIn l.data.length ndx) : HostList where
  data := l.data.modify 0 fun h => { h with lastUsedNdx := ndx }
  cursor h hh := by
    rw [List.length_modify]
    cases hdata : l.data with
    | nil =>
      rw [hdata] at hh
      cases hh
    | cons first rest =>
      rw [hdata] at hh hndx
      obtain rfl := Option.some.inj hh
      exact hndx

end HostList

structure ProxyRequest where
  mode : Nat
  fileStarted : Bool
  httpStatus : Int
  uriPath : Buffer
  uriAuthority : Buffer
  deriving DecidableEq, Repr

/-- `ULONG_MAX`, for an `unsigned long` of `w` bits. -/
def ulongMax (w : Nat) : Nat := 2 ^ w - 1

def INT_MAX : Int := 2147483647

/-- `CONST_BUF_LEN(b)` -/
def bufText (b : Buffer) : Bytes := b.ptr.take (b.used - 1)

/-- The sum of three `uint32_t`. -/
def hostHash (con : ProxyRequest) (host : ProxyHost) : UInt32 :=
  generateCrc32c (bufText con.uriPath) + generateCrc32c (bufText host.host) +
    generateCrc32c (bufText con.uriAuthority)

/-! ## The choice -/

/-- The loop of hash balancing, from the host `k` on. -/
def hashLoop (w : Nat) (con : ProxyRequest) : List ProxyHost → Nat → Int → Nat → Int
  | [], _, ndx, _ => ndx
  | host :: hosts, k, ndx, lastMax =>
    if host.isDisabled then hashLoop w con hosts (k + 1) ndx lastMax
    else
      let curMax := (hostHash con host).toNat
      if lastMax = ulongMax w ∨ curMax > lastMax then hashLoop w con hosts (k + 1) k curMax
      else hashLoop w con hosts (k + 1) ndx lastMax

/-- The loop of fair balancing, from the host `k` on. -/
def fairLoop : List ProxyHost → Nat → Int → Int → Int
  | [], _, ndx, _ => ndx
  | host :: hosts, k, ndx, maxUsage =>
    if host.isDisabled then fairLoop hosts (k + 1) ndx maxUsage
    else if host.usage < maxUsage then fairLoop hosts (k + 1) k host.usage
    else fairLoop hosts (k + 1) ndx maxUsage

/-- Both loops of the round robin: from `ndx` on to the first host that is not disabled. The host is
the one that was looked at last. -/
def skipDisabled : List ProxyHost → Nat → ProxyHost → Nat × ProxyHost
  | [], ndx, host => (ndx, host)
  | h :: hosts, ndx, _ => if h.isDisabled then skipDisabled hosts (ndx + 1) h else (ndx, h)

/-- `ndx` of the round robin. `k` is a `size_t`, but `ndx` and `(int)k` are what they would be for
an `int`. -/
def rrNdx (hosts : List ProxyHost) (first : ProxyHost) : Int :=
  let k := first.lastUsedNdx
  let ndx := if k + 1 < 0 then 0 else k + 1
  let (ndx, host) := skipDisabled (hosts.drop ndx.toNat) ndx.toNat first
  if ndx ≥ hosts.length then
    let (ndx, host) := skipDisabled (hosts.take (k + 1).toNat) 0 host
    if host.isDisabled then -1 else ndx
  else ndx

/-! ## The hosts that are not disabled -/

/-- The places of the hosts that are not disabled; the first host has the place `k`. -/
def activeFrom : List ProxyHost → Nat → List Nat
  | [], _ => []
  | h :: hosts, k =>
    if h.isDisabled then activeFrom hosts (k + 1) else k :: activeFrom hosts (k + 1)

section Active

variable {hosts : List ProxyHost} {first host : ProxyHost} {k i x : Nat}

theorem activeFrom_disabled (h : host.isDisabled = true) (hosts : List ProxyHost) (k : Nat) :
    activeFrom (host :: hosts) k = activeFrom hosts (k + 1) := by
  rw [activeFrom, if_pos h]

theorem activeFrom_active (h : ¬ host.isDisabled = true) (hosts : List ProxyHost) (k : Nat) :
    activeFrom (host :: hosts) k = k :: activeFrom hosts (k + 1) := by
  rw [activeFrom, if_neg h]

theorem mem_activeFrom : x ∈ activeFrom hosts k ↔
    ∃ i h, hosts[i]? = some h ∧ h.isDisabled = false ∧ x = k + i := by
  induction hosts generalizing k with
  | nil =>
    refine ⟨fun h => absurd h List.not_mem_nil, ?_⟩
    rintro ⟨i, h, hget, -⟩
    cases hget
  | cons host hosts ih =>
    have hrest : (∃ i h, hosts[i]? = some h ∧ h.isDisabled = false ∧ x = k + 1 + i) ↔
        ∃ i h, (host :: hosts)[i + 1]? = some h ∧ h.isDisabled = false ∧ x = k + (i + 1) := by
      simp only [List.getElem?_cons_succ, Nat.add_assoc, Nat.add_comm 1]
    by_cases hd : host.isDisabled = true
    · rw [activeFrom_disabled hd, ih, hrest]
      constructor
      · rintro ⟨i, h, hget, hactive, rfl⟩
        exact ⟨i + 1, h, hget, hactive, rfl⟩
      · rintro ⟨i, h, hget, hactive, rfl⟩
        cases i with
        | zero =>
          obtain rfl := Option.some.inj hget
          rw [hd] at hactive
          cases hactive
        | succ i => exact ⟨i, h, hget, hactive, rfl⟩
    · rw [activeFrom_active hd, List.mem_cons, ih, hrest]
      constructor
      · rintro (rfl | ⟨i, h, hget, hactive, rfl⟩)
        · exact ⟨0, host, rfl, Bool.eq_false_iff.mpr hd, rfl⟩
        · exact ⟨i + 1, h, hget, hactive, rfl⟩
      · rintro ⟨i, h, hget, hactive, rfl⟩
        cases i with
        | zero => exact .inl rfl
        | succ i => exact .inr ⟨i, h, hget, hactive, rfl⟩

theorem activeFrom_sorted (hosts : List ProxyHost) (k : Nat) :
    (activeFrom hosts k).Pairwise (· < ·) := by
  induction hosts generalizing k with
  | nil => exact .nil
  | cons host hosts ih =>
    by_cases hd : host.isDisabled = true
    · rw [activeFrom_disabled hd]
      exact ih (k + 1)
    · rw [activeFrom_active hd]
      refine List.pairwise_cons.mpr ⟨fun x hx => ?_, ih (k + 1)⟩
      obtain ⟨i, -, -, -, rfl⟩ := mem_activeFrom.mp hx
      omega

theorem activeFrom_drop (hosts : List ProxyHost) (i k : Nat) :
    activeFrom (hosts.drop i) (k + i) = (activeFrom hosts k).filter (k + i ≤ ·) := by
  induction hosts generalizing i k with
  | nil => rw [List.drop_nil, activeFrom, activeFrom, List.filter_nil]
  | cons host hosts ih =>
    cases i with
    | zero =>
      refine (List.filter_eq_self.mpr fun x hx => ?_).symm
      obtain ⟨i, -, -, -, rfl⟩ := mem_activeFrom.mp hx
      exact decide_eq_true (Nat.le_add_right k i)
    | succ i =>
      have hrest := ih i (k + 1)
      rw [Nat.add_assoc, Nat.add_comm 1 i] at hrest
      rw [List.drop_succ_cons, hrest]
      by_cases hd : host.isDisabled = true
      · rw [activeFrom_disabled hd]
      · rw [activeFrom_active hd, List.filter_cons_of_neg (by simp)]

theorem activeFrom_take (hosts : List ProxyHost) (i k : Nat) :
    activeFrom (hosts.take i) k = (activeFrom hosts k).filter (· < k + i) := by
  induction hosts generalizing i k with
  | nil => rw [List.take_nil, activeFrom, List.filter_nil]
  | cons host hosts ih =>
    cases i with
    | zero =>
      refine (List.filter_eq_nil_iff.mpr fun x hx => ?_).symm
      obtain ⟨i, -, -, -, rfl⟩ := mem_activeFrom.mp hx
      simp only [decide_eq_true_eq]
      omega
    | succ i =>
      have hrest := ih i (k + 1)
      rw [Nat.add_assoc, Nat.add_comm 1 i] at hrest
      rw [List.take_succ_cons]
      by_cases hd : host.isDisabled = true
      · rw [activeFrom_disabled hd, activeFrom_disabled hd, hrest]
      · rw [activeFrom_active hd, activeFrom_active hd, hrest, List.filter_cons_of_pos (by simp)]

theorem skipDisabled_spec (hosts : List ProxyHost) (k : Nat) (host : ProxyHost) :
    (∃ x rest, activeFrom hosts k = x :: rest ∧ (skipDisabled hosts k host).1 = x ∧
      x < k + hosts.length ∧ (skipDisabled hosts k host).2.isDisabled = false) ∨
    activeFrom hosts k = [] ∧ (skipDisabled hosts k host).1 = k + hosts.length ∧
      (hosts ≠ [] → (skipDisabled hosts k host).2.isDisabled = true) ∧
      (hosts = [] → (skipDisabled hosts k host).2 = host) := by
  induction hosts generalizing k host with
  | nil => exact .inr ⟨rfl, rfl, fun h => absurd rfl h, fun _ => rfl⟩
  | cons h hosts ih =>
    unfold skipDisabled
    by_cases hd : h.isDisabled = true
    · rw [if_pos hd, activeFrom_disabled hd]
      rcases ih (k + 1) h with ⟨x, rest, hx, hfound, hlt, hactive⟩ | ⟨hnone, hend, hlast, hempty⟩
      · exact .inl ⟨x, rest, hx, hfound, by rw [List.length_cons]; omega, hactive⟩
      · refine .inr ⟨hnone, by rw [hend, List.length_cons]; omega, fun _ => ?_, nofun⟩
        by_cases hnil : hosts = []
        · rw [hempty hnil]
          exact hd
        · exact hlast hnil
    · rw [if_neg hd, activeFrom_active hd]
      exact .inl ⟨k, _, rfl, rfl, by rw [List.length_cons]; omega, Bool.eq_false_iff.mpr hd⟩

theorem rrNdx_eq (hne : hosts ≠ []) (hcursor : CursorIn hosts.length first.lastUsedNdx) :
    rrNdx hosts first =
      match rotation (activeFrom hosts 0) (first.lastUsedNdx + 1).toNat with
      | [] => -1
      | x :: _ => (x : Int) := by
  obtain ⟨hge, hlt⟩ := hcursor
  have hpos : 0 < hosts.length := List.length_pos_iff.mpr hne
  have hdrop := activeFrom_drop hosts (first.lastUsedNdx + 1).toNat 0
  have htake := activeFrom_take hosts (first.lastUsedNdx + 1).toNat 0
  have hstart : (if first.lastUsedNdx + 1 < 0 then 0 else first.lastUsedNdx + 1) =
      first.lastUsedNdx + 1 := if_neg (by omega)
  unfold rrNdx Selection.rotation
  dsimp only
  rw [hstart]
  generalize hi : (first.lastUsedNdx + 1).toNat = i at *
  have hle : i ≤ hosts.length := by omega
  rw [Nat.zero_add] at hdrop htake
  rw [← hdrop, ← htake]
  rcases skipDisabled_spec (hosts.drop i) i first with
    ⟨x, rest, hx, hfound, hbound, -⟩ | ⟨hnone, hend, hlast, hempty⟩
  · rw [List.length_drop] at hbound
    rw [hfound, if_neg (by omega), hx]
    rfl
  · rw [List.length_drop] at hend
    rw [hend, if_pos (by omega), hnone, List.nil_append]
    rcases skipDisabled_spec (hosts.take i) 0 (skipDisabled (hosts.drop i) i first).2 with
      ⟨x, rest, hx, hfound, -, hactive⟩ | ⟨hnone', -, hlast', hempty'⟩
    · rw [hfound, hactive, hx]
      rfl
    · have hdisabled : (skipDisabled (hosts.take i) 0
          (skipDisabled (hosts.drop i) i first).2).2.isDisabled = true := by
        by_cases hnil : hosts.take i = []
        · rw [hempty' hnil]
          refine hlast fun hdrop => hne ?_
          rw [← List.take_append_drop i hosts, hnil, hdrop, List.append_nil]
        · exact hlast' hnil
      rw [if_pos hdisabled, hnone']

theorem rrNdx_inRange {l : HostList} (hfirst : l.data.head? = some first) :
    CursorIn l.data.length (rrNdx l.data first) := by
  have hne : l.data ≠ [] := by
    intro hnil
    rw [hnil] at hfirst
    cases hfirst
  rw [rrNdx_eq hne (l.cursor first hfirst)]
  have hperm := rotation_perm (activeFrom l.data 0) (first.lastUsedNdx + 1).toNat
  cases hturn : rotation (activeFrom l.data 0) (first.lastUsedNdx + 1).toNat with
  | nil =>
    dsimp only
    exact ⟨Int.le_refl _, by omega⟩
  | cons x rest =>
    rw [hturn] at hperm
    obtain ⟨i, h, hget, -, rfl⟩ := mem_activeFrom.mp (hperm.mem_iff.mp List.mem_cons_self)
    have hlt := (List.getElem?_eq_some_iff.mp hget).1
    rw [Nat.zero_add]
    exact ⟨Int.le_trans (by decide) (Int.natCast_nonneg i), Int.ofNat_lt.mpr hlt⟩

end Active

/-! ## The handler -/

/-- `ndx`, and the list with the new place of the last choice. -/
def chooseNdx (w : Nat) (balance : ProxyBalance) (con : ProxyRequest) (l : HostList) :
    Int × HostList :=
  if l.data.length = 1 then (if l.data.all (·.isDisabled) then -1 else 0, l)
  else
    match hfirst : l.data.head? with
    | none => (-1, l)
    | some first =>
      match balance with
      | .hash => (hashLoop w con l.data 0 (-1) (ulongMax w), l)
      | .fair => (fairLoop l.data 0 (-1) INT_MAX, l)
      | .rr => (rrNdx l.data first, l.setCursor (rrNdx l.data first) (rrNdx_inRange hfirst))
      | .unset => (-1, l)

/-- `data_array` -/
structure ProxyExtension where
  key : Buffer
  value : HostList

/-- What of `p->conf` decides. -/
structure ProxyConfig where
  extensions : List ProxyExtension
  balance : ProxyBalance

/-- `handler_ctx`; the host is at `ndx` in the list of the extension. -/
structure ProxyCtx where
  pathInfoOffset : Nat
  extension : Nat
  ndx : Nat
  deriving DecidableEq, Repr

/-- The extension fits; the value is `path_info_offset`. -/
def matchExtension (fn : Buffer) (ext : ProxyExtension) : Option Nat :=
  let sLen := fn.used - 1
  let ctLen := ext.key.used - 1
  if ext.key.used = 0 ∨ sLen < ctLen then none
  else if ext.key.ptr.head? = some 47 then
    if strneq ctLen fn.ptr ext.key.ptr then
      if sLen > ctLen + 1 then
        match strchr (cstr (fn.ptr.drop (ctLen + 1))) 47 with
        | some i => some (ctLen + 1 + i)
        | none => some 0
      else some 0
    else none
  else if strneq ctLen (fn.ptr.drop (sLen - ctLen)) ext.key.ptr then some 0
  else none

/-- The first extension that fits, its place, and `path_info_offset`. -/
def findExtension (fn : Buffer) : List ProxyExtension → Nat → Option (Nat × ProxyExtension × Nat)
  | [], _ => none
  | ext :: exts, k =>
    match matchExtension fn ext with
    | some offset => some (k, ext, offset)
    | none => findExtension fn exts (k + 1)

structure ProxyOutcome where
  ret : HandlerT
  con : ProxyRequest
  conf : ProxyConfig
  hctx : Option ProxyCtx

def modProxyCheckExtension (w pId : Nat) (conf : ProxyConfig) (con : ProxyRequest) :
    ProxyOutcome :=
  if con.mode ≠ DIRECT ∨ con.fileStarted = true then ⟨.goOn, con, conf, none⟩
  else if con.uriPath.used = 0 then ⟨.error, con, conf, none⟩
  else
    match findExtension con.uriPath conf.extensions 0 with
    | none => ⟨.goOn, con, conf, none⟩
    | some (e, extension, pathInfoOffset) =>
      let (ndx, value) := chooseNdx w conf.balance con extension.value
      if ndx ≠ -1 then
        let value := value.use ndx.toNat
        { ret := .goOn
          con := { con with mode := pId }
          conf := { conf with
            extensions := conf.extensions.set e { extension with value := value } }
          hctx := some ⟨pathInfoOffset, e, ndx.toNat⟩ }
      else
        { ret := .finished
          con := { con with httpStatus := 500 }
          conf := { conf with
            extensions := conf.extensions.set e { extension with value := value } }
          hctx := none }

section Loops

variable {w : Nat} {con : ProxyRequest} {hosts seen : List ProxyHost} {host : ProxyHost}
  {k lastMax : Nat} {ndx maxUsage : Int}

def hashKeys (con : ProxyRequest) (hosts : List ProxyHost) : List (Option Nat) :=
  hosts.map fun h => if h.isDisabled then none else some (hostHash con h).toNat

theorem hash_le (con : ProxyRequest) (host : ProxyHost) (hw : w = 32 ∨ w = 64) :
    (hostHash con host).toNat ≤ ulongMax w := by
  have hlt := (hostHash con host).toNat_lt
  unfold ulongMax
  rcases hw with rfl | rfl <;> omega

/-- Behind a host whose hash is the sentinel all are disabled. -/
def SentinelLast (w : Nat) (con : ProxyRequest) (hosts : List ProxyHost) : Prop :=
  ∀ (i j : Nat) (host h : ProxyHost), i < j → hosts[i]? = some host → host.isDisabled = false →
    (hostHash con host).toNat = ulongMax w → hosts[j]? = some h → h.isDisabled = true

/-- The result of the loop so far: no host was looked at, or the first one with the greatest
hash. -/
def HashBest (w : Nat) (con : ProxyRequest) (seen : List ProxyHost) (ndx : Int) (lastMax : Nat) :
    Prop :=
  (∀ h ∈ seen, h.isDisabled = true) ∧ ndx = -1 ∧ lastMax = ulongMax w ∨
    ∃ i : Nat, ndx = i ∧ IsFirstMax (hashKeys con seen) i lastMax

theorem hashKeys_concat (seen : List ProxyHost) (host : ProxyHost) :
    hashKeys con (seen ++ [host]) = hashKeys con seen ++
      [if host.isDisabled then none else some (hostHash con host).toNat] := List.map_append

theorem hashKeys_getElem? {i c : Nat} : (hashKeys con hosts)[i]? = some (some c) ↔
    ∃ h, hosts[i]? = some h ∧ h.isDisabled = false ∧ (hostHash con h).toNat = c := by
  unfold hashKeys
  rw [List.getElem?_map, Option.map_eq_some_iff]
  constructor
  · rintro ⟨h, hget, hkey⟩
    split at hkey
    · cases hkey
    · next hd => exact ⟨h, hget, Bool.eq_false_iff.mpr hd, Option.some.inj hkey⟩
  · rintro ⟨h, hget, hactive, rfl⟩
    exact ⟨h, hget, by rw [hactive]; rfl⟩

/-- The loop keeps the best host; by induction on those that are to come. -/
theorem hashLoop_best (hbest : HashBest w con seen ndx lastMax)
    (hlast : SentinelLast w con (seen ++ hosts)) :
    ∃ key, HashBest w con (seen ++ hosts) (hashLoop w con hosts seen.length ndx lastMax) key := by
  induction hosts generalizing seen ndx lastMax with
  | nil =>
    rw [List.append_nil]
    exact ⟨lastMax, hbest⟩
  | cons host hosts ih =>
    have hsplit : seen ++ host :: hosts = seen ++ [host] ++ hosts := by simp
    have hlen : (hashKeys con seen).length = seen.length := List.length_map _
    have hlen' : (seen ++ [host]).length = seen.length + 1 := by simp
    rw [hsplit] at hlast ⊢
    unfold hashLoop
    by_cases hd : host.isDisabled = true
    · rw [if_pos hd, ← hlen']
      refine ih ?_ hlast
      rcases hbest with ⟨hnone, hndx, hmax⟩ | ⟨i, hndx, hfirst⟩
      · exact .inl ⟨fun h hh => (List.mem_append.mp hh).elim (hnone h) fun hh =>
          List.mem_singleton.mp hh ▸ hd, hndx, hmax⟩
      · refine .inr ⟨i, hndx, ?_⟩
        rw [hashKeys_concat, if_pos hd]
        exact hfirst.concat_of_le nofun
    · have hkey : hashKeys con (seen ++ [host]) =
          hashKeys con seen ++ [some (hostHash con host).toNat] := by
        rw [hashKeys_concat, if_neg hd]
      rw [if_neg hd]
      dsimp only
      rw [← hlen']
      rcases hbest with ⟨hnone, hndx, hmax⟩ | ⟨i, hndx, hfirst⟩
      · rw [if_pos (.inl hmax)]
        refine ih (.inr ⟨seen.length, rfl, ?_⟩) hlast
        rw [hkey, ← hlen]
        refine isFirstMax_concat fun j c hj => ?_
        obtain ⟨h, hget, hactive, -⟩ := hashKeys_getElem?.mp hj
        rw [hnone h (List.mem_of_getElem? hget)] at hactive
        cases hactive
      · have hne : lastMax ≠ ulongMax w := by
          intro hmax
          obtain ⟨h, hget, hactive, hhash⟩ := hashKeys_getElem?.mp hfirst.at_pos
          have hi := (List.getElem?_eq_some_iff.mp hget).1
          refine hd (hlast i seen.length h host hi ?_ hactive (hhash.trans hmax) ?_)
          · rw [List.append_assoc, List.getElem?_append_left hi]
            exact hget
          · rw [List.append_assoc, List.getElem?_append_right (Nat.le_refl _), Nat.sub_self]
            rfl
        by_cases hgt : (hostHash con host).toNat > lastMax
        · rw [if_pos (.inr hgt)]
          refine ih (.inr ⟨seen.length, rfl, ?_⟩) hlast
          rw [hkey, ← hlen]
          exact isFirstMax_concat fun j c hj => Nat.lt_of_le_of_lt (hfirst.le j c hj) hgt
        · rw [if_neg (not_or.mpr ⟨hne, hgt⟩)]
          refine ih (.inr ⟨i, hndx, ?_⟩) hlast
          rw [hkey]
          refine hfirst.concat_of_le fun c hc => ?_
          obtain rfl := Option.some.inj hc
          exact Nat.not_lt.mp hgt

theorem le_hashLoop (h : ∃ host ∈ hosts, host.isDisabled = false) (ndx : Int) :
    (k : Int) ≤ hashLoop w con hosts k ndx (ulongMax w) := by
  have hkeeps : ∀ (hosts : List ProxyHost) (k : Nat) (ndx : Int) (lastMax : Nat),
      hashLoop w con hosts k ndx lastMax = ndx ∨
        (k : Int) ≤ hashLoop w con hosts k ndx lastMax := by
    intro hosts
    induction hosts with
    | nil => exact fun _ _ _ => .inl rfl
    | cons host hosts ih =>
      intro k ndx lastMax
      unfold hashLoop
      dsimp only
      split
      · rcases ih (k + 1) ndx lastMax with heq | hle
        · exact .inl heq
        · exact .inr (by omega)
      · split
        · rcases ih (k + 1) k (hostHash con host).toNat with heq | hle
          · exact .inr (Int.le_of_eq heq.symm)
          · exact .inr (by omega)
        · rcases ih (k + 1) ndx lastMax with heq | hle
          · exact .inl heq
          · exact .inr (by omega)
  induction hosts generalizing k ndx with
  | nil =>
    obtain ⟨host, hmem, -⟩ := h
    exact absurd hmem List.not_mem_nil
  | cons host hosts ih =>
    unfold hashLoop
    dsimp only
    by_cases hd : host.isDisabled = true
    · rw [if_pos hd]
      obtain ⟨other, hmem, hactive⟩ := h
      have hrest : other ∈ hosts := (List.mem_cons.mp hmem).resolve_left fun heq => by
        rw [heq, hd] at hactive
        cases hactive
      have := @ih (k + 1) ⟨other, hrest, hactive⟩ ndx
      omega
    · rw [if_neg hd, if_pos (.inl rfl)]
      rcases hkeeps hosts (k + 1) k (hostHash con host).toNat with heq | hle
      · exact Int.le_of_eq heq.symm
      · omega

theorem lt_hashLoop (hw : w = 32 ∨ w = 64) {front rest : List ProxyHost}
    (hactive : host.isDisabled = false) (hhash : (hostHash con host).toNat = ulongMax w)
    (hrest : ∃ h ∈ rest, h.isDisabled = false) (hle : lastMax ≤ ulongMax w) (ndx : Int) :
    ((k + front.length : Nat) : Int) < hashLoop w con (front ++ host :: rest) k ndx lastMax := by
  induction front generalizing k ndx lastMax with
  | nil =>
    rw [List.nil_append]
    unfold hashLoop
    dsimp only
    rw [if_neg (Bool.eq_false_iff.mp hactive), hhash,
      if_pos ((Nat.eq_or_lt_of_le hle).imp id id)]
    have := @le_hashLoop w con rest (k + 1) hrest k
    rw [List.length_nil]
    omega
  | cons other front ih =>
    have hnext : ∀ (ndx : Int) (lastMax : Nat), lastMax ≤ ulongMax w →
        ((k + (other :: front).length : Nat) : Int) <
          hashLoop w con (front ++ host :: rest) (k + 1) ndx lastMax := by
      intro ndx lastMax hle
      have := @ih (k + 1) lastMax hle ndx
      rw [List.length_cons]
      omega
    rw [List.cons_append]
    unfold hashLoop
    dsimp only
    split
    · exact hnext ndx lastMax hle
    · split
      · exact hnext k _ (hash_le con other hw)
      · exact hnext ndx lastMax hle

def FairBest (seen : List ProxyHost) (ndx maxUsage : Int) : Prop :=
  (∀ h ∈ seen, h.isDisabled = false → maxUsage ≤ h.usage) ∧
    (ndx = -1 ∧ maxUsage = INT_MAX ∨
      ∃ (i : Nat) (h : ProxyHost), ndx = i ∧ seen[i]? = some h ∧ h.isDisabled = false ∧
        h.usage = maxUsage ∧ maxUsage < INT_MAX)

theorem fairLoop_best (hbest : FairBest seen ndx maxUsage) :
    ∃ least, FairBest (seen ++ hosts) (fairLoop hosts seen.length ndx maxUsage) least := by
  induction hosts generalizing seen ndx maxUsage with
  | nil =>
    rw [List.append_nil]
    exact ⟨maxUsage, hbest⟩
  | cons host hosts ih =>
    have hsplit : seen ++ host :: hosts = seen ++ [host] ++ hosts := by simp
    have hlen' : (seen ++ [host]).length = seen.length + 1 := by simp
    have hkept : (host.isDisabled = false → maxUsage ≤ host.usage) →
        FairBest (seen ++ [host]) ndx maxUsage := by
      intro hhost
      refine ⟨fun h hh => (List.mem_append.mp hh).elim (hbest.1 h) fun hh =>
        List.mem_singleton.mp hh ▸ hhost, hbest.2.imp id ?_⟩
      rintro ⟨i, h, hndx, hget, hrest⟩
      refine ⟨i, h, hndx, ?_, hrest⟩
      rw [List.getElem?_append_left (List.getElem?_eq_some_iff.mp hget).1]
      exact hget
    rw [hsplit]
    unfold fairLoop
    rw [← hlen']
    by_cases hd : host.isDisabled = true
    · rw [if_pos hd]
      exact ih (hkept fun hactive => by rw [hd] at hactive; cases hactive)
    · rw [if_neg hd]
      by_cases hlt : host.usage < maxUsage
      · rw [if_pos hlt]
        refine ih ⟨fun h hh hactive => ?_, .inr ⟨seen.length, host, rfl,
          List.getElem?_concat_length, Bool.eq_false_iff.mpr hd, rfl, ?_⟩⟩
        · rcases List.mem_append.mp hh with hh | hh
          · exact Int.le_trans (Int.le_of_lt hlt) (hbest.1 h hh hactive)
          · exact Int.le_of_eq (congrArg _ (List.mem_singleton.mp hh).symm)
        · rcases hbest.2 with ⟨-, hmax⟩ | ⟨-, -, -, -, -, -, hmax⟩
          · rw [← hmax]
            exact hlt
          · exact Int.lt_trans hlt hmax
      · rw [if_neg hlt]
        exact ih (hkept fun _ => Int.not_lt.mp hlt)

end Loops

section Property

variable {w pId e : Nat} {conf : ProxyConfig} {con : ProxyRequest} {ext : ProxyExtension}
  {first : ProxyHost}

/-- The request is for the hosts of the extension at `e`. -/
structure Hits (conf : ProxyConfig) (con : ProxyRequest) (e : Nat) (ext : ProxyExtension) :
    Prop where
  mode : con.mode = DIRECT
  notStarted : con.fileStarted = false
  path : con.uriPath.used ≠ 0
  found : ∃ offset, findExtension con.uriPath conf.extensions 0 = some (e, ext, offset)

def ProxyOutcome.choice (o : ProxyOutcome) : Option Nat := o.hctx.map (·.ndx)

/-- Other hosts for the extension at `e`. -/
def ProxyConfig.withHosts (conf : ProxyConfig) (e : Nat) (ext : ProxyExtension) (l : HostList) :
    ProxyConfig :=
  { conf with extensions := conf.extensions.set e { ext with value := l } }

def HostList.disable (l : HostList) (j : Nat) : HostList :=
  l.modify j (fun h => { h with isDisabled := true }) fun _ => rfl

def runChoices (w pId : Nat) (conf : ProxyConfig) : List ProxyRequest → List (Option Nat)
  | [] => []
  | con :: cons =>
    let o := modProxyCheckExtension w pId conf con
    o.choice :: runChoices w pId o.conf cons

structure Balances (w pId : Nat) (conf : ProxyConfig) (con : ProxyRequest) (e : Nat)
    (ext : ProxyExtension) : Prop where
  served : (∃ h ∈ ext.value.data, h.isDisabled = false) →
    (modProxyCheckExtension w pId conf con).ret = .goOn ∧
      ∃ i h, (modProxyCheckExtension w pId conf con).choice = some i ∧
        ext.value.data[i]? = some h ∧ h.isDisabled = false
  refused : (∀ h ∈ ext.value.data, h.isDisabled = true) →
    (modProxyCheckExtension w pId conf con).ret = .finished ∧
      (modProxyCheckExtension w pId conf con).con.httpStatus = 500 ∧
      (modProxyCheckExtension w pId conf con).choice = none
  hash : conf.balance = .hash →
    ∀ i, (modProxyCheckExtension w pId conf con).choice = some i →
      (∃ key, IsFirstMax (hashKeys con ext.value.data) i key) ∧
      ∀ j, j ≠ i → (modProxyCheckExtension w pId
        (conf.withHosts e ext (ext.value.disable j)) con).choice = some i
  fair : conf.balance = .fair →
    ∀ i h, (modProxyCheckExtension w pId conf con).choice = some i →
      ext.value.data[i]? = some h → ∀ h' ∈ ext.value.data, h'.isDisabled = false →
        h.usage ≤ h'.usage
  turns : conf.balance = .rr →
    ∀ requests : List ProxyRequest, (∀ con ∈ requests, Hits conf con e ext) →
      requests.length = (activeFrom ext.value.data 0).length →
      (runChoices w pId conf requests).Perm ((activeFrom ext.value.data 0).map some)

def BalanceFits (w : Nat) (balance : ProxyBalance) (con : ProxyRequest) (hosts : List ProxyHost) :
    Prop :=
  hosts.length = 1 ∨ match balance with
    | .hash => SentinelLast w con hosts
    | .fair => (∃ h ∈ hosts, h.isDisabled = false ∧ h.usage < INT_MAX) ∨
        ∀ h ∈ hosts, h.isDisabled = true
    | .rr => True
    | .unset => ∀ h ∈ hosts, h.isDisabled = true

/-! ## One call -/

theorem findExtension_spec {fn : Buffer} {exts : List ProxyExtension} {k offset : Nat}
    (h : findExtension fn exts k = some (e, ext, offset)) (l : HostList) :
    k ≤ e ∧ findExtension fn (exts.set (e - k) { ext with value := l }) k =
      some (e, { ext with value := l }, offset) := by
  induction exts generalizing k with
  | nil => cases h
  | cons first exts ih =>
    unfold findExtension at h
    cases hmatch : matchExtension fn first with
    | some off =>
      rw [hmatch] at h
      obtain ⟨rfl, hrest⟩ := Prod.mk.inj (Option.some.inj h)
      obtain ⟨rfl, rfl⟩ := Prod.mk.inj hrest
      have hmatch' : matchExtension fn { first with value := l } = some off := hmatch
      rw [Nat.sub_self, List.set_cons_zero, findExtension, hmatch']
      exact ⟨Nat.le_refl _, rfl⟩
    | none =>
      rw [hmatch] at h
      obtain ⟨hle, hset⟩ := ih h
      obtain ⟨n, hn⟩ : ∃ n, e - k = n + 1 := ⟨e - (k + 1), by omega⟩
      have hn' : e - (k + 1) = n := by omega
      rw [hn, List.set_cons_succ, findExtension, hmatch]
      rw [hn'] at hset
      exact ⟨by omega, hset⟩

theorem Hits.withHosts (h : Hits conf con e ext) (l : HostList) :
    Hits (conf.withHosts e ext l) con e { ext with value := l } := by
  obtain ⟨offset, hfound⟩ := h.found
  exact ⟨h.mode, h.notStarted, h.path, offset, (findExtension_spec hfound l).2⟩

theorem modProxyCheckExtension_hit (w pId : Nat) (h : Hits conf con e ext) :
    ((chooseNdx w conf.balance con ext.value).1 = -1 →
      (modProxyCheckExtension w pId conf con).ret = .finished ∧
        (modProxyCheckExtension w pId conf con).con.httpStatus = 500 ∧
        (modProxyCheckExtension w pId conf con).choice = none) ∧
    ∀ i : Nat, (chooseNdx w conf.balance con ext.value).1 = i →
      (modProxyCheckExtension w pId conf con).ret = .goOn ∧
        (modProxyCheckExtension w pId conf con).choice = some i ∧
        (modProxyCheckExtension w pId conf con).conf = conf.withHosts e ext
          ((chooseNdx w conf.balance con ext.value).2.use i) := by
  obtain ⟨offset, hfound⟩ := h.found
  have hguard : ¬ (con.mode ≠ DIRECT ∨ con.fileStarted = true) := by
    rw [h.mode, h.notStarted]
    simp
  unfold modProxyCheckExtension
  rw [if_neg hguard, if_neg h.path, hfound]
  dsimp only
  generalize chooseNdx w conf.balance con ext.value = c
  obtain ⟨ndx, value⟩ := c
  dsimp only
  constructor
  · rintro rfl
    rw [if_neg (not_not.mpr rfl)]
    exact ⟨rfl, rfl, rfl⟩
  · rintro i rfl
    rw [if_pos (by omega)]
    exact ⟨rfl, rfl, rfl⟩

theorem chooseNdx_one {balance : ProxyBalance} {l : HostList} (h : l.data.length = 1) :
    chooseNdx w balance con l = (if l.data.all (·.isDisabled) then -1 else 0, l) := if_pos h

theorem chooseNdx_many {balance : ProxyBalance} {l : HostList} (h : l.data.length ≠ 1)
    (hfirst : l.data.head? = some first) : chooseNdx w balance con l =
      match balance with
      | .hash => (hashLoop w con l.data 0 (-1) (ulongMax w), l)
      | .fair => (fairLoop l.data 0 (-1) INT_MAX, l)
      | .rr => (rrNdx l.data first, l.setCursor (rrNdx l.data first) (rrNdx_inRange hfirst))
      | .unset => (-1, l) := by
  unfold chooseNdx
  rw [if_neg h]
  split
  · next hnone =>
    rw [hnone] at hfirst
    cases hfirst
  · next other hother =>
    obtain rfl := Option.some.inj (hother.symm.trans hfirst)
    rfl


def GoodChoice (hosts : List ProxyHost) (ndx : Int) : Prop :=
  ndx = -1 ∧ (∀ h ∈ hosts, h.isDisabled = true) ∨
    ∃ (i : Nat) (h : ProxyHost), ndx = i ∧ hosts[i]? = some h ∧ h.isDisabled = false

theorem exists_first {l : List ProxyHost} (hne : l ≠ []) : ∃ first, l.head? = some first :=
  ⟨l.head hne, List.head?_eq_some_head hne⟩

theorem goodChoice_one {balance : ProxyBalance} {l : HostList} (hone : l.data.length = 1) :
    GoodChoice l.data (chooseNdx w balance con l).1 := by
  obtain ⟨h, hdata⟩ := List.length_eq_one_iff.mp hone
  rw [chooseNdx_one hone, hdata]
  by_cases hd : h.isDisabled = true
  · refine .inl ⟨if_pos ?_, fun h' hh => List.mem_singleton.mp hh ▸ hd⟩
    simpa using hd
  · refine .inr ⟨0, h, if_neg ?_, rfl, Bool.eq_false_iff.mpr hd⟩
    simpa using hd

theorem hashLoop_all {hosts : List ProxyHost} (hlast : SentinelLast w con hosts) :
    (∀ h ∈ hosts, h.isDisabled = true) ∧ hashLoop w con hosts 0 (-1) (ulongMax w) = -1 ∨
      ∃ (i key : Nat), hashLoop w con hosts 0 (-1) (ulongMax w) = i ∧
        IsFirstMax (hashKeys con hosts) i key := by
  have hstart : HashBest w con [] (-1) (ulongMax w) :=
    .inl ⟨fun _ hh => absurd hh List.not_mem_nil, rfl, rfl⟩
  obtain ⟨key, ⟨hnone, hndx, -⟩ | ⟨i, hndx, hfirst⟩⟩ :=
    @hashLoop_best w con hosts [] (ulongMax w) (-1) hstart hlast
  · exact .inl ⟨hnone, hndx⟩
  · exact .inr ⟨i, key, hndx, hfirst⟩

theorem goodChoice_hash {hosts : List ProxyHost} (hlast : SentinelLast w con hosts) :
    GoodChoice hosts (hashLoop w con hosts 0 (-1) (ulongMax w)) := by
  rcases hashLoop_all hlast with ⟨hnone, hndx⟩ | ⟨i, key, hndx, hfirst⟩
  · exact .inl ⟨hndx, hnone⟩
  · obtain ⟨h, hget, hactive, -⟩ := hashKeys_getElem?.mp hfirst.at_pos
    exact .inr ⟨i, h, hndx, hget, hactive⟩

theorem fairLoop_all (hosts : List ProxyHost) : ∃ least,
    FairBest hosts (fairLoop hosts 0 (-1) INT_MAX) least :=
  @fairLoop_best hosts [] (-1) INT_MAX
    ⟨fun _ hh => absurd hh List.not_mem_nil, .inl ⟨rfl, rfl⟩⟩

theorem goodChoice_fair {hosts : List ProxyHost}
    (hfits : (∃ host ∈ hosts, host.isDisabled = false ∧ host.usage < INT_MAX) ∨
      ∀ host ∈ hosts, host.isDisabled = true) :
    GoodChoice hosts (fairLoop hosts 0 (-1) INT_MAX) := by
  obtain ⟨least, hleast, ⟨hndx, hmax⟩ | ⟨i, h, hndx, hget, hactive, -⟩⟩ := fairLoop_all hosts
  · refine .inl ⟨hndx, hfits.resolve_left ?_⟩
    rintro ⟨h, hmem, hactive, husage⟩
    have hle := hleast h hmem hactive
    omega
  · exact .inr ⟨i, h, hndx, hget, hactive⟩

theorem goodChoice_rr {l : HostList} (hne : l.data ≠ []) (hfirst : l.data.head? = some first) :
    GoodChoice l.data (rrNdx l.data first) := by
  rw [rrNdx_eq hne (l.cursor first hfirst)]
  have hperm := rotation_perm (activeFrom l.data 0) (first.lastUsedNdx + 1).toNat
  cases hturn : rotation (activeFrom l.data 0) (first.lastUsedNdx + 1).toNat with
  | nil =>
    rw [hturn] at hperm
    refine .inl ⟨rfl, fun h hh => ?_⟩
    by_contra hd
    obtain ⟨i, hget⟩ := List.getElem?_of_mem hh
    have hmem : i ∈ activeFrom l.data 0 :=
      mem_activeFrom.mpr ⟨i, h, hget, Bool.eq_false_iff.mpr hd, (Nat.zero_add i).symm⟩
    exact absurd (hperm.mem_iff.mpr hmem) List.not_mem_nil
  | cons x rest =>
    rw [hturn] at hperm
    obtain ⟨i, h, hget, hactive, rfl⟩ := mem_activeFrom.mp (hperm.mem_iff.mp List.mem_cons_self)
    rw [Nat.zero_add]
    exact .inr ⟨i, h, rfl, hget, hactive⟩

theorem goodChoice_of_fits (hne : ext.value.data ≠ [])
    (hfits : BalanceFits w conf.balance con ext.value.data) :
    GoodChoice ext.value.data (chooseNdx w conf.balance con ext.value).1 := by
  by_cases hone : ext.value.data.length = 1
  · exact goodChoice_one hone
  · obtain ⟨first, hfirst⟩ := exists_first hne
    have hmode := hfits.resolve_left hone
    rw [chooseNdx_many hone hfirst]
    cases hbalance : conf.balance with
    | hash =>
      rw [hbalance] at hmode
      exact goodChoice_hash hmode
    | fair =>
      rw [hbalance] at hmode
      exact goodChoice_fair hmode
    | rr => exact goodChoice_rr hne hfirst
    | unset =>
      rw [hbalance] at hmode
      exact .inl ⟨rfl, hmode⟩

/-! ## A host that drops out -/

theorem disable_getElem? (l : HostList) (j i : Nat) : (l.disable j).data[i]? =
    if j = i then l.data[i]?.map fun h => { h with isDisabled := true } else l.data[i]? := by
  have hmodify : (l.disable j).data[i]? =
      (l.data.modify j fun h => { h with isDisabled := true })[i]? := rfl
  rw [hmodify, List.getElem?_modify]
  split
  · rfl
  · exact Option.map_id'

theorem length_disable (l : HostList) (j : Nat) : (l.disable j).data.length = l.data.length :=
  List.length_modify _ _ _

theorem active_of_disable {l : HostList} {j i : Nat} {h : ProxyHost}
    (hget : (l.disable j).data[i]? = some h) (hactive : h.isDisabled = false) :
    l.data[i]? = some h := by
  rw [disable_getElem?] at hget
  split at hget
  · obtain ⟨h', -, rfl⟩ := Option.map_eq_some_iff.mp hget
    cases hactive
  · exact hget

theorem SentinelLast.disable {l : HostList} (h : SentinelLast w con l.data) (j : Nat) :
    SentinelLast w con (l.disable j).data := by
  intro i i' host host' hlt hget hactive hhash hget'
  by_contra hd
  exact hd (h i i' host host' hlt (active_of_disable hget hactive) hactive hhash
    (active_of_disable hget' (Bool.eq_false_iff.mpr hd)))

theorem hashLoop_disable {l : HostList} {i j : Nat} (hlast : SentinelLast w con l.data)
    (hchoice : hashLoop w con l.data 0 (-1) (ulongMax w) = i) (hne : j ≠ i) :
    hashLoop w con (l.disable j).data 0 (-1) (ulongMax w) = i := by
  rcases hashLoop_all hlast with ⟨-, hndx⟩ | ⟨i', key, hndx, hfirst⟩
  · omega
  · obtain rfl : i' = i := by omega
    obtain ⟨host, hget, hactive, hkey⟩ := hashKeys_getElem?.mp hfirst.at_pos
    have hstays : IsFirstMax (hashKeys con (l.disable j).data) i' key := by
      refine hfirst.of_dropped (hashKeys_getElem?.mpr ⟨host, ?_, hactive, hkey⟩) fun n c hc => ?_
      · rw [disable_getElem?, if_neg hne]
        exact hget
      · obtain ⟨h, hget', hactive', hkey'⟩ := hashKeys_getElem?.mp hc
        exact hashKeys_getElem?.mpr ⟨h, active_of_disable hget' hactive', hactive', hkey'⟩
    rcases hashLoop_all (hlast.disable j) with ⟨hnone, -⟩ | ⟨i, key', hndx', hfirst'⟩
    · obtain ⟨h, hget', hactive', -⟩ := hashKeys_getElem?.mp hstays.at_pos
      rw [hnone h (List.mem_of_getElem? hget')] at hactive'
      cases hactive'
    · rw [hndx', (hfirst'.unique hstays).1]

theorem chooseNdx_one_disable {balance : ProxyBalance} {l : HostList} {i j : Nat}
    (hone : l.data.length = 1) (hchoice : (chooseNdx w balance con l).1 = i) (hne : j ≠ i) :
    (chooseNdx w balance con (l.disable j)).1 = i := by
  obtain ⟨h, hdata⟩ := List.length_eq_one_iff.mp hone
  rw [chooseNdx_one hone] at hchoice
  obtain rfl : i = 0 := by
    dsimp only at hchoice
    split at hchoice <;> omega
  have hsame : (l.disable j).data = l.data := by
    have hmodify : (l.disable j).data =
        l.data.modify j fun h => { h with isDisabled := true } := rfl
    rw [hmodify, hdata]
    cases j with
    | zero => exact absurd rfl hne
    | succ j => rw [List.modify_succ_cons, List.modify_nil]
  rw [chooseNdx_one (hsame ▸ hone), hsame]
  exact hchoice

/-! ## Turns -/

theorem activeFrom_congr {hosts hosts' : List ProxyHost}
    (h : hosts'.map (·.isDisabled) = hosts.map (·.isDisabled)) (k : Nat) :
    activeFrom hosts' k = activeFrom hosts k := by
  induction hosts generalizing hosts' k with
  | nil =>
    obtain rfl := List.map_eq_nil_iff.mp h
    rfl
  | cons first hosts ih =>
    cases hosts' with
    | nil => cases h
    | cons first' hosts' =>
      obtain ⟨hfirst, hrest⟩ := List.cons.inj h
      have hsame : first'.isDisabled = first.isDisabled := hfirst
      rw [activeFrom, activeFrom, hsame, ih hrest]

theorem hostList_next (l : HostList) {ndx : Int} (hndx : CursorIn l.data.length ndx) (x : Nat)
    (hne : l.data ≠ []) : ((l.setCursor ndx hndx).use x).data.length = l.data.length ∧
      ((l.setCursor ndx hndx).use x).data.map (·.isDisabled) = l.data.map (·.isDisabled) ∧
      ∃ first, ((l.setCursor ndx hndx).use x).data.head? = some first ∧
        first.lastUsedNdx = ndx := by
  have hkeeps : ∀ {f : ProxyHost → ProxyHost}, (∀ h, (f h).isDisabled = h.isDisabled) →
      ∀ (hosts : List ProxyHost) (i : Nat),
        (hosts.modify i f).map (·.isDisabled) = hosts.map (·.isDisabled) := by
    intro f hf hosts
    induction hosts with
    | nil => exact fun i => by rw [List.modify_nil]
    | cons h hosts ih =>
      intro i
      cases i with
      | zero => rw [List.modify_zero_cons, List.map_cons, List.map_cons, hf]
      | succ i => rw [List.modify_succ_cons, List.map_cons, List.map_cons, ih]
  have hdata : ((l.setCursor ndx hndx).use x).data =
      (l.data.modify 0 fun h => { h with lastUsedNdx := ndx }).modify x
      fun h => { h with usage := h.usage + 1 } := rfl
  refine ⟨?_, ?_, ?_⟩
  · rw [hdata, List.length_modify, List.length_modify]
  · rw [hdata, hkeeps (f := fun h => { h with usage := h.usage + 1 }) fun _ => rfl,
      hkeeps (f := fun h => { h with lastUsedNdx := ndx }) fun _ => rfl]
  · obtain ⟨first, rest, hl⟩ := List.exists_cons_of_ne_nil hne
    rw [hdata, hl, List.modify_zero_cons]
    cases x with
    | zero => exact ⟨_, rfl, rfl⟩
    | succ x => exact ⟨_, rfl, rfl⟩

theorem runChoices_eq (hbalance : conf.balance = .rr) (hmany : ext.value.data.length ≠ 1)
    (hsome : activeFrom ext.value.data 0 ≠ []) (hfirst : ext.value.data.head? = some first)
    (requests : List ProxyRequest) (hhits : ∀ con ∈ requests, Hits conf con e ext) :
    runChoices w pId conf requests = (takeTurns (activeFrom ext.value.data 0) requests.length
      (first.lastUsedNdx + 1).toNat).map some := by
  induction requests generalizing conf ext first with
  | nil => rfl
  | cons con requests ih =>
    have hhit := hhits con List.mem_cons_self
    have hne : ext.value.data ≠ [] := by
      intro hnil
      rw [hnil] at hfirst
      cases hfirst
    have hchoose : chooseNdx w conf.balance con ext.value = (rrNdx ext.value.data first,
        ext.value.setCursor (rrNdx ext.value.data first) (rrNdx_inRange hfirst)) := by
      rw [chooseNdx_many hmany hfirst, hbalance]
    have hndx := rrNdx_eq hne (ext.value.cursor first hfirst)
    rw [runChoices, List.length_cons, takeTurns]
    cases hturn : rotation (activeFrom ext.value.data 0) (first.lastUsedNdx + 1).toNat with
    | nil =>
      have hperm := rotation_perm (activeFrom ext.value.data 0) (first.lastUsedNdx + 1).toNat
      rw [hturn] at hperm
      exact absurd hperm.symm.eq_nil hsome
    | cons x rest =>
      rw [hturn] at hndx
      have hcall := (modProxyCheckExtension_hit w pId hhit).2 x
        (by rw [hchoose]; exact hndx)
      dsimp only at hndx hcall ⊢
      rw [hcall.2.1, hcall.2.2, List.map_cons, hchoose]
      obtain ⟨hlen, hsame, first', hfirst', hcursor⟩ := hostList_next ext.value
        (rrNdx_inRange hfirst) x hne
      have hactive := activeFrom_congr hsame 0
      have hrest := @ih
        (conf.withHosts e ext ((ext.value.setCursor _ (rrNdx_inRange hfirst)).use x))
        { ext with value := (ext.value.setCursor _ (rrNdx_inRange hfirst)).use x } first' hbalance
        (hlen ▸ hmany) (hactive ▸ hsome) hfirst'
        fun con hcon => (hhits con (List.mem_cons_of_mem _ hcon)).withHosts _
      have hturned : first'.lastUsedNdx = x := hcursor.trans hndx
      rw [hactive, hturned] at hrest
      exact congrArg (some x :: ·) hrest

/-! ## When the choice is right -/

theorem balances_of_fits (hne : ext.value.data ≠ []) (hhit : Hits conf con e ext)
    (hfits : BalanceFits w conf.balance con ext.value.data) :
    Balances w pId conf con e ext := by
  have hcall := modProxyCheckExtension_hit w pId hhit
  have hgood := goodChoice_of_fits hne hfits
  have hchoice : ∀ i : Nat, (modProxyCheckExtension w pId conf con).choice = some i →
      (chooseNdx w conf.balance con ext.value).1 = i := by
    intro i hi
    rcases hgood with ⟨hndx, -⟩ | ⟨i', h, hndx, -⟩
    · rw [(hcall.1 hndx).2.2] at hi
      cases hi
    · rw [(hcall.2 i' hndx).2.1] at hi
      rw [hndx, Option.some.inj hi]
  constructor
  case served =>
    rintro ⟨h, hmem, hactive⟩
    rcases hgood with ⟨-, hnone⟩ | ⟨i, host, hndx, hget, hhost⟩
    · rw [hnone h hmem] at hactive
      cases hactive
    · exact ⟨(hcall.2 i hndx).1, i, host, (hcall.2 i hndx).2.1, hget, hhost⟩
  case refused =>
    intro hnone
    rcases hgood with ⟨hndx, -⟩ | ⟨i, host, -, hget, hhost⟩
    · exact hcall.1 hndx
    · rw [hnone host (List.mem_of_getElem? hget)] at hhost
      cases hhost
  case hash =>
    intro hbalance i hi
    have hndx := hchoice i hi
    by_cases hone : ext.value.data.length = 1
    · refine ⟨?_, fun j hj => ?_⟩
      · obtain ⟨h, hdata⟩ := List.length_eq_one_iff.mp hone
        rcases hgood with ⟨hnone, -⟩ | ⟨i', host, hndx', hget, hactive⟩
        · omega
        · obtain rfl : i' = i := by omega
          rw [hdata] at hget ⊢
          cases i' with
          | zero =>
            obtain rfl := Option.some.inj hget
            refine ⟨(hostHash con h).toNat, ?_⟩
            rw [hashKeys, List.map_singleton, if_neg (Bool.eq_false_iff.mp hactive)]
            exact @isFirstMax_concat _ _ [] _ nofun
          | succ i' => cases hget
      · exact ((modProxyCheckExtension_hit w pId (hhit.withHosts _)).2 i
          (chooseNdx_one_disable hone hndx hj)).2.1
    · obtain ⟨first, hfirst⟩ := exists_first hne
      have hlast := hfits.resolve_left hone
      rw [hbalance] at hlast
      rw [chooseNdx_many hone hfirst, hbalance] at hndx
      refine ⟨?_, fun j hj => ?_⟩
      · rcases hashLoop_all hlast with ⟨-, hnone⟩ | ⟨i', key, hndx', hmax⟩
        · dsimp only at hndx
          omega
        · obtain rfl : i' = i := by
            dsimp only at hndx
            omega
          exact ⟨key, hmax⟩
      · obtain ⟨first', hfirst'⟩ := @exists_first (ext.value.disable j).data fun hnil => hne
          (List.length_eq_zero_iff.mp (((length_disable _ j).symm.trans (congrArg _ hnil))))
        refine ((modProxyCheckExtension_hit w pId (hhit.withHosts _)).2 i ?_).2.1
        show (chooseNdx w conf.balance con (ext.value.disable j)).1 = i
        rw [chooseNdx_many ((length_disable _ j).symm ▸ hone) hfirst', hbalance]
        exact hashLoop_disable hlast hndx hj
  case fair =>
    intro hbalance i host hi hget h' hmem hactive
    have hndx := hchoice i hi
    by_cases hone : ext.value.data.length = 1
    · obtain ⟨h, hdata⟩ := List.length_eq_one_iff.mp hone
      rw [hdata] at hmem hget
      have hhost := List.mem_of_getElem? hget
      rw [List.mem_singleton.mp hmem, List.mem_singleton.mp hhost]
    · obtain ⟨first, hfirst⟩ := exists_first hne
      rw [chooseNdx_many hone hfirst, hbalance] at hndx
      dsimp only at hndx
      obtain ⟨least, hleast, ⟨hnone, -⟩ | ⟨i', h, hndx', hget', -, husage, -⟩⟩ :=
        fairLoop_all ext.value.data
      · omega
      · obtain rfl : i' = i := by omega
        obtain rfl : h = host := Option.some.inj (hget'.symm.trans hget)
        rw [husage]
        exact hleast h' hmem hactive
  case turns =>
    intro hbalance requests hhits hlen
    by_cases hsome : activeFrom ext.value.data 0 = []
    · rw [hsome] at hlen ⊢
      rw [List.length_eq_zero_iff.mp hlen]
      exact .nil
    · by_cases hone : ext.value.data.length = 1
      · obtain ⟨h, hdata⟩ := List.length_eq_one_iff.mp hone
        have hactive : ¬ h.isDisabled = true := fun hd => hsome (by
          rw [hdata, activeFrom_disabled hd]
          rfl)
        rw [hdata, activeFrom_active hactive] at hlen ⊢
        obtain ⟨con', rfl⟩ := List.length_eq_one_iff.mp hlen
        have hndx : (chooseNdx w conf.balance con' ext.value).1 = (0 : Nat) := by
          rw [chooseNdx_one hone, hdata]
          exact if_neg (by simpa using hactive)
        have hcall := modProxyCheckExtension_hit w pId (hhits con' List.mem_cons_self)
        rw [runChoices, (hcall.2 0 hndx).2.1]
        exact .refl _
      · obtain ⟨first, hfirst⟩ := exists_first hne
        rw [runChoices_eq hbalance hone hsome hfirst requests hhits, hlen]
        exact (takeTurns_perm (activeFrom_sorted _ 0) _).map some

theorem fits_of_balances (hw : w = 32 ∨ w = 64) (hne : ext.value.data ≠ [])
    (hhit : Hits conf con e ext) (h : Balances w pId conf con e ext) :
    BalanceFits w conf.balance con ext.value.data := by
  by_cases hone : ext.value.data.length = 1
  · exact .inl hone
  obtain ⟨first, hfirst⟩ := exists_first hne
  have hcall := modProxyCheckExtension_hit w pId hhit
  rw [chooseNdx_many hone hfirst] at hcall
  -- a host that is not disabled is chosen, so the loop did not end with -1
  have hchosen : ∀ host ∈ ext.value.data, host.isDisabled = false →
      ¬ (modProxyCheckExtension w pId conf con).choice = none := by
    intro host hmem hactive hnone
    obtain ⟨-, i, -, hi, -⟩ := h.served ⟨host, hmem, hactive⟩
    rw [hnone] at hi
    cases hi
  refine .inr ?_
  cases hbalance : conf.balance with
  | rr => trivial
  | unset =>
    rw [hbalance] at hcall
    intro host hmem
    by_contra hd
    exact hchosen host hmem (Bool.eq_false_iff.mpr hd) (hcall.1 rfl).2.2
  | fair =>
    rw [hbalance] at hcall
    by_contra hnot
    obtain ⟨hbusy, hsome⟩ := not_or.mp hnot
    obtain ⟨host, hhost⟩ := not_forall.mp hsome
    obtain ⟨hmem, hd⟩ := Classical.not_imp.mp hhost
    obtain ⟨least, -, ⟨hndx, -⟩ | ⟨i, h', -, hget, hactive, husage, hlt⟩⟩ :=
      fairLoop_all ext.value.data
    · exact hchosen host hmem (Bool.eq_false_iff.mpr hd) (hcall.1 hndx).2.2
    · exact hbusy ⟨h', List.mem_of_getElem? hget, hactive, by omega⟩
  | hash =>
    rw [hbalance] at hcall
    intro i j host h' hlt hget hactive hhash hget'
    by_contra hd
    obtain ⟨hi, hcell⟩ := List.getElem?_eq_some_iff.mp hget
    have hsplit : ext.value.data.take i ++ host :: ext.value.data.drop (i + 1) =
        ext.value.data := by
      rw [← hcell, ← List.drop_eq_getElem_cons hi, List.take_append_drop]
    have hbehind : h' ∈ ext.value.data.drop (i + 1) := by
      refine List.mem_of_getElem? (i := j - (i + 1)) ?_
      rw [List.getElem?_drop, Nat.add_sub_cancel' hlt]
      exact hget'
    have hpassed := @lt_hashLoop w con host 0 (ulongMax w) hw (ext.value.data.take i) _ hactive
      hhash ⟨h', hbehind, Bool.eq_false_iff.mpr hd⟩ (Nat.le_refl _) (-1)
    rw [hsplit, List.length_take, Nat.min_eq_left (Nat.le_of_lt hi), Nat.zero_add] at hpassed
    obtain ⟨m, hm⟩ : ∃ m : Nat, hashLoop w con ext.value.data 0 (-1) (ulongMax w) = m :=
      ⟨(hashLoop w con ext.value.data 0 (-1) (ulongMax w)).toNat, by omega⟩
    obtain ⟨⟨key, hmax⟩, -⟩ := h.hash hbalance m (hcall.2 m hm).2.1
    obtain ⟨best, -, -, hbest⟩ := hashKeys_getElem?.mp hmax.at_pos
    have hkey := hmax.lt i _ (by omega) (hashKeys_getElem?.mpr ⟨host, hget, hactive, hhash⟩)
    have hle := hash_le con best hw
    omega

/-- **When the choice of a backend is the one that the mode stands for**: one host; or no host with
the hash `ULONG_MAX` is in front of another one that is not disabled; or one has fewer than
`INT_MAX` connections; and always in the round robin. -/
theorem balances_iff (hw : w = 32 ∨ w = 64) (hne : ext.value.data ≠ [])
    (hhit : Hits conf con e ext) :
    Balances w pId conf con e ext ↔ BalanceFits w conf.balance con ext.value.data :=
  ⟨fits_of_balances hw hne hhit, balances_of_fits hne hhit⟩

theorem sentinelLast_of_wide (con : ProxyRequest) (hosts : List ProxyHost) :
    SentinelLast 64 con hosts := by
  intro i j host h hlt hget hactive hhash
  have := (hostHash con host).toNat_lt
  unfold ulongMax at hhash
  omega

end Property

def idleHost (name : Bytes) : ProxyHost where
  host := textBuffer name
  port := 80
  isDisabled := false
  usage := 0
  lastUsedNdx := 0

/-- Two hosts for `/`. -/
def twoBackends : ProxyExtension where
  key := textBuffer (ascii "/")
  value :=
    { data := [idleHost (ascii "10.0.0.1"), idleHost (ascii "10.0.0.2")]
      cursor := fun h hh => by
        obtain rfl := Option.some.inj hh
        exact ⟨by decide, by decide⟩ }

/-- A path for which the hash of the first host is `0xffffffff`. -/
def sentinelRequest : ProxyRequest where
  mode := DIRECT
  fileStarted := false
  httpStatus := 0
  uriPath := textBuffer (ascii "/2lo4gfq")
  uriAuthority := textBuffer (ascii "example.org")

theorem hits_twoBackends (balance : ProxyBalance) :
    Hits ⟨[twoBackends], balance⟩ sentinelRequest 0 twoBackends :=
  ⟨rfl, rfl, by decide, 0, rfl⟩

/-- With 64 bits all is well. -/
theorem balances_iff_wide :
    Balances 64 1 ⟨[twoBackends], .hash⟩ sentinelRequest 0 twoBackends :=
  (balances_iff (.inr rfl) (by decide) (hits_twoBackends .hash)).mpr
    (.inr (sentinelLast_of_wide _ _))

/-- With 32 bits the second host is chosen, and the first one has the greater hash. -/
theorem not_balances_sentinel :
    ¬ Balances 32 1 ⟨[twoBackends], .hash⟩ sentinelRequest 0 twoBackends := by
  intro h
  have hhash : (hostHash sentinelRequest (idleHost (ascii "10.0.0.1"))).toNat = ulongMax 32 := by
    decide +kernel
  have hfits := fits_of_balances (.inl rfl) (by decide) (hits_twoBackends .hash) h
  have hlast := hfits.resolve_left (by decide)
  exact absurd (hlast 0 1 _ _ Nat.zero_lt_one rfl rfl hhash rfl) (by decide)

end Lighttpd

import Lighttpd.Configparser
import Lighttpd.Lib.Bits
import Lighttpd.PhysicalPath

/-!
# `configfile-glue.c`: what a condition compares

The operands of the comparisons of `config_check_cond_nocache` for `$HTTP["host"]` and
`$HTTP["remoteip"]`. A host is compared with or without a port, whichever the condition has, in a
buffer that all evaluations share; an address is compared under the mask of the condition.
-/

namespace Lighttpd

open CLib Bits

def condResult (cond : ConfigCond) (holds : Bool) : CondResult :=
  match cond with
  | .eq | .regex => if holds then .true else .false
  | .ne | .notRegex => if holds then .false else .true

/-- The comparison of a value with the string of the condition; `pcre` tells whether the expression
matches. -/
def compareValue (pcre : Buffer → Bool) (cond : ConfigCond) (string l : Buffer) : CondResult :=
  match cond with
  | .eq | .ne => condResult cond (bufferIsEqual l string)
  | .regex | .notRegex => condResult cond (pcre l)

/-! ## The host -/

/-- The value for `COMP_HTTP_HOST`, and `cond_check_buf`. The pointers to the colons are in two
different buffers, so they are the same only if both are `NULL`. -/
def hostValue [Malloc] (cond : ConfigCond) (string authority emptyString : Buffer) (port : UInt16)
    (condCheckBuf : Buffer) : Buffer × Buffer :=
  if bufferIsEmpty authority then (emptyString, condCheckBuf)
  else if cond = .ne ∨ cond = .eq then
    match strchr string.str 58, strchr authority.str 58 with
    | none, none => (authority, condCheckBuf)
    | some _, _ =>
      -- condition "host:port" but client send "host"
      let b := bufferCopyStringBuffer condCheckBuf authority
      let b := bufferAppendStringLen b (some (ascii ":"))
      let b := bufferAppendLong b port.toNat
      (b, b)
    | none, some valColon =>
      -- condition "host" but client send "host:port"
      let b := bufferCopyStringLen condCheckBuf (some (authority.str.take valColon))
      (b, b)
  else (authority, condCheckBuf)

/-- The comparison of the host, and `cond_check_buf`. -/
def checkHttpHost [Malloc] (pcre : Buffer → Bool) (cond : ConfigCond)
    (string authority emptyString : Buffer) (port : UInt16) (condCheckBuf : Buffer) :
    CondResult × Buffer :=
  let (l, condCheckBuf) := hostValue cond string authority emptyString port condCheckBuf
  (compareValue pcre cond string l, condCheckBuf)

def hostPart (t : Bytes) : Bytes := t.takeWhile (· != 58)

/-- What stands behind the first colon, and the port of the server if there is none. -/
def portPart (port : UInt16) (t : Bytes) : Bytes :=
  if 58 ∈ t then t.drop ((hostPart t).length + 1) else decimal port.toNat

/-- Host and port are equal, where a port that is left out is the server's. -/
def SameHostAndPort (port : UInt16) (s t : Bytes) : Prop :=
  hostPart s = hostPart t ∧ portPart port s = portPart port t

theorem hostPart_of_notMem {t : Bytes} (h : 58 ∉ t) : hostPart t = t :=
  takeWhile_eq_of_notMem h

theorem hostPart_append_cons {a : Bytes} (h : 58 ∉ a) (b : Bytes) :
    hostPart (a ++ 58 :: b) = a := by
  rw [hostPart, takeWhile_append_of_notMem h, List.takeWhile_cons_of_neg (by decide),
    List.append_nil]

section Values

variable [Malloc] {cond : ConfigCond} {string authority emptyString condCheckBuf : Buffer}
  {port : UInt16} {c h : Bytes}

def comparedHost (port : UInt16) (c h : Bytes) : Bytes :=
  if 58 ∈ c then h ++ 58 :: decimal port.toNat else hostPart h

theorem text_hostValue (hcond : cond = .ne ∨ cond = .eq) (hc : string.Text c) (hcs : IsCStr c)
    (hh : authority.Text h) (hhs : IsCStr h) :
    (hostValue cond string authority emptyString port condCheckBuf).1.Text
      (comparedHost port c h) := by
  have hused : authority.used ≠ 0 := by
    rw [hh.used]
    exact Nat.succ_ne_zero _
  have hcopy : (bufferCopyStringBuffer condCheckBuf authority).Text h := by
    rw [← hh.text_eq]
    exact text_bufferCopyStringBuffer _ hused
  unfold hostValue comparedHost
  rw [if_neg (by simpa [bufferIsEmpty] using hused), if_pos hcond, hc.str hcs, hh.str hhs]
  by_cases hcolon : 58 ∈ c
  · -- the port is appended whatever the client sent
    obtain ⟨a, b, rfl, ha⟩ := List.eq_append_cons_of_mem hcolon
    rw [strchr_append_cons ha, if_pos hcolon]
    have htext := text_bufferAppendLong (text_bufferAppendStringLen hcopy (ascii ":")) port.toNat
    rw [List.append_assoc] at htext
    exact htext
  · rw [strchr_eq_none.mpr hcolon, if_neg hcolon]
    by_cases hval : 58 ∈ h
    · obtain ⟨a, b, rfl, ha⟩ := List.eq_append_cons_of_mem hval
      rw [strchr_append_cons ha, hostPart_append_cons ha]
      dsimp only
      rw [List.take_left' rfl]
      exact text_bufferCopyStringLen _ _
    · rw [strchr_eq_none.mpr hval, hostPart_of_notMem hval]
      exact hh

omit [Malloc] in
theorem isCStr_comparedHost (port : UInt16) (c : Bytes) (hhs : IsCStr h) :
    IsCStr (comparedHost port c h) := by
  unfold comparedHost
  split
  · exact hhs.append (List.not_mem_cons_of_ne_of_not_mem (by decide) (isCStr_decimal _))
  · exact fun hmem => hhs ((List.takeWhile_prefix _).subset hmem)

omit [Malloc] in
theorem condResult_eq_true (cond : ConfigCond) (holds : Bool) (hcond : cond = .ne ∨ cond = .eq) :
    condResult cond holds = .true ↔ (cond = .eq ↔ holds = true) := by
  rcases hcond with rfl | rfl
  · cases holds <;> decide
  · cases holds <;> decide

omit [Malloc] in
theorem compareValue_text (pcre : Buffer → Bool) {l : Buffer} {t : Bytes}
    (hcond : cond = .ne ∨ cond = .eq) (hc : string.Text c) (hcs : IsCStr c) (hl : l.Text t)
    (ht : IsCStr t) :
    compareValue pcre cond string l = .true ↔ (cond = .eq ↔ c = t) := by
  have hequal := bufferIsEqual_text hl ht hc hcs
  have hvalue : compareValue pcre cond string l = condResult cond (bufferIsEqual l string) := by
    rcases hcond with rfl | rfl <;> rfl
  rw [hvalue, condResult_eq_true cond _ hcond, hequal, eq_comm (a := t)]

theorem checkHttpHost_text (pcre : Buffer → Bool) (hcond : cond = .ne ∨ cond = .eq)
    (hc : string.Text c) (hcs : IsCStr c) (hh : authority.Text h) (hhs : IsCStr h) :
    (checkHttpHost pcre cond string authority emptyString port condCheckBuf).1 = .true ↔
      (cond = .eq ↔ c = comparedHost port c h) :=
  compareValue_text pcre hcond hc hcs (text_hostValue hcond hc hcs hh hhs)
    (isCStr_comparedHost port c hhs)

theorem checkHttpHost_unused (pcre : Buffer → Bool) (hcond : cond = .ne ∨ cond = .eq)
    (hc : string.Text c) (hcs : IsCStr c) (hh : authority.used = 0) (he : emptyString.Text []) :
    (checkHttpHost pcre cond string authority emptyString port condCheckBuf).1 = .true ↔
      (cond = .eq ↔ c = []) := by
  have hvalue :
      (hostValue cond string authority emptyString port condCheckBuf).1 = emptyString := by
    unfold hostValue
    rw [if_pos (by simpa [bufferIsEmpty] using hh)]
  unfold checkHttpHost
  dsimp only
  rw [hvalue]
  exact compareValue_text pcre hcond hc hcs he List.not_mem_nil

end Values

theorem sameHostAndPort_iff {port : UInt16} {c h : Bytes} (hc : 58 ∈ c) (hh : 58 ∉ h) :
    SameHostAndPort port c h ↔ c = h ++ 58 :: decimal port.toNat := by
  obtain ⟨a, b, rfl, ha⟩ := List.eq_append_cons_of_mem hc
  unfold SameHostAndPort portPart
  rw [if_pos hc, if_neg hh, hostPart_append_cons ha, hostPart_of_notMem hh, drop_append_cons]
  constructor
  · rintro ⟨rfl, rfl⟩
    rfl
  · intro he
    have hpart := congrArg hostPart he
    rw [hostPart_append_cons ha, hostPart_append_cons hh] at hpart
    subst hpart
    exact ⟨rfl, (List.cons.inj (List.append_cancel_left he)).2⟩

section Reached

variable {cached : CondCache → Nat → Option (CondResult × CondCache)} {s s' : CondCache} {i : Nat}
  {dc : DataConfig}

/-- The parent holds, the branch in front has not set the block to false, and its field is known. -/
def ComparisonReached (cached : CondCache → Nat → Option (CondResult × CondCache)) (s : CondCache)
    (i : Nat) (dc : DataConfig) (s' : CondCache) : Prop :=
  ∃ s₁, checkParent cached s dc = some (.true, s₁) ∧ checkPrev cached s₁ dc = some s' ∧
    ¬ (dc.prev.isSome ∧ s'.result i = .false) ∧ s'.valid dc.comp = true

theorem configCheckCondNocache_reached (rules : Nat → Bool)
    (hreached : ComparisonReached cached s i dc s') :
    configCheckCondNocache rules cached s i dc = some (if rules i then .true else .false, s') := by
  obtain ⟨s₁, hparent, hprev, hchain, hvalid⟩ := hreached
  unfold configCheckCondNocache
  rw [hparent]
  dsimp only
  rw [hprev]
  dsimp only
  rw [if_neg hchain, if_neg (by simp [hvalid])]

/-- **The condition on the host.** Without a port it is compared with the host that the client
names, whatever port the client names; with a port, and a client that names none, the port is the server's.
The shared buffer does not matter, and `!=` is the negation of `==`. -/
theorem configCheckCondNocache_host [Malloc] {pcre : Buffer → Bool} {cond : ConfigCond}
    {string authority emptyString condCheckBuf : Buffer} {port : UInt16} {c h : Bytes}
    {rules : Nat → Bool} (hreached : ComparisonReached cached s i dc s')
    (hrules : rules i =
      decide ((checkHttpHost pcre cond string authority emptyString port condCheckBuf).1 = .true))
    (hcond : cond = .ne ∨ cond = .eq) (hc : string.Text c) (hcs : IsCStr c)
    (hh : authority.Shows h) (hhs : IsCStr h) (he : emptyString.Text []) :
    ∃ r, configCheckCondNocache rules cached s i dc = some (r, s') ∧
      (58 ∉ c → (r = .true ↔ (cond = .eq ↔ c = hostPart h))) ∧
      (58 ∈ c → 58 ∉ h → h ≠ [] → (r = .true ↔ (cond = .eq ↔ SameHostAndPort port c h))) := by
  refine ⟨_, configCheckCondNocache_reached rules hreached, ?_⟩
  have hresult : (if rules i then CondResult.true else .false) = .true ↔
      (checkHttpHost pcre cond string authority emptyString port condCheckBuf).1 = .true := by
    rw [hrules]
    split
    · next hb => exact iff_of_true rfl (of_decide_eq_true hb)
    · next hb => exact iff_of_false (by decide) fun htrue => hb (decide_eq_true htrue)
  rw [hresult]
  rcases hh with hh | ⟨hu, rfl⟩
  · rw [checkHttpHost_text pcre hcond hc hcs hh hhs]
    unfold comparedHost
    refine ⟨fun hcolon => by rw [if_neg hcolon], fun hcolon hval _ => ?_⟩
    rw [if_pos hcolon, sameHostAndPort_iff hcolon hval]
  · rw [checkHttpHost_unused pcre hcond hc hcs hu he]
    exact ⟨fun _ => Iff.rfl, fun _ _ hne => absurd rfl hne⟩

end Reached

/-- A condition on the host that is neither nested nor in a chain. -/
def singleHostBlock : DataConfig := ⟨.httpHost, none, none, none⟩

def allKnown : CondCache := ⟨fun _ => .unset, fun _ => .unset, fun _ => true⟩

theorem comparisonReached_single :
    ComparisonReached (fun _ _ => none) allKnown 0 singleHostBlock allKnown :=
  ⟨allKnown, rfl, rfl, by simp [singleHostBlock], rfl⟩

/-- The texts `a`, `a:8080` and the empty one, in memory. -/
def bufA : Buffer := ⟨ascii "a\x00", 2, 0⟩

def bufA8080 : Buffer := ⟨ascii "a:8080\x00", 7, 1⟩

def bufEmpty : Buffer := ⟨ascii "\x00", 1, 2⟩

/-- `$HTTP["host"] == "a"` for `Host: a:8080`. -/
def hostRule (_ : Nat) : Bool :=
  decide ((@checkHttpHost zeroMalloc (fun _ => false) .eq bufA bufA8080 bufEmpty 80 bufferInit).1 =
    .true)

theorem configCheckCondNocache_host_a : ∃ r,
    configCheckCondNocache hostRule (fun _ _ => none) allKnown 0 singleHostBlock =
        some (r, allKnown) ∧
      (58 ∉ ascii "a" →
        (r = .true ↔ (ConfigCond.eq = .eq ↔ ascii "a" = hostPart (ascii "a:8080")))) ∧
      (58 ∈ ascii "a" → 58 ∉ ascii "a:8080" → ascii "a:8080" ≠ [] →
        (r = .true ↔ (ConfigCond.eq = .eq ↔ SameHostAndPort 80 (ascii "a") (ascii "a:8080")))) :=
  @configCheckCondNocache_host _ _ _ _ _ zeroMalloc (fun _ => false) .eq bufA bufA8080 bufEmpty
    bufferInit 80 _ _ hostRule comparisonReached_single rfl (Or.inr rfl) ⟨rfl, rfl⟩ (by decide)
    (Or.inl ⟨rfl, rfl⟩) (by decide) ⟨rfl, rfl⟩

/-- It holds on a server with the port 80, although the ports are not equal. -/
theorem hostRule_other_port :
    (configCheckCondNocache hostRule (fun _ _ => none) allKnown 0 singleHostBlock).map Prod.fst =
      some .true ∧ ¬ SameHostAndPort 80 (ascii "a") (ascii "a:8080") := by
  refine ⟨by decide +kernel, fun h => ?_⟩
  have hport := h.2
  revert hport
  decide +kernel

/-! ## The address of the client -/

/-- On a little-endian machine, for `s_addr` as a number. -/
def htonl (x : BitVec 32) : BitVec 32 := byteSwap x

def ntohl (x : BitVec 32) : BitVec 32 := byteSwap x

/-- `1 << k` for an `int`. The count has to be below the width; a bit that is shifted into the sign
stays there. -/
def shiftOne (k : Int) : Option (BitVec 32) :=
  if 0 ≤ k ∧ k < 32 then some (1#32 <<< k.toNat) else none

/-- `htonl(~((1 << (32 - nm_bits)) - 1))` -/
def netmask (nmBits : Int) : Option (BitVec 32) :=
  (shiftOne (32 - nmBits)).map fun s => htonl (~~~(s - 1#32))

/-- The comparison for `COMP_HTTP_REMOTE_IP`, and `cond_check_buf`. `dstAddr` is the client's
address if it is one of `AF_INET`, and `dstAddrBuf` its text. -/
def checkHttpRemoteIp [Malloc] (inetAton : Bytes → Option (BitVec 32)) (pcre : Buffer → Bool)
    (cond : ConfigCond) (string : Buffer) (dstAddr : Option (BitVec 32)) (dstAddrBuf : Buffer)
    (condCheckBuf : Buffer) : Option (CondResult × Buffer) :=
  if cond = .eq ∨ cond = .ne then
    match dstAddr, strchr string.str 47 with
    | some dst, some nmSlash =>
      let bits := string.str.drop (nmSlash + 1)
      if bits = [] then some (.false, condCheckBuf)
      else
        let (nmBits, err) := strtol bits
        if err ≠ [] then some (.false, condCheckBuf)
        else
          let b := bufferCopyStringLen condCheckBuf (some (string.str.take nmSlash))
          match inetAton b.str with
          | none => some (.false, b)
          | some val => do
            let nm ← netmask nmBits
            some (condResult cond (val &&& nm == dst &&& nm), b)
    | _, _ => some (compareValue pcre cond string dstAddrBuf, condCheckBuf)
  else some (compareValue pcre cond string dstAddrBuf, condCheckBuf)

theorem netmask_leading {n : Nat} (hpos : 0 < n) (hle : n ≤ 32) :
    netmask n = some (byteSwap (leading 32 n)) := by
  unfold netmask shiftOne
  rw [if_pos (by omega), show ((32 : Int) - n).toNat = 32 - n by omega]
  rfl

section RemoteIp

variable [Malloc] {inetAton : Bytes → Option (BitVec 32)} {pcre : Buffer → Bool} {cond : ConfigCond}
  {string dstAddrBuf condCheckBuf : Buffer} {t ds : Bytes} {val dst : BitVec 32}

/-- The condition `t/ds` has a result, and with `==` it holds exactly if the first bits of the two
addresses are equal, with `!=` if they are not. -/
def MatchesPrefix (inetAton : Bytes → Option (BitVec 32)) (pcre : Buffer → Bool) (cond : ConfigCond)
    (string dstAddrBuf condCheckBuf : Buffer) (val dst : BitVec 32) (n : Nat) : Prop :=
  ∃ r b, checkHttpRemoteIp inetAton pcre cond string (some dst) dstAddrBuf condCheckBuf =
    some (r, b) ∧
      (r = .true ↔ (cond = .eq ↔ ∀ i < n, (ntohl val).getMsbD i = (ntohl dst).getMsbD i))

theorem checkHttpRemoteIp_mask (pcre : Buffer → Bool) (dst : BitVec 32)
    (dstAddrBuf condCheckBuf : Buffer) (hcond : cond = .eq ∨ cond = .ne)
    (htext : string.Text (t ++ 47 :: ds)) (ht : IsCStr t) (hslash : 47 ∉ t) (hds : Digits ds) (hn : digitsValue ds ≤ 32)
    (haddr : inetAton t = some val) :
    ∃ b, checkHttpRemoteIp inetAton pcre cond string (some dst) dstAddrBuf condCheckBuf =
      (netmask (digitsValue ds)).map fun nm => (condResult cond (val &&& nm == dst &&& nm), b) := by
  have hcs : IsCStr (t ++ 47 :: ds) :=
    ht.append (List.not_mem_cons_of_ne_of_not_mem (by decide) (hds.notMem rfl))
  have hsat : saturate (digitsValue ds) = digitsValue ds := saturate_eq (by omega) (by omega)
  refine ⟨bufferCopyStringLen condCheckBuf (some t), ?_⟩
  unfold checkHttpRemoteIp
  rw [if_pos hcond, htext.str hcs, strchr_append_cons hslash]
  dsimp only
  rw [drop_append_cons, if_neg hds.1, strtol_digits hds, List.take_left' rfl]
  dsimp only
  rw [if_neg (not_not.mpr rfl), (text_bufferCopyStringLen condCheckBuf t).str ht, haddr, hsat]
  dsimp only
  cases netmask (digitsValue ds) <;> rfl

/-- **The mask of a condition on the address** is right for every length but zero, which shifts by
the width of the operand. -/
theorem matchesPrefix_iff (hcond : cond = .eq ∨ cond = .ne) (htext : string.Text (t ++ 47 :: ds))
    (ht : IsCStr t) (hslash : 47 ∉ t) (hds : Digits ds) (hn : digitsValue ds ≤ 32)
    (haddr : inetAton t = some val) :
    MatchesPrefix inetAton pcre cond string dstAddrBuf condCheckBuf val dst (digitsValue ds) ↔
      digitsValue ds ≠ 0 := by
  obtain ⟨b, hcheck⟩ := checkHttpRemoteIp_mask pcre dst dstAddrBuf condCheckBuf hcond htext ht
    hslash hds hn haddr
  generalize digitsValue ds = n at *
  unfold MatchesPrefix
  rw [hcheck]
  constructor
  · rintro ⟨r, b', hrun, -⟩ rfl
    cases hrun
  · intro hne
    rw [netmask_leading (Nat.pos_of_ne_zero hne) hn]
    refine ⟨_, b, rfl, ?_⟩
    rw [condResult_eq_true cond _ hcond.symm, beq_iff_eq,
      and_byteSwap_leading (Nat.pos_of_ne_zero hne) hn]
    rfl

end RemoteIp

def inAddr (a b c d : UInt8) : BitVec 32 :=
  d.toBitVec ++ c.toBitVec ++ b.toBitVec ++ a.toBitVec

/-- `inet_aton` for two addresses. -/
def inetAtonTwo (t : Bytes) : Option (BitVec 32) :=
  if t = ascii "10.0.0.0" then some (inAddr 10 0 0 0)
  else if t = ascii "0.0.0.0" then some (inAddr 0 0 0 0) else none

def bufTen : Buffer := ⟨ascii "10.0.0.0/8\x00", 11, 0⟩

def bufAny : Buffer := ⟨ascii "0.0.0.0/0\x00", 10, 1⟩

theorem matchesPrefix_iff_ten :
    @MatchesPrefix zeroMalloc inetAtonTwo (fun _ => false) .eq bufTen bufferInit bufferInit
      (inAddr 10 0 0 0) (inAddr 10 1 2 3) (digitsValue (ascii "8")) ↔ digitsValue (ascii "8") ≠ 0 :=
  @matchesPrefix_iff zeroMalloc inetAtonTwo (fun _ => false) .eq bufTen bufferInit bufferInit
    (ascii "10.0.0.0") (ascii "8") (inAddr 10 0 0 0) (inAddr 10 1 2 3) (Or.inl rfl) ⟨rfl, rfl⟩
    (by decide) (by decide) ⟨by decide, by decide⟩ (by decide) rfl

/-- `0.0.0.0/0`, the mask that all addresses match. -/
theorem not_matchesPrefix_any :
    ¬ @MatchesPrefix zeroMalloc inetAtonTwo (fun _ => false) .eq bufAny bufferInit bufferInit
      (inAddr 0 0 0 0) (inAddr 10 1 2 3) (digitsValue (ascii "0")) := by
  have hnone : @checkHttpRemoteIp zeroMalloc inetAtonTwo (fun _ => false) .eq bufAny
      (some (inAddr 10 1 2 3)) bufferInit bufferInit = none := by decide +kernel
  rintro ⟨r, b, hrun, -⟩
  rw [hnone] at hrun
  cases hrun

end Lighttpd

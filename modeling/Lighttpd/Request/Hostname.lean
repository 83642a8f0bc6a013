import Lighttpd.Base

/-!
# `request.c`: the check of the host name

`request_check_hostname` walks over the host from the right. It may take a trailing dot out of the
buffer, before it knows whether the name is valid.
-/

namespace Lighttpd

open CLib

/-! ## Character classes (`buffer.c`) -/

def lightIsdigit (c : UInt8) : Bool := isDigit c

def lightIsxdigit (c : UInt8) : Bool := lightIsdigit c || (97 ≤ c ||| 32 && c ||| 32 ≤ 102)

def lightIsalpha (c : UInt8) : Bool := 97 ≤ c ||| 32 && c ||| 32 ≤ 122

def lightIsalnum (c : UInt8) : Bool := lightIsdigit c || lightIsalpha c

/-! ## `request_check_hostname` -/

inductive HostStage where
  | domainLabel
  | topLabel
  deriving DecidableEq, Repr

/-- The variables of the scan; `isIp` is `none` for -1. -/
structure HostScan where
  stage : HostStage
  labelLen : Nat
  isIp : Option Bool
  level : Nat
  deriving DecidableEq, Repr

/-- An IPv6 address behind its `[`: what follows the `]`, `none` where the check fails. -/
def ipv6Rest : Bytes → Nat → Option Bytes
  | [], _ => none
  | c :: s, colonCnt =>
    if c = 93 then some s
    else if c = 58 then if colonCnt + 1 > 7 then none else ipv6Rest s (colonCnt + 1)
    else if lightIsxdigit c then ipv6Rest s colonCnt
    else none

def checkIpv6 (s : Bytes) : Bool :=
  match ipv6Rest s 0 with
  | none => false
  | some (58 :: port) => port.all lightIsdigit
  | some _ => true

/-- The character at the right of the last dot decides whether this is an IP. -/
def topLabelIsIp (isIp : Option Bool) (right : UInt8) : Option Bool :=
  if isIp = some false then if lightIsalnum right then some false else none
  else if !lightIsdigit right then some false
  else if right = 45 then none
  else some true

/-- A character of a label; the one at the front must not be a `-`. -/
def labelChar (i : Nat) (c : UInt8) : Bool :=
  if i = 0 then lightIsalnum c else c == 45 || lightIsalnum c

/-- `c` is at `i`, `right` next to it, and the name has `hostLen` characters. -/
def topLabelStep (hostLen i : Nat) (c right : UInt8) (s : HostScan) : Option HostScan :=
  if c = 46 then
    if i ≠ hostLen - 1 then
      if s.labelLen = 0 then none
      else
        match topLabelIsIp s.isIp right with
        | none => none
        | some isIp => some ⟨.domainLabel, 0, some isIp, s.level + 1⟩
    else if i = 0 then none
    else some s
  else if !labelChar i c then none
  else if i ≠ 0 ∧ s.isIp = none ∧ !lightIsdigit c then
    some { s with isIp := some false, labelLen := s.labelLen + 1 }
  else some { s with labelLen := s.labelLen + 1 }

def domainLabelStep (i : Nat) (c right : UInt8) (s : HostScan) : Option HostScan :=
  if c = 46 then
    if s.labelLen = 0 then none
    else if s.isIp ≠ some true ∧ right = 45 then none
    else some { s with labelLen := 0, level := s.level + 1 }
  else if s.isIp = some true then
    if lightIsdigit c then some { s with labelLen := s.labelLen + 1 } else none
  else if labelChar i c then some { s with labelLen := s.labelLen + 1 }
  else none

/-- The scan from the right: the characters in reverse order, and the one at their right. -/
def hostScan (hostLen : Nat) : Bytes → UInt8 → HostScan → Option HostScan
  | [], _, s => some s
  | c :: left, right, s =>
    let s? :=
      match s.stage with
      | .topLabel => topLabelStep hostLen left.length c right s
      | .domainLabel => domainLabelStep left.length c right s
    match s? with
    | none => none
    | some s => hostScan hostLen left c s

def checkName (name : Bytes) : Bool :=
  match hostScan name.length name.reverse 0 ⟨.topLabel, 0, none, 0⟩ with
  | none => false
  | some s => !(s.isIp == some true && s.level != 3) && s.labelLen != 0

/-- A dot at the end of the name, of `hostLen` characters, is taken out of the buffer. -/
def stripDot (host : Buffer) (hostLen : Nat) (colon : Option Nat) : Buffer × Nat :=
  if host.ptr[hostLen - 1]? = some 46 then
    let ptr :=
      match colon with
      | some _ => memcpy host.ptr (hostLen - 1) ((host.ptr.take host.used).drop hostLen)
      | none => host.ptr.set (hostLen - 1) 0
    ({ host with ptr := ptr, used := host.used - 1 }, hostLen - 1)
  else (host, hostLen)

def requestCheckHostname (host : Buffer) : Int × Buffer :=
  if host.used = 0 then (0, host)
  else if host.ptr.head? = some 91 then
    (if checkIpv6 (cstr (host.ptr.drop 1)) then 0 else -1, host)
  else
    let colon := strchr (host.ptr.take (host.used - 1)) 58
    if colon.any fun c => !(cstr (host.ptr.drop (c + 1))).all lightIsdigit then (-1, host)
    else
      let hostLen := colon.getD (host.used - 1)
      if hostLen = 0 then (-1, host)
      else
        let (host, hostLen) := stripDot host hostLen colon
        if hostLen = 0 then (-1, host)
        else (if checkName (host.ptr.take hostLen) then 0 else -1, host)

end Lighttpd

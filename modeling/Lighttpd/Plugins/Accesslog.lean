import Lighttpd.Base
import Lighttpd.Request.Parse
import Mathlib.Algebra.Group.Even
import Mathlib.Algebra.Ring.Parity
import Mathlib.Data.List.DropRight

/-!
# `mod_accesslog.c`: what a request leaves in the log

`accesslog_append_escaped` tests for a printable character before its switch, so the quote and the
backslash, which the switch lists, never get there; and its hexadecimal digits come from a signed
`char`. The text is unambiguous exactly when the source has neither of the two characters and no
byte from 128 on (`unambiguous_iff`). A string with a backslash is never read back: what is read
weighs less than what was written (`weight_of_unescape`).
-/

namespace Lighttpd

open CLib

/-! ## The code -/

/-- `*ptr >= ' ' && *ptr <= '~'` -/
def isUnchanged (c : UInt8) : Bool := 32 ≤ charVal c && charVal c ≤ 126

/-- `(h > 9) ? (h - 10 + 'A') : (h + '0')` -/
def hexHalf (h : Int) : UInt8 := UInt8.ofInt (if h > 9 then h - 10 + 65 else h + 48)

def escapedChar (c : UInt8) : Bytes :=
  if c = 34 then ascii "\\\""
  else if c = 92 then ascii "\\\\"
  else if c = 8 then ascii "\\b"
  else if c = 10 then ascii "\\n"
  else if c = 13 then ascii "\\r"
  else if c = 9 then ascii "\\t"
  else if c = 11 then ascii "\\v"
  else [92, 120, hexHalf ((charVal c).tdiv 16), hexHalf ((charVal c).tmod 16)]

section Append

variable [Malloc]

/-- The loop; `block` is what stands between `start` and `ptr`. -/
def appendEscapedLoop : Bytes → Bytes → Buffer → Buffer
  | block, [], dest => if block = [] then dest else bufferAppendStringLen dest (some block)
  | block, c :: unread, dest =>
    if isUnchanged c then appendEscapedLoop (block ++ [c]) unread dest
    else
      let dest := if block = [] then dest else bufferAppendStringLen dest (some block)
      appendEscapedLoop [] unread (bufferAppendStringLen dest (some (escapedChar c)))

def accesslogAppendEscaped (dest str : Buffer) : Buffer :=
  if str.used = 0 then dest
  else
    let dest := bufferPrepareAppend dest (str.used - 1)
    appendEscapedLoop [] (str.ptr.take (str.used - 1)) dest

end Append

/-- The fields `log_access_write` has a case for. -/
inductive FormatType where
  | timestamp
  | remoteHost
  | remoteIdent
  | remoteUser
  | requestLine
  | status
  | bytesOutNoHeader
  | header
  | responseHeader
  | env
  | filename
  | bytesOut
  | bytesIn
  | timeUsed
  | serverName
  | httpHost
  | requestProtocol
  | requestMethod
  | percent
  | serverPort
  | queryString
  | url
  | connectionStatus
  | unsupported
  deriving DecidableEq, Repr

/-- `format_field` -/
inductive FormatField where
  | string (string : Buffer)
  | format (field : FormatType) (string : Option Buffer)

/-- `plugin_config`. The timestamp that `last_generated_accesslog_ts_ptr` points to is part of
it. -/
structure AccesslogConfig where
  accessLogfile : Buffer
  useSyslog : Bool
  logAccessFd : Int
  lastGeneratedAccesslogTs : Int
  accessLogbuffer : Buffer
  tsAccesslogStr : Buffer
  tsAccesslogFmtStr : Buffer
  appendTzOffset : Bool
  parsedFormat : List FormatField

/-- The server, with the C library's calendar. `strftime` gets room for 255 bytes. -/
structure LoggingServer where
  curTs : Int
  port : Int
  strftime : Bytes → Int → Bytes
  gmtoff : Int → Int

/-- `connection`. `dstAddr` is the text of the client's address, `srvToken` is
`srv_socket->srv_token`. -/
structure LoggedConnection extends Connection where
  dstAddr : Bytes
  authedUser : Buffer
  bytesWritten : Int
  bytesHeader : Int
  bytesRead : Int
  environment : Arr DataString
  requestStart : Int
  serverName : Buffer
  uriAuthority : Buffer
  uriQuery : Buffer
  uriPathRaw : Buffer
  srvToken : Buffer

section Write

variable [Malloc]

def appendTwoDigits (b : Buffer) (n : Int) : Buffer :=
  bufferAppendLong (if n < 10 then bufferAppendStringLen b (some (ascii "0")) else b) n

/-- `tm_gmtoff` behind the time. -/
def appendTzOffset (b : Buffer) (gmtoff : Int) : Buffer :=
  let b := bufferAppendStringLen b (some (if gmtoff ≥ 0 then ascii "+" else ascii "-"))
  let scd := gmtoff.natAbs
  let b := appendTwoDigits b (scd / 3600 : Nat)
  let b := appendTwoDigits b (scd % 3600 / 60 : Nat)
  bufferAppendStringLen b (some (ascii "]"))

def generateTimestamp (srv : LoggingServer) (p : AccesslogConfig) : Buffer :=
  let b := bufferPrepareCopy p.tsAccesslogStr 255
  let text := srv.strftime p.tsAccesslogFmtStr.str srv.curTs
  let b := { b with ptr := memcpy b.ptr 0 (text ++ [0]), used := text.length + 1 }
  if p.appendTzOffset then appendTzOffset b (srv.gmtoff srv.curTs) else b

def stampOf (srv : LoggingServer) (p : AccesslogConfig) : Buffer :=
  if srv.curTs ≠ p.lastGeneratedAccesslogTs then generateTimestamp srv p else p.tsAccesslogStr

/-- A string, or `-` where it is empty. -/
def appendOrDash (b str : Buffer) : Buffer :=
  if str.used > 1 then bufferAppendStringBuffer b str
  else bufferAppendStringLen b (some (ascii "-"))

/-- A number of bytes, or `-` where there are none. -/
def appendCount (b : Buffer) (some' shown : Int) : Buffer :=
  if some' > 0 then bufferAppendOffT b shown else bufferAppendStringLen b (some (ascii "-"))

/-- The value of the header that the field names; without a name its pointer is `NULL`. -/
def appendHeader (b : Buffer) (headers : Arr DataString) (string : Option Buffer) :
    Option Buffer := do
  match ← arrayGetElement headers (← string).str with
  | some (_, ds) => some (accesslogAppendEscaped b ds.value)
  | none => some (bufferAppendStringLen b (some (ascii "-")))

/-- The switch over the fields; the timestamp is not here, as it changes the cache. -/
def appendFormat (srv : LoggingServer) (con : LoggedConnection) (stamp : Buffer) (b : Buffer) :
    FormatType → Option Buffer → Option Buffer
  | .timestamp, _ => some (bufferAppendStringBuffer b stamp)
  | .remoteHost, _ => some (bufferAppendString b (some con.dstAddr))
  | .remoteIdent, _ => some (bufferAppendStringLen b (some (ascii "-")))
  | .remoteUser, _ => some (appendOrDash b con.authedUser)
  | .requestLine, _ =>
    some (if con.request.requestLine.used ≠ 0 then accesslogAppendEscaped b con.request.requestLine
      else b)
  | .status, _ => some (bufferAppendLong b con.httpStatus)
  | .bytesOutNoHeader, _ =>
    some (appendCount b con.bytesWritten
      (if con.bytesWritten - con.bytesHeader ≤ 0 then 0 else con.bytesWritten - con.bytesHeader))
  | .header, string => appendHeader b con.request.headers string
  | .responseHeader, string => appendHeader b con.response.headers string
  | .env, string => appendHeader b con.environment string
  | .filename, _ => some (appendOrDash b con.physicalPath)
  | .bytesOut, _ => some (appendCount b con.bytesWritten con.bytesWritten)
  | .bytesIn, _ => some (appendCount b con.bytesRead con.bytesRead)
  | .timeUsed, _ => some (bufferAppendLong b (srv.curTs - con.requestStart))
  | .serverName, _ => some (appendOrDash b con.serverName)
  | .httpHost, _ =>
    some (if con.uriAuthority.used > 1 then accesslogAppendEscaped b con.uriAuthority
      else bufferAppendStringLen b (some (ascii "-")))
  | .requestProtocol, _ =>
    some (bufferAppendStringLen b
      (some (if con.request.httpVersion = .v11 then ascii "HTTP/1.1" else ascii "HTTP/1.0")))
  | .requestMethod, _ => some (bufferAppendString b (getHttpMethodName con.request.httpMethod))
  | .percent, _ => some (bufferAppendStringLen b (some (ascii "%")))
  | .serverPort, _ =>
    some (match strrchr con.srvToken.str 58 with
      | some colon => bufferAppendString b (some (con.srvToken.str.drop (colon + 1)))
      | none => bufferAppendLong b srv.port)
  | .queryString, _ => some (accesslogAppendEscaped b con.uriQuery)
  | .url, _ => some (accesslogAppendEscaped b con.uriPathRaw)
  | .connectionStatus, _ =>
    some (bufferAppendStringLen b (some (if con.keepAlive then ascii "+" else ascii "-")))
  | .unsupported, _ => some b

def appendField (srv : LoggingServer) (con : LoggedConnection) (p : AccesslogConfig) :
    FormatField → Option AccesslogConfig
  | .string string =>
    some { p with accessLogbuffer := bufferAppendStringBuffer p.accessLogbuffer string }
  | .format field string => do
    let stamp := stampOf srv p
    let b ← appendFormat srv con stamp p.accessLogbuffer field string
    if field = .timestamp then
      some { p with
        accessLogbuffer := b, tsAccesslogStr := stamp, lastGeneratedAccesslogTs := srv.curTs }
    else some { p with accessLogbuffer := b }

/-- What goes out: the buffer that `syslog` or `write` gets. -/
inductive LogOutput where
  | none
  | syslog (b : Buffer)
  | write (b : Buffer)

def logAccessWrite (srv : LoggingServer) (con : LoggedConnection) (p : AccesslogConfig) :
    Option (AccesslogConfig × LogOutput) :=
  if ¬ p.useSyslog ∧ p.logAccessFd = -1 then some (p, .none)
  else do
    let b := p.accessLogbuffer
    let b := if b.used = 0 then bufferCopyStringLen b (some []) else b
    let last := p.lastGeneratedAccesslogTs
    let p ← p.parsedFormat.foldlM (appendField srv con) { p with accessLogbuffer := b }
    let newts : Bool := p.lastGeneratedAccesslogTs ≠ last
    let b := bufferAppendStringLen p.accessLogbuffer (some (ascii "\n"))
    if p.useSyslog ∨ p.accessLogfile.used ≠ 0 ∧ p.accessLogfile.ptr[0]? = some 124 ∨ newts ∨
        b.used > BUFFER_MAX_REUSE_SIZE then
      let out := if p.useSyslog then if b.used > 2 then .syslog b else .none
        else if p.logAccessFd ≠ -1 then .write b else .none
      some ({ p with accessLogbuffer := bufferReset b }, out)
    else some ({ p with accessLogbuffer := b }, .none)

end Write

/-! ## Reading a field back -/

def hexDigitValue (c : UInt8) : Option Nat :=
  if 48 ≤ c ∧ c ≤ 57 then some (c.toNat - 48)
  else if 65 ≤ c ∧ c ≤ 70 then some (c.toNat - 55)
  else none

/-- The byte that `\xHH` stands for. -/
def hexEscape (h l : UInt8) : Option UInt8 := do
  let high ← hexDigitValue h
  let low ← hexDigitValue l
  some (UInt8.ofNat (16 * high + low))

/-- The byte that a backslash and a character other than `x` stand for. -/
def namedEscape (c : UInt8) : Option UInt8 :=
  if c = 34 ∨ c = 92 then some c
  else if c = 98 then some 8
  else if c = 110 then some 10
  else if c = 114 then some 13
  else if c = 116 then some 9
  else if c = 118 then some 11
  else none

/-- The escapes undone; a backslash that begins none of them has no reading. -/
def unescape : Bytes → Option Bytes
  | [] => some []
  | [c] => if c = 92 then none else some [c]
  | c :: e :: text =>
    if c ≠ 92 then (unescape (e :: text)).map (c :: ·)
    else if e ≠ 120 then (namedEscape e).bind fun v => (unescape text).map (v :: ·)
    else
      match text with
      | h :: l :: text => (hexEscape h l).bind fun v => (unescape text).map (v :: ·)
      | _ => none

structure ClosedText (text : Bytes) : Prop where
  printable : ∀ c ∈ text, 32 ≤ c ∧ c ≤ 126
  quotes : ∀ before behind, text = before ++ 34 :: behind →
    Odd (before.rtakeWhile (· == 92)).length

/-- The text is one field, from which `s` is read back. -/
structure UnambiguousText (s text : Bytes) : Prop extends ClosedText text where
  undone : unescape text = some s

theorem unescape_plain {c : UInt8} (h : c ≠ 92) (text : Bytes) :
    unescape (c :: text) = (unescape text).map (c :: ·) := by
  cases text with
  | nil => exact if_neg h
  | cons e text =>
    rw [unescape.eq_def]
    exact if_pos h

theorem unescape_named {e : UInt8} (h : e ≠ 120) (text : Bytes) :
    unescape (92 :: e :: text) = (namedEscape e).bind fun v => (unescape text).map (v :: ·) := by
  rw [unescape.eq_def]
  exact if_pos h

theorem unescape_hex (h l : UInt8) (text : Bytes) :
    unescape (92 :: 120 :: h :: l :: text) =
      (hexEscape h l).bind fun v => (unescape text).map (v :: ·) := rfl

/-! ## The text of a string -/

def shownChar (c : UInt8) : Bytes := if isUnchanged c then [c] else escapedChar c

def shownText (s : Bytes) : Bytes := s.flatMap shownChar

@[simp] theorem shownText_nil : shownText [] = [] := rfl

theorem shownText_cons (c : UInt8) (s : Bytes) : shownText (c :: s) = shownChar c ++ shownText s :=
  rfl

theorem shownText_append (s t : Bytes) : shownText (s ++ t) = shownText s ++ shownText t :=
  List.flatMap_append

def PlainByte (c : UInt8) : Prop := c < 128 ∧ c ≠ 34 ∧ c ≠ 92

instance (c : UInt8) : Decidable (PlainByte c) := inferInstanceAs (Decidable (_ ∧ _))

inductive ShownAs (c : UInt8) : Bytes → Prop
  | unchanged (h : 32 ≤ c ∧ c ≤ 126) : ShownAs c [c]
  | named {e : UInt8} (hc : c < 32) (h : namedEscape e = some c) (he : 97 ≤ e ∧ e ≤ 119) :
      ShownAs c [92, e]
  | hex {h l : UInt8} (hc : c < 32 ∨ c = 127) (hhex : hexEscape h l = some c)
      (hh : 35 ≤ h ∧ h ≤ 90) (hl : 35 ≤ l ∧ l ≤ 90) : ShownAs c [92, 120, h, l]
  | wrong {h l : UInt8} (hc : 128 ≤ c) (hhex : hexEscape h l = none)
      (hh : 33 ≤ h ∧ h ≤ 90) (hl : 33 ≤ l ∧ l ≤ 90) : ShownAs c [92, 120, h, l]

def shownNth (n : Fin 256) (i : Nat) : UInt8 := (shownChar (UInt8.ofNat n)).getD i 0

theorem shownAs_shownChar (c : UInt8) : ShownAs c (shownChar c) := by
  have hall : ∀ n : Fin 256, shownChar (UInt8.ofNat n) = [UInt8.ofNat n] ∧
        (32 ≤ UInt8.ofNat n ∧ UInt8.ofNat n ≤ 126) ∨
      shownChar (UInt8.ofNat n) = [92, shownNth n 1] ∧ UInt8.ofNat n < 32 ∧
        namedEscape (shownNth n 1) = some (UInt8.ofNat n) ∧ 97 ≤ shownNth n 1 ∧ shownNth n 1 ≤ 119 ∨
      shownChar (UInt8.ofNat n) = [92, 120, shownNth n 2, shownNth n 3] ∧
        ((UInt8.ofNat n < 32 ∨ UInt8.ofNat n = 127) ∧
            hexEscape (shownNth n 2) (shownNth n 3) = some (UInt8.ofNat n) ∧
            (35 ≤ shownNth n 2 ∧ shownNth n 2 ≤ 90) ∧ 35 ≤ shownNth n 3 ∧ shownNth n 3 ≤ 90 ∨
          128 ≤ UInt8.ofNat n ∧ hexEscape (shownNth n 2) (shownNth n 3) = none ∧
            (33 ≤ shownNth n 2 ∧ shownNth n 2 ≤ 90) ∧ 33 ≤ shownNth n 3 ∧ shownNth n 3 ≤ 90) := by
    decide +kernel
  obtain ⟨n, rfl⟩ : ∃ n : Fin 256, c = UInt8.ofNat n := ⟨c.toFin, by simp⟩
  rcases hall n with ⟨heq, hrange⟩ | ⟨heq, hc, hnamed, he⟩ |
    ⟨heq, ⟨hc, hhex, hh, hl⟩ | ⟨hc, hhex, hh, hl⟩⟩
  · rw [heq]
    exact .unchanged hrange
  · rw [heq]
    exact .named hc hnamed he
  · rw [heq]
    exact .hex hc hhex hh hl
  · rw [heq]
    exact .wrong hc hhex hh hl
theorem unescape_shownText_cons {c : UInt8} (hc : c ≠ 92) (s : Bytes) :
    unescape (shownText (c :: s)) =
      if c < 128 then (unescape (shownText s)).map (c :: ·) else none := by
  have hkind := shownAs_shownChar c
  rw [shownText_cons]
  generalize shownChar c = text at hkind
  cases hkind with
  | unchanged h =>
    rw [if_pos (UInt8.lt_of_le_of_lt h.2 (by decide))]
    exact unescape_plain hc _
  | @named e hlt hnamed he =>
    have hne : e ≠ 120 := fun h => absurd (h ▸ he.2) (by decide)
    rw [if_pos (UInt8.lt_trans hlt (by decide))]
    exact (unescape_named hne _).trans (by rw [hnamed]; rfl)
  | hex hlt hhex hh hl =>
    have hascii : c < 128 := by
      rcases hlt with hlt | rfl
      · exact UInt8.lt_trans hlt (by decide)
      · decide
    rw [if_pos hascii]
    exact (unescape_hex _ _ _).trans (by rw [hhex]; rfl)
  | wrong hge hhex hh hl =>
    rw [if_neg (UInt8.not_lt.mpr hge)]
    exact (unescape_hex _ _ _).trans (by rw [hhex]; rfl)

section Weight

variable {s u text : Bytes} {c : UInt8}

/-- By the length of its text: a byte weighs less than what is read in its place where a backslash
takes its text apart. -/
def byteWeight (c : UInt8) : Nat :=
  match (shownChar c).length with
  | 1 => 2
  | 2 => 3
  | _ => 7

def weight (s : Bytes) : Nat := (s.map byteWeight).sum

@[simp] theorem weight_cons (c : UInt8) (s : Bytes) : weight (c :: s) = byteWeight c + weight s :=
  rfl

theorem byteWeight_le (c : UInt8) : 2 ≤ byteWeight c ∧ byteWeight c ≤ 7 := by
  unfold byteWeight
  split <;> omega

theorem byteWeight_printable (h : 32 ≤ c ∧ c ≤ 126) : byteWeight c = 2 := by
  have hkind := shownAs_shownChar c
  unfold byteWeight
  generalize shownChar c = text at hkind
  cases hkind with
  | unchanged => rfl
  | named hc => exact absurd (UInt8.lt_of_le_of_lt h.1 hc) (by decide)
  | hex hc =>
    rcases hc with hc | rfl
    · exact absurd (UInt8.lt_of_le_of_lt h.1 hc) (by decide)
    · exact absurd h.2 (by decide)
  | wrong hc => exact absurd (UInt8.le_trans hc h.2) (by decide)

theorem byteWeight_named {e : UInt8} (h : namedEscape e = some c) : byteWeight c ≤ 3 := by
  have hall : ∀ n : Fin 256, ((namedEscape (UInt8.ofNat n)).all (byteWeight · ≤ 3)) = true := by
    decide +kernel
  obtain ⟨n, rfl⟩ : ∃ n : Fin 256, e = UInt8.ofNat n := ⟨e.toFin, by simp⟩
  have hn := hall n
  rw [h] at hn
  exact of_decide_eq_true hn

theorem head_of_shownText (h : shownText s = c :: text) (hc : c ≠ 92) :
    ∃ t, s = c :: t ∧ text = shownText t ∧ byteWeight c = 2 := by
  cases s with
  | nil => cases h
  | cons d s =>
    have hkind := shownAs_shownChar d
    rw [shownText_cons] at h
    generalize shownChar d = shown at h hkind
    cases hkind with
    | unchanged hrange =>
      obtain ⟨rfl, rfl⟩ := List.cons.inj h
      exact ⟨s, rfl, rfl, byteWeight_printable hrange⟩
    | named | hex | wrong => exact absurd (List.cons.inj h).1.symm hc

theorem ne_of_hexEscape {h l v : UInt8} (hv : hexEscape h l = some v) : h ≠ 92 ∧ l ≠ 92 := by
  constructor
  · rintro rfl
    cases hv
  · rintro rfl
    obtain ⟨high, -, hlow⟩ := Option.bind_eq_some_iff.mp hv
    cases hlow

theorem unescape_hex_some (h : unescape (92 :: 120 :: text) = some u) : ∃ h l v rest t,
    text = h :: l :: rest ∧ hexEscape h l = some v ∧ unescape rest = some t ∧ u = v :: t := by
  match text, h with
  | a :: b :: rest, hread =>
    rw [unescape_hex] at hread
    obtain ⟨v, hv, hrest⟩ := Option.bind_eq_some_iff.mp hread
    obtain ⟨t, ht, rfl⟩ := Option.map_eq_some_iff.mp hrest
    exact ⟨a, b, v, rest, t, rfl, hv, ht, rfl⟩

/-- A backslash in front of `\xHH` takes its backslash, and the rest is read as it stands. -/
theorem weight_of_taken {d h l : UInt8} (ih : ∀ t v, t.length < (d :: s).length →
      unescape (shownText t) = some v → weight v ≤ weight t)
    (hh : 33 ≤ h ∧ h ≤ 90) (hl : 33 ≤ l ∧ l ≤ 90)
    (hread : unescape (92 :: ([92, 120, h, l] ++ shownText s)) = some u) :
    weight u ≤ 8 + weight s := by
  have hprint : ∀ {e : UInt8}, 33 ≤ e ∧ e ≤ 90 → e ≠ 92 ∧ byteWeight e = 2 := fun he =>
    ⟨fun h => absurd (h ▸ he.2) (by decide), byteWeight_printable
      ⟨UInt8.le_trans (by decide) he.1, UInt8.le_trans he.2 (by decide)⟩⟩
  have hread' : unescape (92 :: 92 :: 120 :: h :: l :: shownText s) =
      ((((unescape (shownText s)).map (l :: ·)).map (h :: ·)).map (120 :: ·)).map (92 :: ·) := by
    rw [unescape_named (by decide), ← unescape_plain (hprint hl).1, ← unescape_plain (hprint hh).1,
      ← unescape_plain (by decide)]
    rfl
  obtain ⟨v, hv, rfl⟩ := Option.map_eq_some_iff.mp (hread'.symm.trans hread)
  obtain ⟨w, hw, rfl⟩ := Option.map_eq_some_iff.mp hv
  obtain ⟨x, hx, rfl⟩ := Option.map_eq_some_iff.mp hw
  obtain ⟨t, ht, rfl⟩ := Option.map_eq_some_iff.mp hx
  have hle := ih s t (by simp) ht
  have h92 : byteWeight 92 = 2 := by decide
  have h120 : byteWeight 120 = 2 := by decide
  simp only [weight_cons, (hprint hh).2, (hprint hl).2, h92, h120]
  omega

theorem weight_behind (ih : ∀ t v, t.length < s.length → unescape (shownText t) = some v →
    weight v ≤ weight t) (h : unescape (92 :: shownText s) = some u) : weight u < 2 + weight s := by
  cases s with
  | nil => cases h
  | cons d s =>
    have hkind := shownAs_shownChar d
    have hweight : byteWeight d = match (shownChar d).length with | 1 => 2 | 2 => 3 | _ => 7 := rfl
    rw [shownText_cons] at h
    generalize shownChar d = shown at h hkind hweight
    cases hkind with
    | unchanged hrange =>
      rw [List.singleton_append] at h
      by_cases hx : d = 120
      · subst hx
        obtain ⟨a, b, v, rest, t, htext, hv, ht, rfl⟩ := unescape_hex_some h
        obtain ⟨ha, hb⟩ := ne_of_hexEscape hv
        obtain ⟨s₁, rfl, htext₁, hwa⟩ := head_of_shownText htext ha
        obtain ⟨s₂, rfl, rfl, hwb⟩ := head_of_shownText htext₁.symm hb
        have hle := ih s₂ t (by simp only [List.length_cons]; omega) ht
        have := byteWeight_le v
        simp only [weight_cons, hwa, hwb, hweight, List.length_singleton]
        omega
      · rw [unescape_named hx] at h
        obtain ⟨v, hv, hrest⟩ := Option.bind_eq_some_iff.mp h
        obtain ⟨t, ht, rfl⟩ := Option.map_eq_some_iff.mp hrest
        have hle := ih s t (by simp) ht
        have := byteWeight_named hv
        simp only [weight_cons, hweight, List.length_singleton]
        omega
    | @named e hc hnamed he =>
      have hne : e ≠ 92 := fun h => absurd (h ▸ he.1) (by decide)
      have hw : byteWeight e = 2 := byteWeight_printable
        ⟨UInt8.le_trans (by decide) he.1, UInt8.le_trans he.2 (by decide)⟩
      have hread : unescape (92 :: 92 :: e :: shownText s) =
          ((unescape (shownText s)).map (e :: ·)).map (92 :: ·) := by
        rw [unescape_named (by decide), ← unescape_plain hne]
        rfl
      obtain ⟨v, hv, rfl⟩ := Option.map_eq_some_iff.mp (hread.symm.trans h)
      obtain ⟨t, ht, rfl⟩ := Option.map_eq_some_iff.mp hv
      have hle := ih s t (by simp) ht
      have h92 : byteWeight 92 = 2 := by decide
      simp only [weight_cons, hweight, hw, h92, List.length_cons, List.length_nil]
      omega
    | hex hc hhex hh hl =>
      have hle := weight_of_taken ih ⟨UInt8.le_trans (by decide) hh.1, hh.2⟩
        ⟨UInt8.le_trans (by decide) hl.1, hl.2⟩ h
      simp only [weight_cons, hweight, List.length_cons, List.length_nil]
      omega
    | wrong hc hhex hh hl =>
      have hle := weight_of_taken ih hh hl h
      simp only [weight_cons, hweight, List.length_cons, List.length_nil]
      omega

/-- **What is read weighs no more than what was written**, and less if there is a backslash. -/
theorem weight_of_unescape (h : unescape (shownText s) = some u) :
    weight u ≤ weight s ∧ (92 ∈ s → weight u < weight s) := by
  induction hn : s.length using Nat.strong_induction_on generalizing s u with
  | _ n ih =>
    cases s with
    | nil =>
      obtain rfl := Option.some.inj h
      exact ⟨Nat.le_refl _, fun hmem => absurd hmem List.not_mem_nil⟩
    | cons c s =>
      have hshort : ∀ t v, t.length < (c :: s).length → unescape (shownText t) = some v →
          weight v ≤ weight t ∧ (92 ∈ t → weight v < weight t) := fun t v hlt ht =>
        ih t.length (hn ▸ hlt) ht rfl
      by_cases hc : c = 92
      · subst hc
        have hless := weight_behind (fun t v hlt ht => (hshort t v
          (Nat.lt_trans hlt (Nat.lt_succ_self _)) ht).1) h
        have h92 : byteWeight 92 = 2 := by decide
        rw [weight_cons, h92]
        exact ⟨Nat.le_of_lt hless, fun _ => hless⟩
      · have hread := unescape_shownText_cons hc s
        rw [h] at hread
        split at hread
        · obtain ⟨t, ht, rfl⟩ := Option.map_eq_some_iff.mp hread.symm
          obtain ⟨hle, hlt⟩ := hshort s t (Nat.lt_succ_self _) ht
          rw [weight_cons, weight_cons]
          refine ⟨by omega, fun hmem => ?_⟩
          have := hlt ((List.mem_cons.mp hmem).resolve_left (Ne.symm hc))
          omega
        · cases hread

end Weight
section Unambiguous

variable {s u : Bytes}

theorem printable_shownChar {c d : UInt8} (h : d ∈ shownChar c) : 32 ≤ d ∧ d ≤ 126 := by
  have hkind := shownAs_shownChar c
  have hslash : (32 : UInt8) ≤ 92 ∧ (92 : UInt8) ≤ 126 := by decide
  have hwide : ∀ {e : UInt8}, 33 ≤ e ∧ e ≤ 90 → 32 ≤ e ∧ e ≤ 126 := fun he =>
    ⟨UInt8.le_trans (by decide) he.1, UInt8.le_trans he.2 (by decide)⟩
  have hdigits : ∀ {h l : UInt8}, 33 ≤ h ∧ h ≤ 90 → 33 ≤ l ∧ l ≤ 90 →
      ∀ e ∈ [92, 120, h, l], 32 ≤ e ∧ e ≤ 126 := fun hh hl =>
    List.forall_mem_cons.mpr ⟨hslash, List.forall_mem_cons.mpr ⟨by decide,
      List.forall_mem_cons.mpr ⟨hwide hh, List.forall_mem_singleton.mpr (hwide hl)⟩⟩⟩
  generalize shownChar c = text at h hkind
  cases hkind with
  | unchanged hrange => exact List.mem_singleton.mp h ▸ hrange
  | named _ _ he =>
    rcases List.mem_cons.mp h with rfl | h
    · exact hslash
    · rw [List.mem_singleton.mp h]
      exact ⟨UInt8.le_trans (by decide) he.1, UInt8.le_trans he.2 (by decide)⟩
  | hex _ _ hh hl =>
    exact hdigits ⟨UInt8.le_trans (by decide) hh.1, hh.2⟩
      ⟨UInt8.le_trans (by decide) hl.1, hl.2⟩ d h
  | wrong _ _ hh hl => exact hdigits hh hl d h

theorem printable_shownText {d : UInt8} (h : d ∈ shownText s) : 32 ≤ d ∧ d ≤ 126 := by
  obtain ⟨c, -, hd⟩ := List.mem_flatMap.mp h
  exact printable_shownChar hd

theorem quote_notMem_shownChar {c : UInt8} (hc : PlainByte c) : 34 ∉ shownChar c := by
  obtain ⟨hlt, hne, -⟩ := hc
  have hkind := shownAs_shownChar c
  intro h
  generalize shownChar c = text at h hkind
  cases hkind with
  | unchanged => exact hne (List.mem_singleton.mp h).symm
  | named _ _ he =>
    rcases List.mem_cons.mp h with h | h
    · cases h
    · exact absurd (List.mem_singleton.mp h ▸ he.1) (by decide)
  | hex _ _ hh hl =>
    rcases List.mem_cons.mp h with h | h
    · cases h
    rcases List.mem_cons.mp h with h | h
    · cases h
    rcases List.mem_cons.mp h with rfl | h
    · exact absurd hh.1 (by decide)
    · exact absurd (List.mem_singleton.mp h ▸ hl.1) (by decide)
  | wrong hge => exact absurd hlt (UInt8.not_lt.mpr hge)

theorem unescape_shownText (h : ∀ c ∈ s, PlainByte c) : unescape (shownText s) = some s := by
  induction s with
  | nil => rfl
  | cons c s ih =>
    obtain ⟨hlt, -, hne⟩ := h c List.mem_cons_self
    rw [unescape_shownText_cons hne, if_pos hlt, ih fun d hd => h d (List.mem_cons_of_mem c hd),
      Option.map_some]

theorem lt_of_unescape (hslash : 92 ∉ s) (h : unescape (shownText s) = some u) :
    ∀ c ∈ s, c < 128 := by
  induction s generalizing u with
  | nil => exact fun _ hc => absurd hc List.not_mem_nil
  | cons d s ih =>
    obtain ⟨hne, hslash⟩ := List.ne_and_not_mem_of_not_mem_cons hslash
    rw [unescape_shownText_cons (Ne.symm hne)] at h
    split at h
    · next hlt =>
      obtain ⟨t, ht, -⟩ := Option.map_eq_some_iff.mp h
      exact List.forall_mem_cons.mpr ⟨hlt, ih hslash ht⟩
    · cases h

theorem rtakeWhile_shownText (hslash : 92 ∉ s) : (shownText s).rtakeWhile (· == 92) = [] := by
  obtain rfl | ⟨init, c, rfl⟩ := s.eq_nil_or_concat
  · rfl
  · have hne : c ≠ 92 := fun h => hslash (by simp [h])
    have hkind := shownAs_shownChar c
    have hlast : ∀ (before : Bytes) {e : UInt8}, e ≠ 92 →
        (before ++ [e]).rtakeWhile (· == 92) = [] := fun before e he =>
      List.rtakeWhile_concat_neg _ _ _ (by simpa using he)
    have hsmall : ∀ {e : UInt8}, e ≤ 90 → e ≠ 92 := fun he h => absurd (h ▸ he) (by decide)
    rw [List.concat_eq_append, shownText_append, shownText_cons, shownText_nil, List.append_nil]
    generalize shownChar c = text at hkind
    cases hkind with
    | unchanged => exact hlast (shownText init) hne
    | @named e _ _ he =>
      have := hlast (shownText init ++ [92]) (e := e) fun h => absurd (h ▸ he.1) (by decide)
      rwa [List.append_assoc] at this
    | @hex h l _ _ _ hl | @wrong h l _ _ _ hl =>
      have := hlast (shownText init ++ [92, 120, h]) (hsmall hl.2)
      rwa [List.append_assoc] at this

/-- **When the text of a string is unambiguous**: it has no quote, no backslash and no byte from
128 on. -/
theorem unambiguous_iff (s : Bytes) : UnambiguousText s (shownText s) ↔ ∀ c ∈ s, PlainByte c := by
  constructor
  · intro h
    have hslash : 92 ∉ s := fun hmem => Nat.lt_irrefl _ ((weight_of_unescape h.undone).2 hmem)
    have hquote : 34 ∉ s := by
      intro hmem
      obtain ⟨before, behind, rfl⟩ := List.append_of_mem hmem
      have hodd := h.quotes (shownText before) (shownText behind)
        (by rw [shownText_append, shownText_cons]; rfl)
      rw [rtakeWhile_shownText fun hb => hslash (List.mem_append_left _ hb)] at hodd
      exact absurd hodd (by decide)
    intro c hc
    exact ⟨lt_of_unescape hslash h.undone c hc, fun he => hquote (he ▸ hc),
      fun he => hslash (he ▸ hc)⟩
  · intro h
    refine ⟨⟨fun c hc => printable_shownText hc, fun before behind htext => ?_⟩,
      unescape_shownText h⟩
    have hmem : 34 ∈ shownText s := htext ▸ List.mem_append_right _ List.mem_cons_self
    obtain ⟨c, hc, hin⟩ := List.mem_flatMap.mp hmem
    exact absurd hin (quote_notMem_shownChar (h c hc))

end Unambiguous

section Appended

variable [Malloc] {b dest str : Buffer} {s t : Bytes}

theorem shows_block (h : dest.Shows t) (block : Bytes) :
    (if block = [] then dest else bufferAppendStringLen dest (some block)).Shows (t ++ block) := by
  split
  · next hnil =>
    rw [hnil, List.append_nil]
    exact h
  · exact shows_bufferAppendStringLen h block

/-- By induction on what `ptr` has not reached yet. -/
theorem shows_appendEscapedLoop (block unread : Bytes) (h : dest.Shows t) :
    (appendEscapedLoop block unread dest).Shows (t ++ block ++ shownText unread) := by
  induction unread generalizing block dest t with
  | nil =>
    rw [shownText_nil, List.append_nil]
    exact shows_block h block
  | cons c unread ih =>
    unfold appendEscapedLoop
    rw [shownText_cons, shownChar]
    by_cases hc : isUnchanged c = true
    · rw [if_pos hc, if_pos hc]
      have := ih (block ++ [c]) h
      rwa [← List.append_assoc, List.append_assoc (t ++ block)] at this
    · rw [if_neg hc, if_neg hc]
      have := ih [] (shows_bufferAppendStringLen (shows_block h block) (escapedChar c))
      rwa [List.append_nil, List.append_assoc] at this

theorem shows_accesslogAppendEscaped (h : dest.Shows t) (str : Buffer) :
    (accesslogAppendEscaped dest str).Shows (t ++ shownText (str.ptr.take (str.used - 1))) := by
  unfold accesslogAppendEscaped
  split
  · next hu =>
    rw [hu]
    exact (List.append_nil t).symm ▸ h
  · have := shows_appendEscapedLoop [] (str.ptr.take (str.used - 1))
      (shows_bufferPrepareAppend h (str.used - 1))
    rwa [List.append_nil] at this

/-- The text that is appended for the string is one field, from which it is read back. -/
def EscapesAsSaid (s : Bytes) : Prop :=
  ∀ dest str t, dest.Shows t → str.Shows s → ∃ text,
    (accesslogAppendEscaped dest str).Shows (t ++ text) ∧ UnambiguousText s text

theorem escapesAsSaid_iff (s : Bytes) : EscapesAsSaid s ↔ ∀ c ∈ s, PlainByte c := by
  rw [← unambiguous_iff]
  constructor
  · intro h
    obtain ⟨text, hshows, hunamb⟩ := h (textBuffer []) (textBuffer s) []
      (.inl (text_textBuffer [])) (.inl (text_textBuffer s))
    have hcode := shows_accesslogAppendEscaped (.inl (text_textBuffer [])) (textBuffer s)
    rw [(Buffer.Shows.take (.inl (text_textBuffer s)))] at hcode
    exact List.append_cancel_left (hshows.unique hcode) ▸ hunamb
  · intro h dest str t hdest hstr
    have hcode := shows_accesslogAppendEscaped hdest str
    rw [hstr.take] at hcode
    exact ⟨_, hcode, h⟩

end Appended

/-! ## The line -/

/-- Where the text of a field is from: the server, a buffer of the request as it stands, or one
that is escaped. -/
inductive FieldSource where
  | server (text : Bytes)
  | copied (b : Buffer)
  | escaped (b : Buffer)

namespace FieldSource

def text : FieldSource → Bytes
  | server text => text
  | copied b => b.ptr.take (b.used - 1)
  | escaped b => shownText (b.ptr.take (b.used - 1))

def Kept : FieldSource → Prop
  | server _ => True
  | copied b => ClosedText (b.ptr.take (b.used - 1))
  | escaped b => UnambiguousText (b.ptr.take (b.used - 1)) (shownText (b.ptr.take (b.used - 1)))

def Harmless : FieldSource → Prop
  | server _ => True
  | copied b => ClosedText (b.ptr.take (b.used - 1))
  | escaped b => ∀ c ∈ b.ptr.take (b.used - 1), PlainByte c

theorem kept_iff (src : FieldSource) : src.Kept ↔ src.Harmless := by
  cases src with
  | server => exact Iff.rfl
  | copied => exact Iff.rfl
  | escaped b => exact unambiguous_iff _

def copiedOrDash (b : Buffer) : FieldSource :=
  if b.used > 1 then copied b else server (ascii "-")

def count (some' shown : Int) : FieldSource :=
  server (if some' > 0 then decimal shown else ascii "-")

end FieldSource

section Line

variable [Malloc]

def FieldSource.header (headers : Arr DataString) (string : Option Buffer) :
    Option FieldSource := do
  match ← arrayGetElement headers (← string).str with
  | some (_, ds) => some (escaped ds.value)
  | none => some (server (ascii "-"))

open FieldSource in
def fieldSource (srv : LoggingServer) (con : LoggedConnection) (stamp : Buffer) :
    FormatField → Option FieldSource
  | .string string => some (server (string.ptr.take (string.used - 1)))
  | .format .timestamp _ => some (server (stamp.ptr.take (stamp.used - 1)))
  | .format .remoteHost _ => some (server con.dstAddr)
  | .format .remoteIdent _ => some (server (ascii "-"))
  | .format .remoteUser _ => some (copiedOrDash con.authedUser)
  | .format .requestLine _ => some (escaped con.request.requestLine)
  | .format .status _ => some (server (decimal con.httpStatus))
  | .format .bytesOutNoHeader _ => some (count con.bytesWritten
      (if con.bytesWritten - con.bytesHeader ≤ 0 then 0 else con.bytesWritten - con.bytesHeader))
  | .format .header string => header con.request.headers string
  | .format .responseHeader string => header con.response.headers string
  | .format .env string => header con.environment string
  | .format .filename _ => some (copiedOrDash con.physicalPath)
  | .format .bytesOut _ => some (count con.bytesWritten con.bytesWritten)
  | .format .bytesIn _ => some (count con.bytesRead con.bytesRead)
  | .format .timeUsed _ => some (server (decimal (srv.curTs - con.requestStart)))
  | .format .serverName _ => some (copiedOrDash con.serverName)
  | .format .httpHost _ =>
    some (if con.uriAuthority.used > 1 then escaped con.uriAuthority else server (ascii "-"))
  | .format .requestProtocol _ =>
    some (server (if con.request.httpVersion = .v11 then ascii "HTTP/1.1" else ascii "HTTP/1.0"))
  | .format .requestMethod _ =>
    some (server ((getHttpMethodName con.request.httpMethod).getD []))
  | .format .percent _ => some (server (ascii "%"))
  | .format .serverPort _ =>
    some (server (match strrchr con.srvToken.str 58 with
      | some colon => con.srvToken.str.drop (colon + 1)
      | none => decimal srv.port))
  | .format .queryString _ => some (escaped con.uriQuery)
  | .format .url _ => some (escaped con.uriPathRaw)
  | .format .connectionStatus _ =>
    some (server (if con.keepAlive then ascii "+" else ascii "-"))
  | .format .unsupported _ => some (server [])

variable {srv : LoggingServer} {con : LoggedConnection} {p : AccesslogConfig} {stamp b : Buffer}
  {t : Bytes}

theorem shows_bufferAppendStringBuffer (h : b.Shows t) (src : Buffer) :
    (bufferAppendStringBuffer b src).Shows (t ++ src.ptr.take (src.used - 1)) := by
  unfold bufferAppendStringBuffer
  split
  · next hu =>
    rw [hu]
    exact (List.append_nil t).symm ▸ h
  · exact shows_bufferAppendStringLen h _

theorem shows_appendOrDash (h : b.Shows t) (str : Buffer) :
    (appendOrDash b str).Shows (t ++ (FieldSource.copiedOrDash str).text) := by
  unfold appendOrDash FieldSource.copiedOrDash
  split
  · exact shows_bufferAppendStringBuffer h str
  · exact shows_bufferAppendStringLen h _

theorem shows_appendCount (h : b.Shows t) (some' shown : Int) :
    (appendCount b some' shown).Shows (t ++ (FieldSource.count some' shown).text) := by
  unfold appendCount FieldSource.count
  split
  · exact .inl (text_bufferAppendLong_shows h shown)
  · exact shows_bufferAppendStringLen h _

theorem shows_appendHeader {src : FieldSource} {headers : Arr DataString} {string : Option Buffer}
    (h : b.Shows t) (hsrc : FieldSource.header headers string = some src) :
    ∃ b', appendHeader b headers string = some b' ∧ b'.Shows (t ++ src.text) := by
  unfold FieldSource.header at hsrc
  obtain ⟨name, rfl, hnamed⟩ := Option.bind_eq_some_iff.mp hsrc
  obtain ⟨found, hget, hfound⟩ := Option.bind_eq_some_iff.mp hnamed
  unfold appendHeader
  simp only [Option.bind_eq_bind, Option.bind_some, hget]
  cases found with
  | none =>
    obtain rfl := Option.some.inj hfound
    exact ⟨_, rfl, shows_bufferAppendStringLen h _⟩
  | some entry =>
    obtain rfl := Option.some.inj hfound
    exact ⟨_, rfl, shows_accesslogAppendEscaped h _⟩

theorem shows_appendFormat {src : FieldSource} {field : FormatType} {string : Option Buffer}
    (h : b.Shows t) (hsrc : fieldSource srv con stamp (.format field string) = some src) :
    ∃ b', appendFormat srv con stamp b field string = some b' ∧ b'.Shows (t ++ src.text) := by
  cases field with
  | header | responseHeader | env => exact shows_appendHeader h hsrc
  | timestamp =>
    obtain rfl := Option.some.inj hsrc
    exact ⟨_, rfl, shows_bufferAppendStringBuffer h _⟩
  | remoteHost =>
    obtain rfl := Option.some.inj hsrc
    exact ⟨_, rfl, shows_bufferAppendString h _⟩
  | remoteUser | filename | serverName =>
    obtain rfl := Option.some.inj hsrc
    exact ⟨_, rfl, shows_appendOrDash h _⟩
  | bytesOutNoHeader | bytesOut | bytesIn =>
    obtain rfl := Option.some.inj hsrc
    exact ⟨_, rfl, shows_appendCount h _ _⟩
  | remoteIdent | requestProtocol | percent | connectionStatus =>
    obtain rfl := Option.some.inj hsrc
    exact ⟨_, rfl, shows_bufferAppendStringLen h _⟩
  | status | timeUsed =>
    obtain rfl := Option.some.inj hsrc
    exact ⟨_, rfl, .inl (text_bufferAppendLong_shows h _)⟩
  | queryString | url =>
    obtain rfl := Option.some.inj hsrc
    exact ⟨_, rfl, shows_accesslogAppendEscaped h _⟩
  | unsupported =>
    obtain rfl := Option.some.inj hsrc
    exact ⟨_, rfl, (List.append_nil t).symm ▸ h⟩
  | requestLine =>
    obtain rfl := Option.some.inj hsrc
    refine ⟨_, rfl, ?_⟩
    have happend := shows_accesslogAppendEscaped h con.request.requestLine
    by_cases hu : con.request.requestLine.used = 0
    · rw [if_neg (not_not.mpr hu)]
      unfold accesslogAppendEscaped at happend
      rwa [if_pos hu] at happend
    · rw [if_pos hu]
      exact happend
  | httpHost =>
    obtain rfl := Option.some.inj hsrc
    refine ⟨_, rfl, ?_⟩
    split
    · exact shows_accesslogAppendEscaped h _
    · exact shows_bufferAppendStringLen h _
  | requestMethod =>
    obtain rfl := Option.some.inj hsrc
    refine ⟨_, rfl, ?_⟩
    simp only [FieldSource.text]
    cases getHttpMethodName con.request.httpMethod with
    | none => exact (List.append_nil t).symm ▸ h
    | some name => exact shows_bufferAppendString h name
  | serverPort =>
    obtain rfl := Option.some.inj hsrc
    refine ⟨_, rfl, ?_⟩
    simp only [FieldSource.text]
    cases strrchr con.srvToken.str 58 with
    | none => exact .inl (text_bufferAppendLong_shows h _)
    | some colon => exact shows_bufferAppendString h _

theorem shows_appendFields {fields : List FormatField} {sources : List FieldSource}
    (h : p.accessLogbuffer.Shows t)
    (hsources : fields.mapM (fieldSource srv con (stampOf srv p)) = some sources) :
    ∃ p', fields.foldlM (appendField srv con) p = some p' ∧
      p'.accessLogbuffer.Shows (t ++ (sources.map FieldSource.text).flatten) ∧
      p'.useSyslog = p.useSyslog ∧ p'.logAccessFd = p.logAccessFd := by
  induction fields generalizing p t sources with
  | nil =>
    obtain rfl := Option.some.inj hsources
    exact ⟨p, rfl, (List.append_nil t).symm ▸ h, rfl, rfl⟩
  | cons f fields ih =>
    rw [List.mapM_cons] at hsources
    obtain ⟨src, hsrc, hrest⟩ := Option.bind_eq_some_iff.mp hsources
    obtain ⟨rest, hsources', hlist⟩ := Option.bind_eq_some_iff.mp hrest
    obtain rfl := Option.some.inj hlist
    have hstep : ∃ q, appendField srv con p f = some q ∧
        q.accessLogbuffer.Shows (t ++ src.text) ∧ stampOf srv q = stampOf srv p ∧
        q.useSyslog = p.useSyslog ∧ q.logAccessFd = p.logAccessFd := by
      cases f with
      | string string =>
        obtain rfl := Option.some.inj hsrc
        exact ⟨_, rfl, shows_bufferAppendStringBuffer h string, rfl, rfl, rfl⟩
      | format field string =>
        obtain ⟨b', happend, hshows⟩ := shows_appendFormat h hsrc
        unfold appendField
        simp only [Option.bind_eq_bind, happend, Option.bind_some]
        by_cases hstamp : field = .timestamp
        · rw [if_pos hstamp]
          exact ⟨_, rfl, hshows, if_neg (not_not.mpr rfl), rfl, rfl⟩
        · rw [if_neg hstamp]
          exact ⟨_, rfl, hshows, rfl, rfl, rfl⟩
    obtain ⟨q, happend, hshows, hstamp, hsyslog, hfd⟩ := hstep
    obtain ⟨p', hrun, hshows', hsyslog', hfd'⟩ := ih hshows (hstamp ▸ hsources')
    refine ⟨p', ?_, ?_, hsyslog'.trans hsyslog, hfd'.trans hfd⟩
    · rw [List.foldlM_cons, happend]
      exact hrun
    · rw [List.map_cons, List.flatten_cons, ← List.append_assoc]
      exact hshows'

/-- What became of the line: it waits in the buffer, or it went out (but an empty one, which
`syslog` does not get). -/
def LineLogged (p : AccesslogConfig) (line : Bytes) : LogOutput → Prop
  | .none => p.accessLogbuffer.Text line ∨ line = ascii "\n"
  | .syslog b => b.Text line
  | .write b => b.Text line

/-- The fields are logged one after the other, and none of them is ended by the client. -/
structure LogsAsSaid (srv : LoggingServer) (con : LoggedConnection) (p : AccesslogConfig)
    (old : Bytes) (sources : List FieldSource) : Prop where
  logged : ∃ p' out, logAccessWrite srv con p = some (p', out) ∧
    LineLogged p' (old ++ (sources.map FieldSource.text).flatten ++ ascii "\n") out
  kept : ∀ src ∈ sources, src.Kept

omit [Malloc] in
theorem ascii_newline : ascii "\n" = [10] := by decide

theorem logAccessWrite_line {old : Bytes} {sources : List FieldSource}
    (hdevice : p.useSyslog = true ∨ p.logAccessFd ≠ -1) (hold : p.accessLogbuffer.Shows old)
    (hsources : p.parsedFormat.mapM (fieldSource srv con (stampOf srv p)) = some sources) :
    ∃ p' out, logAccessWrite srv con p = some (p', out) ∧
      LineLogged p' (old ++ (sources.map FieldSource.text).flatten ++ ascii "\n") out := by
  have hopen : ¬ (¬ p.useSyslog = true ∧ p.logAccessFd = -1) := fun h =>
    hdevice.elim h.1 fun hfd => hfd h.2
  have hstart : (if p.accessLogbuffer.used = 0 then
      bufferCopyStringLen p.accessLogbuffer (some []) else p.accessLogbuffer).Shows old := by
    rcases hold with htext | ⟨hused, rfl⟩
    · rw [if_neg (by rw [htext.used]; omega)]
      exact .inl htext
    · rw [if_pos hused]
      exact .inl (text_bufferCopyStringLen _ [])
  obtain ⟨q, hrun, hshows, hsyslog, hfd⟩ := shows_appendFields (p := { p with
    accessLogbuffer := if p.accessLogbuffer.used = 0 then
      bufferCopyStringLen p.accessLogbuffer (some []) else p.accessLogbuffer }) hstart hsources
  have hline := shows_bufferAppendStringLen hshows (ascii "\n")
  have htext := hline.resolve_right fun h =>
    absurd (List.append_eq_nil_iff.mp h.2).2 (by decide)
  unfold logAccessWrite
  rw [if_neg hopen]
  simp only [Option.bind_eq_bind, hrun, Option.bind_some]
  generalize bufferAppendStringLen q.accessLogbuffer (some (ascii "\n")) = b at htext
  split
  · refine ⟨_, _, rfl, ?_⟩
    split
    · split
      · exact htext
      · next hshort =>
        have hlen := htext.used
        rw [List.length_append, ascii_newline, List.length_singleton] at hlen
        have hnil : old ++ (sources.map FieldSource.text).flatten = [] :=
          List.length_eq_zero_iff.mp (by omega)
        exact Or.inr (by rw [hnil, List.nil_append])
    · next hfile =>
      have hwrite : q.logAccessFd ≠ -1 := by
        rw [hfd]
        exact hdevice.resolve_left (hsyslog ▸ hfile)
      rw [if_pos hwrite]
      exact htext
  · exact ⟨_, _, rfl, .inl htext⟩

theorem logsAsSaid_iff {old : Bytes} {sources : List FieldSource}
    (hdevice : p.useSyslog = true ∨ p.logAccessFd ≠ -1) (hold : p.accessLogbuffer.Shows old)
    (hsources : p.parsedFormat.mapM (fieldSource srv con (stampOf srv p)) = some sources) :
    LogsAsSaid srv con p old sources ↔ ∀ src ∈ sources, src.Harmless :=
  ⟨fun h src hsrc => (src.kept_iff).mp (h.kept src hsrc),
    fun h => ⟨logAccessWrite_line hdevice hold hsources, fun src hsrc =>
      (src.kept_iff).mpr (h src hsrc)⟩⟩

/-- **When one request makes one unambiguous field**: a string exactly if it has no quote, no
backslash and no byte from 128 on; a line exactly if that holds of the strings that are escaped,
and those that are not are closed as they stand. -/
theorem accesslogAppendEscaped_iff : (∀ s, EscapesAsSaid s ↔ ∀ c ∈ s, PlainByte c) ∧
    ∀ (srv : LoggingServer) (con : LoggedConnection) (p : AccesslogConfig) (old : Bytes)
      (sources : List FieldSource), (p.useSyslog = true ∨ p.logAccessFd ≠ -1) →
      p.accessLogbuffer.Shows old →
      p.parsedFormat.mapM (fieldSource srv con (stampOf srv p)) = some sources →
      (LogsAsSaid srv con p old sources ↔ ∀ src ∈ sources, src.Harmless) :=
  ⟨escapesAsSaid_iff, fun _ _ _ _ _ => logsAsSaid_iff⟩

end Line

/-- `mod_accesslog` with the format `%r` and one blank in front. -/
def requestLineLog : AccesslogConfig where
  accessLogfile := textBuffer (ascii "/var/log/access.log")
  useSyslog := false
  logAccessFd := 5
  lastGeneratedAccesslogTs := 0
  accessLogbuffer := bufferInit
  tsAccesslogStr := bufferInit
  tsAccesslogFmtStr := textBuffer (ascii "%s")
  appendTzOffset := false
  parsedFormat := [.string (textBuffer (ascii " ")), .format .requestLine none]

/-- A connection whose request line is `line`. -/
def loggedRequest (line : Bytes) : LoggedConnection where
  toConnection :=
    let con := connectionInit { mimetypes := arrayInit, allowHttp11 := true }
    { con with request := { con.request with requestLine := textBuffer line } }
  dstAddr := ascii "10.0.0.1"
  authedUser := bufferInit
  bytesWritten := 0
  bytesHeader := 0
  bytesRead := 0
  environment := arrayInit
  requestStart := 0
  serverName := bufferInit
  uriAuthority := bufferInit
  uriQuery := bufferInit
  uriPathRaw := bufferInit
  srvToken := textBuffer (ascii ":80")

def loggingServer : LoggingServer where
  curTs := 0
  port := 80
  strftime := fun fmt _ => fmt
  gmtoff := fun _ => 0

/-- A request line without special characters, and one with a quote. -/
theorem accesslogAppendEscaped_iff_line :
    (∀ s, @EscapesAsSaid zeroMalloc s ↔ ∀ c ∈ s, PlainByte c) ∧
    @LogsAsSaid zeroMalloc loggingServer (loggedRequest (ascii "GET / HTTP/1.0")) requestLineLog []
      [.server (ascii " "), .escaped (textBuffer (ascii "GET / HTTP/1.0"))] ∧
    ¬ @LogsAsSaid zeroMalloc loggingServer (loggedRequest (ascii "GET /\" HTTP/1.0")) requestLineLog
      [] [.server (ascii " "), .escaped (textBuffer (ascii "GET /\" HTTP/1.0"))] := by
  have hiff := @accesslogAppendEscaped_iff zeroMalloc
  have hlog := fun line => hiff.2 loggingServer (loggedRequest line) requestLineLog []
    [.server (ascii " "), .escaped (textBuffer line)] (.inr (by decide)) (.inr ⟨rfl, rfl⟩) rfl
  refine ⟨hiff.1, (hlog _).mpr ?_, fun h => ?_⟩
  · have hplain : ∀ c ∈ ascii "GET / HTTP/1.0", PlainByte c := by decide
    exact List.forall_mem_cons.mpr ⟨trivial, List.forall_mem_singleton.mpr hplain⟩
  · have hplain := (hlog _).mp h (.escaped (textBuffer (ascii "GET /\" HTTP/1.0")))
      (List.mem_cons_of_mem _ (List.mem_singleton.mpr rfl))
    exact absurd (hplain 34 (by decide)) (by decide)

/-- A quote is appended as it is. -/
theorem not_escapesAsSaid_quote : ¬ ∀ s, @EscapesAsSaid zeroMalloc s := fun h =>
  absurd ((@escapesAsSaid_iff zeroMalloc (ascii "a\" b")).mp (h _) 34 (by decide)) (by decide)

end Lighttpd

import Lighttpd.HttpAuth.Rules
import Lighttpd.Lib.Tokens
import Lighttpd.Request.Parse
import Lighttpd.UrlCoding

/-!
# `http_auth.c`: Digest logins

The fields of the header are found by a scanner that writes a NUL behind each value in a copy of the
text, so that a field is a pointer into this copy. The field `uri` goes into the hash as the client
sent it, and nothing compares it with the request.

`md5` is a parameter. For `auth-int`, 32 bytes are hashed from the empty literal on; `pastEmpty` are
those that stand behind it.
-/

namespace Lighttpd

open CLib

/-- `HASH` -/
abbrev Hash : Type := Vector UInt8 16

/-- `CvtHex` -/
def cvtHex (bin : Hash) : Bytes := bin.toList.flatMap hexPair

/-- `digest_kv`; the pointer is an address in the copy. -/
structure DigestKv where
  key : Bytes
  ptr : Option Nat
  deriving DecidableEq, Repr

/-- `dkv` -/
def digestKeys : List DigestKv :=
  [⟨ascii "username=", none⟩, ⟨ascii "realm=", none⟩, ⟨ascii "nonce=", none⟩,
    ⟨ascii "uri=", none⟩, ⟨ascii "algorithm=", none⟩, ⟨ascii "qop=", none⟩,
    ⟨ascii "cnonce=", none⟩, ⟨ascii "nc=", none⟩, ⟨ascii "response=", none⟩]

/-- The place of the closing quote, for a value that starts with a quote. -/
def closingQuote (value : Bytes) : Option Nat :=
  match value with
  | 34 :: rest => strchr rest 34
  | _ => none

/-- The loop over the keys at `c`, with the memory of the copy. It goes on behind a match, where `c`
stands at the end of the value. -/
def digestKeyLoop : List DigestKv → Bytes → Nat → Option (List DigestKv × Bytes × Nat)
  | [], m, c => some ([], m, c)
  | kv :: kvs, m, c => do
    let s ← strAt m c
    let len := kv.key.length
    if strneq len (s ++ [0]) kv.key then
      let value := s.drop len
      match closingQuote value, strchr value 44 with
      | some e, _ =>
        let e := c + len + 1 + e
        let (kvs, m, c') ← digestKeyLoop kvs (m.set e 0) e
        some ({ kv with ptr := some (c + len + 1) } :: kvs, m, c')
      | none, some e =>
        let e := c + len + e
        let (kvs, m, c') ← digestKeyLoop kvs (m.set e 0) e
        some ({ kv with ptr := some (c + len) } :: kvs, m, c')
      | none, none =>
        let (kvs, m, c') ← digestKeyLoop kvs m (c + s.length - 1)
        some ({ kv with ptr := some (c + len) } :: kvs, m, c')
    else
      let (kvs, m, c) ← digestKeyLoop kvs m c
      some (kv :: kvs, m, c)

def digestScan : Nat → List DigestKv → Bytes → Nat → Option (List DigestKv × Bytes)
  | 0, _, _, _ => none
  | fuel + 1, dkv, m, c => do
    let s ← strAt m c
    -- the text ends at `c`, or behind the blanks
    if s.dropWhile isBlank = [] then some (dkv, m)
    else
      let (dkv, m, c) ← digestKeyLoop dkv m (c + (s.takeWhile isBlank).length)
      digestScan fuel dkv m (c + 1)

/-- The strings at the pointers; `none` is `NULL`. -/
structure DigestFields where
  username : Option Bytes
  realm : Option Bytes
  nonce : Option Bytes
  uri : Option Bytes
  algorithm : Option Bytes
  qop : Option Bytes
  cnonce : Option Bytes
  nc : Option Bytes
  response : Option Bytes
  deriving DecidableEq, Repr

def digestField (dkv : List DigestKv) (m : Bytes) (key : Bytes) : Option Bytes := do
  let kv ← dkv.find? (·.key == key)
  let p ← kv.ptr
  some (cstr (m.drop p))

def digestFields (dkv : List DigestKv) (m : Bytes) : DigestFields where
  username := digestField dkv m (ascii "username=")
  realm := digestField dkv m (ascii "realm=")
  nonce := digestField dkv m (ascii "nonce=")
  uri := digestField dkv m (ascii "uri=")
  algorithm := digestField dkv m (ascii "algorithm=")
  qop := digestField dkv m (ascii "qop=")
  cnonce := digestField dkv m (ascii "cnonce=")
  nc := digestField dkv m (ascii "nc=")
  response := digestField dkv m (ascii "response=")

/-- `algorithm && 0 == strcasecmp(algorithm, "md5-sess")` -/
def DigestFields.isMd5Sess (f : DigestFields) : Bool :=
  f.algorithm.any (strcaseeq · (ascii "md5-sess"))

/-- 32 hexadecimal digits as 16 bytes; a read outside the block has no value. -/
def hashOfHex (p : Bytes) : Option Hash :=
  if h : 32 ≤ p.length then
    some (Vector.ofFn fun i : Fin 16 =>
      (hex2int (p.get ⟨2 * i.val, by omega⟩) <<< 4) |||
        hex2int (p.get ⟨2 * i.val + 1, by omega⟩))
  else none

section Operations

variable [Malloc] (md5 : Bytes → Hash) (pastEmpty : Vector UInt8 31)
  (files : Bytes → Option Bytes) (conf : ModAuthPluginConfig) (con : Connection) (url : Buffer)

/-- `HA1`, before `md5-sess`. -/
def digestHa1 (username realm : Bytes) (password : Buffer) : Option Hash :=
  if conf.authBackend = .plain then
    some (md5 (username ++ 58 :: (realm ++ 58 :: password.ptr.take (password.used - 1))))
  else hashOfHex password.ptr

/-- The string `a2` that the response is compared with. -/
def digestExpected (f : DigestFields) (username realm nonce uri : Bytes) (password : Buffer) :
    Option Bytes := do
  let method ← getHttpMethodName con.request.httpMethod
  let ha1 ← digestHa1 md5 conf username realm password
  let ha1 ←
    if f.isMd5Sess then f.cnonce.map fun cnonce => md5 (ha1.toList ++ 58 :: (nonce ++ 58 :: cnonce))
    else some ha1
  let body :=
    if f.qop.any (strcaseeq · (ascii "auth-int")) then 58 :: 0 :: pastEmpty.toList else []
  let ha2 := md5 (method ++ 58 :: (uri ++ body))
  let middle ←
    match f.qop with
    | none => some []
    | some [] => some []
    | some qop => do
      let nc ← f.nc
      let cnonce ← f.cnonce
      some (nc ++ 58 :: (cnonce ++ 58 :: (qop ++ [58])))
  some (cvtHex (md5 (cvtHex ha1 ++ 58 :: (nonce ++ 58 :: (middle ++ cvtHex ha2)))))

/-- `http_auth_digest_check` behind the scanner. -/
def digestAnswer (f : DigestFields) (authUser : Buffer) : Option (Int × Buffer) :=
  match f.username, f.realm, f.nonce, f.uri, f.response with
  | some username, some realm, some nonce, some uri, some respons =>
    if f.qop.isSome = true ∧ (f.nc = none ∨ f.cnonce = none) then some (-1, authUser)
    else if f.isMd5Sess = true ∧ f.cnonce = none then some (-1, authUser)
    else do
      let usernameBuf := bufferCopyString bufferInit (some username)
      let realmBuf := bufferCopyString bufferInit (some realm)
      let (ret, password) ← httpAuthGetPassword files conf usernameBuf realmBuf bufferInit
      if ret ≠ 0 then some (0, authUser)
      else
        let a2 ← digestExpected md5 pastEmpty conf con f username realm nonce uri password
        if a2 ≠ respons then some (0, authUser)
        else
          let ret ← httpAuthMatchRules conf.authRequire url.str (some username)
          if ret ≠ 0 then some (0, authUser)
          else some (1, bufferCopyString authUser (some username))
  | _, _, _, _, _ => some (-1, authUser)

/-- `realmStr` is the text behind `Digest`, and `authUser` is `p->auth_user`. -/
def httpAuthDigestCheck (realmStr : Bytes) (authUser : Buffer) : Option (Int × Buffer) :=
  if conf.authBackend ≠ .htdigest ∧ conf.authBackend ≠ .plain then some (-1, authUser)
  else do
    let b := bufferCopyString bufferInit (some realmStr)
    let (dkv, m) ← digestScan (realmStr.length + 1) digestKeys b.ptr 0
    digestAnswer md5 pastEmpty files conf con url (digestFields dkv m) authUser

end Operations

/-! ## The pointers -/

/-- What holds of the copy and the pointers into it. `n` is the length of the text. -/
structure DigestInside (n : Nat) (dkv : List DigestKv) (m : Bytes) : Prop where
  terminator : m[n]? = some 0
  keys : ∀ kv ∈ dkv, kv.key ≠ [] ∧ IsCStr kv.key
  pointers : ∀ kv ∈ dkv, ∀ p, kv.ptr = some p → p ≤ n

variable {n c : Nat} {dkv : List DigestKv} {m : Bytes}

theorem DigestInside.cons_iff {kv : DigestKv} {kvs : List DigestKv} :
    DigestInside n (kv :: kvs) m ↔
      DigestInside n kvs m ∧ (kv.key ≠ [] ∧ IsCStr kv.key) ∧ ∀ p, kv.ptr = some p → p ≤ n := by
  constructor
  · intro h
    obtain ⟨hkey, hkeys⟩ := List.forall_mem_cons.mp h.keys
    obtain ⟨hptr, hptrs⟩ := List.forall_mem_cons.mp h.pointers
    exact ⟨⟨h.terminator, hkeys, hptrs⟩, hkey, hptr⟩
  · rintro ⟨h, hkey, hptr⟩
    exact ⟨h.terminator, List.forall_mem_cons.mpr ⟨hkey, h.keys⟩,
      List.forall_mem_cons.mpr ⟨hptr, h.pointers⟩⟩

theorem DigestInside.set (h : DigestInside n dkv m) {e : Nat} (he : e < n) :
    DigestInside n dkv (m.set e 0) where
  terminator := by rw [List.getElem?_set_ne (by omega), h.terminator]
  keys := h.keys
  pointers := h.pointers

theorem exists_strAt (hm : m[n]? = some 0) (hc : c ≤ n) :
    ∃ s, strAt m c = some s ∧ c + s.length ≤ n ∧ IsCStr s := by
  have hzero : (m.drop c)[n - c]? = some 0 := by
    rw [List.getElem?_drop, Nat.add_sub_cancel' hc, hm]
  have hlength := length_cstr_le hzero
  exact ⟨cstr (m.drop c), if_pos (List.mem_of_getElem? hzero), by omega, isCStr_cstr _⟩

theorem closingQuote_lt {value : Bytes} {e : Nat} (h : closingQuote value = some e) :
    e + 1 < value.length := by
  unfold closingQuote at h
  split at h
  · exact Nat.succ_lt_succ (strchr_lt h)
  · nomatch h

theorem digestKeyLoop_inside (h : DigestInside n dkv m) (hc : c < n) : ∃ dkv' m' c',
    digestKeyLoop dkv m c = some (dkv', m', c') ∧ DigestInside n dkv' m' ∧ c ≤ c' ∧ c' < n := by
  induction dkv generalizing m c with
  | nil => exact ⟨[], m, c, rfl, h, Nat.le_refl c, hc⟩
  | cons kv kvs ih =>
    obtain ⟨hkvs, ⟨hne, hcstr⟩, hptr⟩ := DigestInside.cons_iff.mp h
    obtain ⟨s, hs, hsn, -⟩ := exists_strAt h.terminator (Nat.le_of_lt hc)
    have hpos : 0 < kv.key.length := List.length_pos_iff.mpr hne
    unfold digestKeyLoop
    rw [hs]
    simp only [Option.bind_eq_bind, Option.bind_some]
    by_cases hmatch : strneq kv.key.length (s ++ [0]) kv.key = true
    · have hlen : kv.key.length ≤ s.length := ((strneq_front hcstr s []).mp hmatch).length_le
      rw [if_pos hmatch]
      split
      · next e hquote =>
        have he := closingQuote_lt hquote
        rw [List.length_drop] at he
        have hin : c + kv.key.length + 1 + e < n := by omega
        obtain ⟨kvs', m', c', hrun, hinside, hle, hlt⟩ := ih (hkvs.set hin) hin
        rw [hrun]
        refine ⟨_, m', c', rfl, ?_, by omega, hlt⟩
        refine DigestInside.cons_iff.mpr ⟨hinside, ⟨hne, hcstr⟩, ?_⟩
        rintro p ⟨⟩
        omega
      · next e hquote hcomma =>
        have he := strchr_lt hcomma
        rw [List.length_drop] at he
        have hin : c + kv.key.length + e < n := by omega
        obtain ⟨kvs', m', c', hrun, hinside, hle, hlt⟩ := ih (hkvs.set hin) hin
        rw [hrun]
        refine ⟨_, m', c', rfl, ?_, by omega, hlt⟩
        refine DigestInside.cons_iff.mpr ⟨hinside, ⟨hne, hcstr⟩, ?_⟩
        rintro p ⟨⟩
        omega
      · obtain ⟨kvs', m', c', hrun, hinside, hle, hlt⟩ :=
          ih hkvs (show c + s.length - 1 < n by omega)
        rw [hrun]
        refine ⟨_, m', c', rfl, ?_, by omega, hlt⟩
        refine DigestInside.cons_iff.mpr ⟨hinside, ⟨hne, hcstr⟩, ?_⟩
        rintro p ⟨⟩
        omega
    · obtain ⟨kvs', m', c', hrun, hinside, hle, hlt⟩ := ih hkvs hc
      rw [if_neg hmatch, hrun]
      exact ⟨_, _, _, rfl, DigestInside.cons_iff.mpr ⟨hinside, ⟨hne, hcstr⟩, hptr⟩, hle, hlt⟩

theorem digestScan_inside {fuel : Nat} (h : DigestInside n dkv m) (hc : c ≤ n)
    (hfuel : n - c < fuel) :
    ∃ dkv' m', digestScan fuel dkv m c = some (dkv', m') ∧ DigestInside n dkv' m' := by
  induction fuel generalizing dkv m c with
  | zero => omega
  | succ fuel ih =>
    obtain ⟨s, hs, hsn, -⟩ := exists_strAt h.terminator hc
    unfold digestScan
    rw [hs]
    simp only [Option.bind_eq_bind, Option.bind_some]
    by_cases hend : s.dropWhile isBlank = []
    · rw [if_pos hend]
      exact ⟨dkv, m, rfl, h⟩
    · have hparts := congrArg List.length (List.takeWhile_append_dropWhile (p := isBlank) (l := s))
      have hpos := List.length_pos_iff.mpr hend
      rw [List.length_append] at hparts
      obtain ⟨dkv', m', c', hrun, hinside, hle, hlt⟩ :=
        digestKeyLoop_inside h (show c + (s.takeWhile isBlank).length < n by omega)
      rw [if_neg hend, hrun]
      dsimp only [Option.bind_some]
      exact ih hinside (Nat.succ_le_of_lt hlt) (by omega)

theorem digestInside_init [Malloc] (realmStr : Bytes) : DigestInside realmStr.length digestKeys
    (bufferCopyString bufferInit (some realmStr)).ptr where
  terminator := by
    have htext := text_bufferCopyString bufferInit realmStr
    have htake : (bufferCopyString bufferInit (some realmStr)).ptr.take (realmStr.length + 1) =
        realmStr ++ [0] := htext.holds
    rw [← List.getElem?_take_of_lt (Nat.lt_succ_self _), htake, List.getElem?_concat_length]
  keys := by decide
  pointers := by
    intro kv hkv p hp
    have hnone : ∀ kv ∈ digestKeys, kv.ptr = none := by decide
    rw [hnone kv hkv] at hp
    nomatch hp

section Answers

variable [Malloc] (md5 : Bytes → Hash) (pastEmpty : Vector UInt8 31)
  (files : Bytes → Option Bytes) (conf : ModAuthPluginConfig) (con : Connection) (url : Buffer)

def digestFieldsOf (realmStr : Bytes) : Option DigestFields :=
  let b := bufferCopyString bufferInit (some realmStr)
  (digestScan (realmStr.length + 1) digestKeys b.ptr 0).map fun r => digestFields r.1 r.2

/-- The fields are the right answer to themselves: nothing is missing, the user has a password, the
response is the hash over them and the method, and the rules let the user in. -/
def CorrectAnswer (f : DigestFields) : Prop :=
  ∃ username realm nonce uri respons password,
    (conf.authBackend = .htdigest ∨ conf.authBackend = .plain) ∧
    f.username = some username ∧ f.realm = some realm ∧ f.nonce = some nonce ∧
    f.uri = some uri ∧ f.response = some respons ∧
    (f.qop.isSome = true → f.nc ≠ none ∧ f.cnonce ≠ none) ∧
    (f.isMd5Sess = true → f.cnonce ≠ none) ∧
    httpAuthGetPassword files conf (bufferCopyString bufferInit (some username))
      (bufferCopyString bufferInit (some realm)) bufferInit = some (0, password) ∧
    digestExpected md5 pastEmpty conf con f username realm nonce uri password = some respons ∧
    httpAuthMatchRules conf.authRequire url.str (some username) = some 0

/-- A login that is accepted is one for the resource that is asked for, and the fields that are used
are strings inside the copy. -/
structure BindsRequest (realmStr : Bytes) (authUser : Buffer) : Prop where
  inside : ∃ dkv m, digestScan (realmStr.length + 1) digestKeys
      (bufferCopyString bufferInit (some realmStr)).ptr 0 = some (dkv, m) ∧
    ∀ kv ∈ dkv, ∀ p, kv.ptr = some p →
      p ≤ realmStr.length ∧ ∃ k, p ≤ k ∧ k ≤ realmStr.length ∧ m[k]? = some 0
  uri : ∀ authUser', httpAuthDigestCheck md5 pastEmpty files conf con url realmStr authUser =
      some (1, authUser') →
    ∃ f, digestFieldsOf realmStr = some f ∧ f.uri = some con.request.origUri.str

variable {md5 pastEmpty files conf con url} {realmStr : Bytes} {authUser : Buffer}
  {f : DigestFields}

theorem digestAnswer_accepts
    (hbackend : conf.authBackend = .htdigest ∨ conf.authBackend = .plain) :
    (∃ authUser', digestAnswer md5 pastEmpty files conf con url f authUser = some (1, authUser')) ↔
      CorrectAnswer md5 pastEmpty files conf con url f := by
  constructor
  · rintro ⟨authUser', haccept⟩
    unfold digestAnswer at haccept
    split at haccept
    · next username realm nonce uri respons huser hrealm hnonce huri hrespons =>
      split at haccept
      · simp at haccept
      next hqop =>
      split at haccept
      · simp at haccept
      next hsess =>
      simp only [Option.bind_eq_bind, Option.bind_eq_some_iff] at haccept
      obtain ⟨⟨ret, password⟩, hpassword, haccept⟩ := haccept
      split at haccept
      · simp at haccept
      next hret =>
      obtain rfl : ret = 0 := not_not.mp hret
      rw [Option.bind_eq_some_iff] at haccept
      obtain ⟨a2, ha2, haccept⟩ := haccept
      split at haccept
      · simp at haccept
      next hsame =>
      obtain rfl : a2 = respons := not_not.mp hsame
      rw [Option.bind_eq_some_iff] at haccept
      obtain ⟨rules, hrules, haccept⟩ := haccept
      split at haccept
      · simp at haccept
      next hmet =>
      obtain rfl : rules = 0 := not_not.mp hmet
      exact ⟨username, realm, nonce, uri, a2, password, hbackend, huser, hrealm, hnonce, huri,
        hrespons, fun hq => not_or.mp fun hno => hqop ⟨hq, hno⟩,
        fun hs hno => hsess ⟨hs, hno⟩, hpassword, ha2, hrules⟩
    · simp at haccept
  · rintro ⟨username, realm, nonce, uri, respons, password, -, huser, hrealm, hnonce, huri,
      hrespons, hqop, hsess, hpassword, ha2, hrules⟩
    refine ⟨bufferCopyString authUser (some username), ?_⟩
    have hqop' : ¬ (f.qop.isSome = true ∧ (f.nc = none ∨ f.cnonce = none)) :=
      fun h => h.2.elim (hqop h.1).1 (hqop h.1).2
    have hsess' : ¬ (f.isMd5Sess = true ∧ f.cnonce = none) := fun h => hsess h.1 h.2
    unfold digestAnswer
    rw [huser, hrealm, hnonce, huri, hrespons]
    dsimp only
    rw [if_neg hqop', if_neg hsess', hpassword]
    simp only [Option.bind_eq_bind, Option.bind_some, ne_eq, not_true_eq_false, if_false, ha2,
      hrules]

theorem httpAuthDigestCheck_accepts (hfields : digestFieldsOf realmStr = some f) :
    (∃ authUser', httpAuthDigestCheck md5 pastEmpty files conf con url realmStr authUser =
      some (1, authUser')) ↔ CorrectAnswer md5 pastEmpty files conf con url f := by
  obtain ⟨⟨dkv, m⟩, hscan, rfl⟩ := Option.map_eq_some_iff.mp hfields
  unfold httpAuthDigestCheck
  by_cases hbackend : conf.authBackend ≠ .htdigest ∧ conf.authBackend ≠ .plain
  · rw [if_pos hbackend]
    constructor
    · rintro ⟨authUser', haccept⟩
      simp at haccept
    · rintro ⟨-, -, -, -, -, -, hcorrect, -⟩
      exact absurd hcorrect (not_or.mpr hbackend)
  · rw [if_neg hbackend]
    simp only [Option.bind_eq_bind, hscan, Option.bind_some]
    refine digestAnswer_accepts ?_
    by_cases hhtdigest : conf.authBackend = .htdigest
    · exact Or.inl hhtdigest
    · exact Or.inr (not_not.mp fun hplain => hbackend ⟨hhtdigest, hplain⟩)

/-- **A Digest login is bound to the request** exactly if it is not a right answer for another
resource: that of the field `uri` and that of the request are never compared. -/
theorem bindsRequest_iff : BindsRequest md5 pastEmpty files conf con url realmStr authUser ↔
    ∀ f, digestFieldsOf realmStr = some f → CorrectAnswer md5 pastEmpty files conf con url f →
      f.uri = some con.request.origUri.str := by
  constructor
  · intro hbinds f hfields hcorrect
    obtain ⟨authUser', haccept⟩ := (httpAuthDigestCheck_accepts hfields).mpr hcorrect
    obtain ⟨f', hfields', huri⟩ := hbinds.uri authUser' haccept
    rw [hfields] at hfields'
    exact Option.some.inj hfields' ▸ huri
  · intro hcorrect
    obtain ⟨dkv, m, hscan, hinside⟩ :=
      digestScan_inside (digestInside_init realmStr) (Nat.zero_le _)
        (show realmStr.length - 0 < realmStr.length + 1 by omega)
    have hfields : digestFieldsOf realmStr = some (digestFields dkv m) := by
      unfold digestFieldsOf
      dsimp only
      rw [hscan]
      rfl
    refine ⟨⟨dkv, m, hscan, fun kv hkv p hp => ?_⟩, fun authUser' haccept => ?_⟩
    · have hp := hinside.pointers kv hkv p hp
      exact ⟨hp, realmStr.length, hp, Nat.le_refl _, hinside.terminator⟩
    · have hright := (httpAuthDigestCheck_accepts hfields).mp ⟨authUser', haccept⟩
      exact ⟨_, hfields, hcorrect _ hfields hright⟩

end Answers

/-! ## A response for another resource -/

def md5OfPublic (s : Bytes) : Hash :=
  if s = ascii "jan:r:secret" then
    #v[166, 8, 203, 93, 113, 64, 91, 141, 159, 75, 241, 188, 254, 73, 251, 111]
  else if s = ascii "GET:/public" then
    #v[77, 177, 4, 91, 133, 193, 206, 96, 226, 133, 162, 230, 191, 147, 42, 75]
  else
    #v[200, 73, 216, 133, 102, 223, 132, 206, 139, 176, 38, 113, 128, 224, 239, 252]

def janConf : ModAuthPluginConfig where
  authRequire := siteRequire [.validUser]
  authPlainUserfile := textBuffer (ascii "/users")
  authHtdigestUserfile := bufferInit
  authHtpasswdUserfile := bufferInit
  authBackend := .plain

def janFiles (_ : Bytes) : Option Bytes := some (ascii "jan:secret\n")

/-- A request for `/private`. -/
def privateRequest : Connection :=
  (connectionInit ⟨arrayInit, true⟩).mapRequest fun r =>
    { r with httpMethod := .get, origUri := textBuffer (ascii "/private") }

/-- The answer that a client gave for `/public`. -/
def publicAnswer : Bytes :=
  ascii "username=\"jan\", realm=\"r\", nonce=\"n\", uri=\"/public\"," ++
    ascii " response=\"c849d88566df84ce8bb0267180e0effc\""

theorem httpAuthDigestCheck_public :
    (@httpAuthDigestCheck zeroMalloc md5OfPublic (Vector.replicate 31 0) janFiles janConf
      privateRequest (textBuffer (ascii "/private")) publicAnswer bufferInit).map Prod.fst =
        some 1 := by
  decide +kernel

/-- It is accepted for another resource. -/
theorem not_bindsRequest_public :
    ¬ @BindsRequest zeroMalloc md5OfPublic (Vector.replicate 31 0) janFiles janConf privateRequest
      (textBuffer (ascii "/private")) publicAnswer bufferInit := by
  intro hbinds
  obtain ⟨⟨ret, authUser'⟩, hcheck, rfl⟩ := Option.map_eq_some_iff.mp httpAuthDigestCheck_public
  obtain ⟨f, hfields, huri⟩ := @BindsRequest.uri zeroMalloc _ _ _ _ _ _ _ _ hbinds authUser' hcheck
  have hparsed : (@digestFieldsOf zeroMalloc publicAnswer).bind DigestFields.uri =
      some (ascii "/public") := by decide +kernel
  rw [hfields, Option.bind_some, huri] at hparsed
  exact absurd hparsed (by decide)

end Lighttpd

import Lighttpd.Caseless
import Lighttpd.Fastcgi.Accounting
import Lighttpd.Fastcgi.Framing
import Lighttpd.Lib.NameValue
import Lighttpd.Request.HostGrammar

/-!
# The environment of a FastCGI request

`fcgi_env_add` writes name-value pairs, and refuses those that are too long for the record. So the
environment reads as the pairs of the calls that were not refused. A field of the request is a
variable under a name of its own: `CONTENT_TYPE`, or one that begins with `HTTP_`.
-/

namespace Lighttpd

open CLib

/-! ## `fcgi_env_add_request_headers` -/

def envNameChar (c : UInt8) : UInt8 :=
  if lightIsalpha c then c &&& ~~~32 else if lightIsdigit c then c else 95

section Code

variable [Malloc]

def appendEnvName (b key : Buffer) : Buffer :=
  let b := bufferPrepareAppend b (key.used + 2)
  let name := (key.ptr.take (key.used - 1)).map envNameChar
  { b with ptr := memcpy b.ptr b.used (name ++ [0]), used := b.used + (name.length + 1) }

/-- The name of the variable for a field of the request, in `srv->tmp_buf`. -/
def headerVarName (tmpBuf key : Buffer) : Buffer :=
  let b := bufferReset tmpBuf
  let b :=
    if strcasecmpEq key.str (ascii "CONTENT-TYPE") then b
    else
      let b := bufferCopyStringLen b (some (ascii "HTTP_"))
      { b with used := b.used - 1 }
  appendEnvName b key

/-- The name of the variable for an element of `con->environment`. -/
def environmentVarName (tmpBuf key : Buffer) : Buffer := appendEnvName (bufferReset tmpBuf) key

/-- `CONST_BUF_LEN`, for a buffer with a string. -/
def constBuf (b : Buffer) : Bytes := b.ptr.take (b.used - 1)

/-- A loop over elements, `varName` being the name of the variable: the result, and the connection
and the environment behind it. -/
def fcgiEnvAddElements (varName : Buffer → Buffer → Buffer) :
    List DataString → BackendConnection → Buffer → Int × BackendConnection × Buffer
  | [], con, env => (0, con, env)
  | ds :: elements, con, env =>
    if ds.value.used ≠ 0 ∧ ds.key.used ≠ 0 then
      let con := { con with tmpBuf := varName con.tmpBuf ds.key }
      match fcgiEnvAdd env (some (constBuf con.tmpBuf)) (some (constBuf ds.value)) with
      | some env => fcgiEnvAddElements varName elements con env
      | none => (-1, { con with httpStatus := 400, fileFinished := true }, env)
    else fcgiEnvAddElements varName elements con env

/-- `environment` is `con->environment`. -/
def fcgiEnvAddRequestHeaders (environment : Arr DataString) (con : BackendConnection)
    (env : Buffer) : Int × BackendConnection × Buffer :=
  match fcgiEnvAddElements headerVarName con.request.headers.elements con env with
  | (0, con, env) => fcgiEnvAddElements environmentVarName environment.elements con env
  | failed => failed

/-! ## Calls of `fcgi_env_add` -/

/-- The arguments of a call; `none` is `NULL`. -/
abbrev EnvCall := Option Bytes × Option Bytes

def EnvCall.run (call : EnvCall) (env : Buffer) : Int × Buffer :=
  match fcgiEnvAdd env call.1 call.2 with
  | some env => (0, env)
  | none => (-1, env)

/-- Calls, one after the other: their results, and the environment behind them. -/
def runEnvCalls : List EnvCall → Buffer → List Int × Buffer
  | [], env => ([], env)
  | call :: calls, env =>
    let (result, env) := call.run env
    let (results, env) := runEnvCalls calls env
    (result :: results, env)

end Code

def acceptedPairs : List EnvCall → List Int → List (Bytes × Bytes)
  | (some key, some val) :: calls, result :: results =>
    if result = 0 then (key, val) :: acceptedPairs calls results else acceptedPairs calls results
  | _ :: calls, _ :: results => acceptedPairs calls results
  | _, _ => []

/-! ## What the environment holds -/

structure EnvHolds (env : Buffer) (pairs : List (Bytes × Bytes)) : Prop where
  wf : env.WF
  short : env.used < FCGI_MAX_LENGTH
  bytes : env.bytes = pairs.flatMap pairField
  fits : ∀ p ∈ pairs, PairFits p

section Pairs

variable [Malloc] {env env' : Buffer} {pairs : List (Bytes × Bytes)}

omit [Malloc] in
theorem EnvHolds.reads (h : EnvHolds env pairs) : readPairs env.bytes = some pairs := by
  rw [h.bytes]
  exact readPairs_flatMap h.fits

omit [Malloc] in
theorem envHolds_empty (hempty : env.used = 0) : EnvHolds env [] := by
  refine ⟨wf_of_used_zero hempty, ?_, ?_, ?_⟩
  · rw [hempty]
    decide
  · unfold Buffer.bytes
    rw [hempty]
    rfl
  · intro p hp
    nomatch hp

omit [Malloc] in
theorem fcgiEnvLength_eq {n : Nat} (hn : n < 2 ^ 31) : fcgiEnvLength n = lengthField n := by
  unfold fcgiEnvLength lengthField
  by_cases hlong : n > 127
  · have hhigh : ∀ x : Fin 128, UInt8.ofNat x.val ||| 0x80 = UInt8.ofNat (x.val + 128) := by
      decide +kernel
    have hbyte : ∀ x : Nat, UInt8.ofNat (x &&& 0xff) = UInt8.ofNat x := by
      intro x
      rw [show (0xff : Nat) = 2 ^ 8 - 1 from rfl, Nat.and_two_pow_sub_one_eq_mod]
      exact UInt8.toNat_inj.mp (by simp)
    have hfirst := hhigh ⟨n / 2 ^ 24, by omega⟩
    rw [if_pos hlong, if_neg (by omega), hbyte, hbyte, hbyte, hbyte, Nat.shiftRight_eq_div_pow,
      Nat.shiftRight_eq_div_pow, Nat.shiftRight_eq_div_pow, hfirst]
  · rw [if_neg hlong, if_pos (by omega)]

/-- **A pair that is not refused is behind the others.** -/
theorem EnvHolds.add (h : EnvHolds env pairs) {key val : Bytes}
    (hadd : fcgiEnvAdd env (some key) (some val) = some env') :
    EnvHolds env' (pairs ++ [(key, val)]) := by
  obtain ⟨hwf, hshort⟩ := fcgiEnvAdd_spec h.wf hadd
  unfold fcgiEnvAdd at hadd
  dsimp only at hadd
  generalize hlen : key.length + val.length + (if key.length > 127 then 4 else 1) +
    (if val.length > 127 then 4 else 1) = len at hadd
  obtain ⟨hused, hsize, htake⟩ := bufferPrepareAppend_spec h.wf len
  split at hadd
  · nomatch hadd
  · next hroom =>
    have hfits : PairFits (key, val) := by
      unfold FCGI_MAX_LENGTH at hroom
      exact ⟨by dsimp only; omega, by dsimp only; omega⟩
    rw [fcgiEnvLength_eq hfits.1, fcgiEnvLength_eq hfits.2] at hadd
    have henv' := Option.some.inj hadd
    rw [show lengthField key.length ++ lengthField val.length ++ key ++ val =
      pairField (key, val) from rfl] at henv'
    refine ⟨hwf, hshort, ?_, ?_⟩
    · rw [List.flatMap_append, List.flatMap_singleton, ← h.bytes, ← htake, ← henv', ← hused]
      exact take_memcpy (by rw [hused]; exact Nat.le_trans (Nat.le_add_right _ _) hsize)
    · exact List.forall_mem_append.mpr ⟨h.fits, List.forall_mem_singleton.mpr hfits⟩

theorem runEnvCalls_holds (calls : List EnvCall) (h : EnvHolds env pairs) :
    EnvHolds (runEnvCalls calls env).2
      (pairs ++ acceptedPairs calls (runEnvCalls calls env).1) := by
  induction calls generalizing env pairs with
  | nil =>
    show EnvHolds env (pairs ++ [])
    rw [List.append_nil]
    exact h
  | cons call calls ih =>
    unfold runEnvCalls EnvCall.run
    dsimp only
    cases hadd : fcgiEnvAdd env call.1 call.2 with
    | none =>
      have hskip : ∀ results, acceptedPairs (call :: calls) (-1 :: results) =
          acceptedPairs calls results := by
        intro results
        obtain ⟨_ | key, _ | val⟩ := call
        · rfl
        · rfl
        · rfl
        · rfl
      dsimp only
      rw [hskip]
      exact ih h
    | some env' =>
      obtain ⟨_ | key, _ | val⟩ := call
      · nomatch hadd
      · nomatch hadd
      · nomatch hadd
      · have hrest := ih (h.add hadd)
        rw [List.append_assoc] at hrest
        exact hrest

end Pairs

/-! ## The names -/

/-- The name of the variable for a field with the name `k`. -/
def headerVar (k : Bytes) : Bytes :=
  if foldName k = foldName (ascii "CONTENT-TYPE") then ascii "CONTENT_TYPE"
  else ascii "HTTP_" ++ k.map envNameChar

def IsFieldVar (name : Bytes) : Prop := name = ascii "CONTENT_TYPE" ∨ ascii "HTTP_" <+: name

theorem isFieldVar_headerVar (k : Bytes) : IsFieldVar (headerVar k) := by
  unfold headerVar
  split
  · exact Or.inl rfl
  · exact Or.inr (List.prefix_append _ _)

section Names

variable [Malloc]

theorem constBuf_appendEnvName {b : Buffer} (hwf : b.WF) (key : Buffer) :
    constBuf (appendEnvName b key) = b.bytes ++ (constBuf key).map envNameChar := by
  obtain ⟨hused, hsize, htake⟩ := bufferPrepareAppend_spec hwf (key.used + 2)
  have hle : b.used ≤ (bufferPrepareAppend b (key.used + 2)).ptr.length :=
    Nat.le_trans (Nat.le_add_right _ _) hsize
  unfold constBuf appendEnvName
  dsimp only
  generalize (key.ptr.take (key.used - 1)).map envNameChar = name
  have hbytes := @take_memcpy (bufferPrepareAppend b (key.used + 2)).ptr (name ++ [0]) b.used hle
  have hlen : b.bytes.length = b.used := by
    rw [← htake, List.length_take, Nat.min_eq_left hle]
  have hpos : b.used + (name.length + 1) - 1 = (b.bytes ++ name).length := by
    rw [List.length_append, hlen]
    omega
  have hmin : min (b.bytes ++ name).length (b.used + (name ++ [0]).length) =
      (b.bytes ++ name).length := by
    rw [← hpos, List.length_append, List.length_singleton]
    omega
  rw [htake, ← List.append_assoc] at hbytes
  have hfront := congrArg (List.take (b.bytes ++ name).length) hbytes
  rw [List.take_left, List.take_take, hmin] at hfront
  rw [hused, hpos]
  exact hfront

omit [Malloc] in
theorem map_envNameChar (k : Bytes) : k.map envNameChar = (foldName k).map envNameChar := by
  have hall : ∀ n : Fin 256,
      envNameChar (UInt8.ofNat n) = envNameChar (tolower (UInt8.ofNat n)) := by
    decide +kernel
  unfold foldName
  rw [List.map_map]
  refine List.map_congr_left fun c _ => ?_
  have hc := hall ⟨c.toNat, c.toNat_lt⟩
  rwa [UInt8.ofNat_toNat] at hc

theorem constBuf_headerVarName (tmpBuf : Buffer) {key : Buffer} {k : Bytes} (hkey : key.Text k)
    (hk : IsCStr k) : constBuf (headerVarName tmpBuf key) = headerVar k := by
  have hconst : constBuf key = k := take_of_holds hkey.holds hkey.used
  have hcase : strcasecmpEq key.str (ascii "CONTENT-TYPE") = true ↔
      foldName k = foldName (ascii "CONTENT-TYPE") := by
    rw [hkey.str hk]
    exact beq_iff_eq
  unfold headerVarName headerVar
  dsimp only
  simp only [hcase]
  split
  · next hname =>
    rw [constBuf_appendEnvName (wf_bufferReset tmpBuf), bufferReset_bytes, hconst, map_envNameChar,
      hname]
    decide +kernel
  · have htext := text_bufferCopyStringLen (bufferReset tmpBuf) (ascii "HTTP_")
    generalize bufferCopyStringLen (bufferReset tmpBuf) (some (ascii "HTTP_")) = b at htext
    have hwf : ({ b with used := b.used - 1 } : Buffer).WF :=
      Nat.le_trans (Nat.sub_le _ _) htext.wf
    rw [constBuf_appendEnvName hwf, hconst]
    exact congrArg (· ++ k.map envNameChar) (take_of_holds htext.holds htext.used)

end Names

/-! ## The variables of a request -/

def elementVars (name : Bytes → Bytes) (elements : List DataString) : List (Bytes × Bytes) :=
  (elements.filter fun ds => ds.value.used ≠ 0 ∧ ds.key.used ≠ 0).map fun ds =>
    (name (constBuf ds.key), constBuf ds.value)

section Elements

variable [Malloc] {env : Buffer} {pairs : List (Bytes × Bytes)}

theorem fcgiEnvAddElements_holds {varName : Buffer → Buffer → Buffer} {name : Bytes → Bytes}
    {elements : List DataString}
    (hname : ∀ ds ∈ elements, ds.key.used ≠ 0 → ∀ tmpBuf,
      constBuf (varName tmpBuf ds.key) = name (constBuf ds.key))
    (con : BackendConnection) (h : EnvHolds env pairs) :
    ∃ added, EnvHolds (fcgiEnvAddElements varName elements con env).2.2 (pairs ++ added) ∧
      added <+: elementVars name elements ∧
        ((fcgiEnvAddElements varName elements con env).1 = 0 →
          added = elementVars name elements) := by
  induction elements generalizing con env pairs with
  | nil => exact ⟨[], by rw [List.append_nil]; exact h, List.prefix_rfl, fun _ => rfl⟩
  | cons ds elements ih =>
    obtain ⟨hds, hrest⟩ := List.forall_mem_cons.mp hname
    unfold fcgiEnvAddElements elementVars
    by_cases hused : ds.value.used ≠ 0 ∧ ds.key.used ≠ 0
    · rw [if_pos hused, List.filter_cons_of_pos (by simpa using hused), List.map_cons,
        ← hds hused.2 con.tmpBuf]
      dsimp only
      cases hadd : fcgiEnvAdd env (some (constBuf (varName con.tmpBuf ds.key)))
          (some (constBuf ds.value)) with
      | none =>
        refine ⟨[], by rw [List.append_nil]; exact h, List.nil_prefix, ?_⟩
        intro hok
        nomatch hok
      | some env' =>
        obtain ⟨added, hholds, hadded, hall⟩ :=
          ih hrest { con with tmpBuf := varName con.tmpBuf ds.key } (h.add hadd)
        rw [List.append_assoc] at hholds
        refine ⟨_, hholds, List.cons_prefix_cons.mpr ⟨rfl, hadded⟩, fun hok => ?_⟩
        rw [hall hok]
        rfl
    · rw [if_neg hused, List.filter_cons_of_neg (by simpa using hused)]
      exact ih hrest con h

def FieldNames (headers : Arr DataString) : Prop :=
  ∀ ds ∈ headers.elements, ds.key.used ≠ 0 → ∃ k, ds.key.Text k ∧ IsCStr k

/-- What is added for a request: the variables of its fields, and those of `con->environment`. -/
structure HeadersAdded (headers environment : Arr DataString) (env' : Buffer)
    (pairs : List (Bytes × Bytes)) : Prop where
  added : ∃ fromFields fromEnvironment,
    readPairs env'.bytes = some (pairs ++ fromFields ++ fromEnvironment) ∧
    fromFields <+: elementVars headerVar headers.elements ∧
    fromEnvironment <+: elementVars (List.map envNameChar) environment.elements ∧
    ∀ p ∈ fromFields, IsFieldVar p.1
  short : env'.used < FCGI_MAX_LENGTH

theorem constBuf_environmentVarName (tmpBuf key : Buffer) :
    constBuf (environmentVarName tmpBuf key) = (constBuf key).map envNameChar := by
  unfold environmentVarName
  rw [constBuf_appendEnvName (wf_bufferReset tmpBuf), bufferReset_bytes, List.nil_append]

theorem fcgiEnvAddRequestHeaders_added (environment : Arr DataString) {con : BackendConnection}
    (hnames : FieldNames con.request.headers) (h : EnvHolds env pairs) :
    HeadersAdded con.request.headers environment
      (fcgiEnvAddRequestHeaders environment con env).2.2 pairs := by
  have hfield : ∀ ds ∈ con.request.headers.elements, ds.key.used ≠ 0 → ∀ tmpBuf,
      constBuf (headerVarName tmpBuf ds.key) = headerVar (constBuf ds.key) := by
    intro ds hds hused tmpBuf
    obtain ⟨k, hkey, hk⟩ := hnames ds hds hused
    rw [constBuf_headerVarName tmpBuf hkey hk]
    exact congrArg headerVar (take_of_holds hkey.holds hkey.used).symm
  have hvars : ∀ added, added <+: elementVars headerVar con.request.headers.elements →
      ∀ p ∈ added, IsFieldVar p.1 := by
    intro added hpre p hp
    obtain ⟨ds, -, rfl⟩ := List.mem_map.mp (hpre.subset hp)
    exact isFieldVar_headerVar _
  obtain ⟨added, hholds, hadded, -⟩ := fcgiEnvAddElements_holds hfield con h
  unfold fcgiEnvAddRequestHeaders
  generalize fcgiEnvAddElements headerVarName con.request.headers.elements con env = run at hholds
  obtain ⟨result, con', env'⟩ := run
  dsimp only at hholds
  split
  · next heq =>
    obtain ⟨-, rfl, rfl⟩ : result = 0 ∧ con' = _ ∧ env' = _ := by simpa using heq
    obtain ⟨more, hholds', hmore, -⟩ := fcgiEnvAddElements_holds
      (fun ds _ _ tmpBuf => constBuf_environmentVarName tmpBuf ds.key) con' hholds
    exact ⟨⟨added, more, hholds'.reads, hadded, hmore, hvars added hadded⟩, hholds'.short⟩
  · refine ⟨⟨added, [], ?_, hadded, List.nil_prefix, hvars added hadded⟩, hholds.short⟩
    rw [List.append_nil]
    exact hholds.reads

end Elements

section Calls

variable [Malloc]

/-- **The environment reads as the pairs that are accepted**, and no field of the request names a
variable of the server. -/
theorem runEnvCalls_reads (calls : List EnvCall) (environment : Arr DataString)
    {con : BackendConnection} {env : Buffer} (hempty : env.used = 0)
    (hnames : FieldNames con.request.headers) :
    let run := runEnvCalls calls env
    readPairs run.2.bytes = some (acceptedPairs calls run.1) ∧ run.2.used < FCGI_MAX_LENGTH ∧
      (∀ (call : EnvCall) (env : Buffer), (call.run env).1 = -1 → (call.run env).2 = env) ∧
      HeadersAdded con.request.headers environment
        (fcgiEnvAddRequestHeaders environment con run.2).2.2 (acceptedPairs calls run.1) := by
  have hholds := runEnvCalls_holds calls (envHolds_empty hempty)
  rw [List.nil_append] at hholds
  refine ⟨hholds.reads, hholds.short, fun call env hfailed => ?_,
    fcgiEnvAddRequestHeaders_added environment hnames hholds⟩
  unfold EnvCall.run at hfailed ⊢
  cases hadd : fcgiEnvAdd env call.1 call.2 with
  | none => rfl
  | some env' =>
    rw [hadd] at hfailed
    nomatch hfailed

end Calls

def userField : DataString where
  addr := 0
  key := textBuffer (ascii "Remote-User")
  value := textBuffer (ascii "root")
  isIndexKey := false
  response := false

def userRequest : BackendConnection :=
  { bodilessConnection with
    request := { bodilessConnection.request with
      headers := { (arrayInit : Arr DataString) with data := [some userField], used := 1 } } }

theorem runEnvCalls_reads_user :
    HeadersAdded userRequest.request.headers arrayInit
      (@fcgiEnvAddRequestHeaders zeroMalloc arrayInit userRequest
        (@runEnvCalls zeroMalloc [(some (ascii "REMOTE_USER"), some []), (some [], none)]
          bufferInit).2).2.2 [(ascii "REMOTE_USER", [])] := by
  let _ : Malloc := zeroMalloc
  have hnames : FieldNames userRequest.request.headers := by
    intro ds hds _
    obtain rfl : ds = userField := by simpa [userRequest, Arr.elements] using hds
    exact ⟨ascii "Remote-User", text_textBuffer _, by decide⟩
  have hpairs : acceptedPairs [(some (ascii "REMOTE_USER"), some []), (some [], none)]
      (runEnvCalls [(some (ascii "REMOTE_USER"), some []), (some [], none)] bufferInit).1 =
        [(ascii "REMOTE_USER", [])] := by decide +kernel
  rw [← hpairs]
  exact (runEnvCalls_reads _ arrayInit rfl hnames).2.2.2

end Lighttpd

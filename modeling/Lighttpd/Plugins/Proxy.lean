import Lighttpd.ArrayElements
import Lighttpd.Caseless
import Lighttpd.QueueContent
import Lighttpd.Request.Parse
import Mathlib.Algebra.Order.BigOperators.Group.List
import Mathlib.Algebra.Order.Group.Int

/-!
# `mod_proxy.c`: the request to the backend, and the next attempt

`proxy_create_env` puts the request line, the header fields and the body on the write queue of an
attempt. It sets fields for the backend in the request itself, and takes the body from its queue by
moving the offsets of the chunks. After an attempt that failed `mod_proxy_handle_subrequest` has the
request handled again, so the next attempt finds both as they are then: it never repeats the first
one (`proxyRetry_differs`). What the other plugins do to the request in between is left out.
-/

namespace Lighttpd

open CLib

/-- What the connection tells about the client: the text of its address, the buffer at `http_host`
and `conf.is_ssl`. -/
structure ProxyClient where
  ip : Bytes
  httpHost : Option Buffer
  isSsl : Bool

section Code

variable [Malloc]

def proxySetHeader (headers : Arr DataString) (key value : Bytes) : Option (Arr DataString) :=
  let (ds, headers) := arrayGetUnusedElement headers .string
  let ds := ds.getD (dataStringInit 0)
  arrayInsertUnique headers { ds with
    key := bufferCopyString ds.key (some key), value := bufferCopyString ds.value (some value) }

def proxyAppendHeader (headers : Arr DataString) (key value : Bytes) : Option (Arr DataString) :=
  let (ds, headers) := arrayGetUnusedElement headers .string
  let ds := ds.getD (dataStringInit 0)
  arrayInsertUnique headers { ds with
    key := bufferCopyString ds.key (some key), value := bufferAppendString ds.value (some value) }

def proxyHostHeader (client : ProxyClient) (headers : Arr DataString) : Option (Arr DataString) :=
  match client.httpHost with
  | some host =>
    if bufferIsEmpty host then some headers else proxySetHeader headers (ascii "X-Host") host.str
  | none => some headers

def proxyHeaders (client : ProxyClient) (headers : Arr DataString) : Option (Arr DataString) := do
  let headers ← proxyAppendHeader headers (ascii "X-Forwarded-For") client.ip
  let headers ← proxyHostHeader client headers
  proxySetHeader headers (ascii "X-Forwarded-Proto")
    (ascii (if client.isSsl then "https" else "http"))

def hopByHop (key : Buffer) : Bool :=
  bufferIsEqualString key (ascii "Connection") || bufferIsEqualString key (ascii "Proxy-Connection")

def DataString.Sent (ds : DataString) : Prop :=
  ds.value.used ≠ 0 ∧ ds.key.used ≠ 0 ∧ hopByHop ds.key = false

instance (ds : DataString) : Decidable ds.Sent := inferInstanceAs (Decidable (_ ∧ _))

def proxyHeaderLine (b : Buffer) (ds : DataString) : Buffer :=
  if ds.Sent then
    let b := bufferAppendStringBuffer b ds.key
    let b := bufferAppendStringLen b (some (ascii ": "))
    let b := bufferAppendStringBuffer b ds.value
    bufferAppendStringLen b (some (ascii "\r\n"))
  else b

def proxyHeader (con : BackendConnection) (b : Buffer) : Buffer :=
  let b := bufferCopyString b (getHttpMethodName con.request.httpMethod)
  let b := bufferAppendStringLen b (some (ascii " "))
  let b := bufferAppendStringBuffer b con.request.uri
  let b := bufferAppendStringLen b (some (ascii " HTTP/1.0\r\n"))
  let b := con.request.headers.elements.foldl proxyHeaderLine b
  bufferAppendStringLen b (some (ascii "\r\n"))

/-- The bytes of a chunk of the body that are left; `used` is unsigned, so 0 less one is large. -/
def Chunk.rest (c : Chunk) : Int :=
  match c.type with
  | .file => c.file.length - c.offset
  | .mem => ((if c.mem.used = 0 then 2 ^ 32 else c.mem.used : Nat) : Int) - 1 - c.offset
  | .unused => 0

/-- `n` bytes of a chunk go to the write queue. -/
def proxyTake (wb : Chunkqueue) (c : Chunk) (n : Int) : Chunkqueue :=
  match c.type with
  | .file =>
    let wb := chunkqueueAppendFile wb c.file.name c.offset n
    { wb with bytesIn := wb.bytesIn + n }
  | .mem =>
    let wb := (chunkqueueGetAppendBuffer wb).mapLastMem fun b =>
      let b := bufferAppendMemory b (some ((c.mem.ptr.drop c.offset.toNat).take n.toNat))
      { b with used := b.used + 1 }
    { wb with bytesIn := wb.bytesIn + n }
  | .unused => wb

/-- The loop over the body, with the chunks as it leaves them. It goes on until `offset` is
`bytesIn`; without another chunk it reads through a `NULL` pointer, and has no value. -/
def proxyBody (bytesIn : Int) : List Chunk → Int → Chunkqueue → Option (Chunkqueue × List Chunk)
  | [], offset, wb => if offset = bytesIn then some (wb, []) else none
  | c :: cs, offset, wb =>
    if offset = bytesIn then some (wb, c :: cs)
    else
      let weHave := min c.rest (bytesIn - offset)
      (proxyBody bytesIn cs (offset + weHave) (proxyTake wb c weHave)).map fun (wb, cs) =>
        (wb, { c with offset := c.offset + weHave } :: cs)

/-- When the loop ends it has taken `bytes_in` bytes. -/
def proxySendBody (con : BackendConnection) (wb : Chunkqueue) :
    Option (Chunkqueue × BackendConnection) :=
  if con.request.contentLength ≠ 0 then
    let reqCq := con.requestContentQueue
    (proxyBody reqCq.bytesIn reqCq.first 0 wb).map fun (wb, first) =>
      (wb, { con with requestContentQueue :=
        { reqCq with first := first, bytesOut := reqCq.bytesOut + reqCq.bytesIn } })
  else some (wb, con)

def proxyCreateEnv (client : ProxyClient) (con : BackendConnection) (wb : Chunkqueue) :
    Option (Chunkqueue × BackendConnection) := do
  let headers ← proxyHeaders client con.request.headers
  let con := { con with request := { con.request with headers := headers } }
  let wb := (chunkqueueGetAppendBuffer wb).mapLastMem (proxyHeader con)
  proxySendBody con { wb with bytesIn := wb.bytesIn + (wb.lastMem.used - 1 : Nat) }

/-- What each of `n` attempts puts on its write queue, when all but the last one fail. -/
def proxyAttempts (client : ProxyClient) (fs : Files) :
    Nat → BackendConnection → Option (List Bytes)
  | 0, _ => some []
  | n + 1, con => do
    let (wb, con) ← proxyCreateEnv client con chunkqueueInit
    let texts ← proxyAttempts client fs n con
    some (wb.content fs :: texts)

end Code

/-! ## The body is taken -/

/-- Chunks of a stored body: in memory or in a file, with offsets inside. -/
def Chunk.Stored (c : Chunk) : Prop := c.type ≠ .unused ∧ 0 ≤ c.rest

section Body

variable [Malloc] {bytesIn offset : Int} {wb wb' : Chunkqueue} {cs cs' : List Chunk}

/-- All chunks are used up. By induction on the chunks: each one is taken whole, as what is left of
the body is at least what is left of the chunk. -/
theorem proxyBody_takes (hstored : ∀ c ∈ cs, c.Stored)
    (htotal : offset + (cs.map Chunk.rest).sum = bytesIn)
    (h : proxyBody bytesIn cs offset wb = some (wb', cs')) : ∀ c ∈ cs', c.rest = 0 := by
  induction cs generalizing offset wb cs' with
  | nil =>
    unfold proxyBody at h
    split at h
    · obtain ⟨-, rfl⟩ := Prod.mk.inj (Option.some.inj h)
      simp
    · nomatch h
  | cons c cs ih =>
    have hrests : ∀ r ∈ cs.map Chunk.rest, 0 ≤ r := by
      intro r hr
      obtain ⟨d, hd, rfl⟩ := List.mem_map.mp hr
      exact (hstored d (List.mem_cons_of_mem _ hd)).2
    have hsum := List.sum_nonneg hrests
    have hc := hstored c List.mem_cons_self
    rw [List.map_cons, List.sum_cons] at htotal
    unfold proxyBody at h
    split at h
    · next hend =>
      obtain ⟨-, rfl⟩ := Prod.mk.inj (Option.some.inj h)
      have hfirst := hc.2
      intro d hd
      rcases List.mem_cons.mp hd with rfl | hd
      · omega
      · have hle := List.single_le_sum hrests d.rest (List.mem_map_of_mem hd)
        have hge := hrests d.rest (List.mem_map_of_mem hd)
        omega
    · have hwhole : min c.rest (bytesIn - offset) = c.rest := by omega
      rw [hwhole] at h
      obtain ⟨⟨wb₁, cs₁⟩, hrest, heq⟩ := Option.map_eq_some_iff.mp h
      obtain ⟨rfl, rfl⟩ := Prod.mk.inj heq
      intro d hd
      rcases List.mem_cons.mp hd with rfl | hd
      · unfold Chunk.rest
        cases c.type <;> simp
      · have htail : offset + c.rest + (cs.map Chunk.rest).sum = bytesIn := by omega
        exact ih (fun e he => hstored e (List.mem_cons_of_mem _ he)) htail hrest d hd

theorem proxyBody_used_up (hused : ∀ c ∈ cs, c.rest = 0) (hmore : offset < bytesIn) :
    proxyBody bytesIn cs offset wb = none := by
  induction cs generalizing wb with
  | nil =>
    unfold proxyBody
    rw [if_neg (by omega)]
  | cons c cs ih =>
    have hc := hused c List.mem_cons_self
    unfold proxyBody
    rw [if_neg (by omega)]
    dsimp only
    have hnone : min (0 : Int) (bytesIn - offset) = 0 := by omega
    rw [hc, hnone, show offset + 0 = offset from Int.add_zero offset,
      ih fun d hd => hused d (List.mem_cons_of_mem _ hd)]
    rfl

end Body

/-! ## The header grows -/

def Buffer.shown (b : Buffer) : Bytes := b.ptr.take (b.used - 1)

theorem length_shown {b : Buffer} (h : b.WF) : b.shown.length = b.used - 1 := by
  simp only [Buffer.WF, Buffer.size] at h
  simp only [Buffer.shown, List.length_take]
  omega

def lineText (ds : DataString) : Bytes :=
  if ds.Sent then ds.key.shown ++ ascii ": " ++ ds.value.shown ++ ascii "\r\n" else []

def headerLines (els : List DataString) : Bytes := (els.map lineText).flatten

section Header

variable [Malloc] {con : BackendConnection} {b : Buffer} {t : Bytes}

theorem proxyHeaderLine_text (h : b.Text t) (ds : DataString) :
    (proxyHeaderLine b ds).Text (t ++ lineText ds) := by
  unfold proxyHeaderLine lineText
  by_cases hsent : ds.Sent
  · rw [if_pos hsent, if_pos hsent]
    have hkey := text_bufferAppendStringBuffer_take h ds.key
    have hcolon := text_bufferAppendStringLen hkey (ascii ": ")
    have hvalue := text_bufferAppendStringBuffer_take hcolon ds.value
    have hend := text_bufferAppendStringLen hvalue (ascii "\r\n")
    simpa only [List.append_assoc, Buffer.shown] using hend
  · rw [if_neg hsent, if_neg hsent, List.append_nil]
    exact h

theorem proxyHeaderLines_text (els : List DataString) : ∀ {b : Buffer} {t : Bytes}, b.Text t →
    (els.foldl proxyHeaderLine b).Text (t ++ headerLines els) := by
  induction els with
  | nil =>
    intro b t h
    simpa [headerLines] using h
  | cons ds els ih =>
    intro b t h
    have hrest := ih (proxyHeaderLine_text h ds)
    simpa [headerLines] using hrest

def requestLineText (con : BackendConnection) : Bytes :=
  (getHttpMethodName con.request.httpMethod).getD [] ++ ascii " " ++ con.request.uri.shown ++
    ascii " HTTP/1.0\r\n"

theorem proxyHeader_text (hb : b.used = 0) : (proxyHeader con b).Text
    (requestLineText con ++ headerLines con.request.headers.elements ++ ascii "\r\n") := by
  have hmethod : (bufferAppendStringLen (bufferCopyString b (getHttpMethodName
      con.request.httpMethod)) (some (ascii " "))).Text
      ((getHttpMethodName con.request.httpMethod).getD [] ++ ascii " ") := by
    cases getHttpMethodName con.request.httpMethod with
    | some name => exact text_bufferAppendStringLen (text_bufferCopyString b name) _
    | none => exact text_bufferAppendStringLen_unused hb (by decide)
  unfold proxyHeader requestLineText
  have huri := text_bufferAppendStringBuffer_take hmethod con.request.uri
  have hline := text_bufferAppendStringLen huri (ascii " HTTP/1.0\r\n")
  exact text_bufferAppendStringLen (proxyHeaderLines_text con.request.headers.elements hline) _

theorem grows_bufferAppendStringLen (hb : b.WF) (s : Bytes) :
    (bufferAppendStringLen b (some s)).WF ∧
      b.used + s.length ≤ (bufferAppendStringLen b (some s)).used := by
  by_cases hs : s = []
  · subst hs
    exact ⟨hb, Nat.le_refl _⟩
  · obtain ⟨hbytes, hwf⟩ := bufferAppendStringLen_bytes hb hs
    refine ⟨hwf, ?_⟩
    have hlen := congrArg List.length hbytes
    simp only [Buffer.WF, Buffer.size] at hb hwf
    simp only [Buffer.bytes, List.length_append, List.length_dropLast, List.length_take,
      List.length_singleton] at hlen
    omega

theorem grows_bufferAppendStringBuffer (hb : b.WF) (src : Buffer) :
    (bufferAppendStringBuffer b src).WF ∧ b.used ≤ (bufferAppendStringBuffer b src).used := by
  unfold bufferAppendStringBuffer
  split
  · exact ⟨hb, Nat.le_refl _⟩
  · obtain ⟨hwf, hused⟩ := grows_bufferAppendStringLen hb (src.ptr.take (src.used - 1))
    exact ⟨hwf, by omega⟩

def DataString.WF (ds : DataString) : Prop := ds.key.WF ∧ ds.value.WF

variable {x y : DataString}

theorem used_dupSeparator (hy : y.WF) : (dupSeparator y y.value).WF ∧
    y.value.used + 2 ≤ (dupSeparator y y.value).used := by
  unfold dupSeparator
  split
  · obtain ⟨hwf₁, hused₁⟩ := grows_bufferAppendStringLen hy.2 (ascii "\r\n")
    obtain ⟨hwf₂, hused₂⟩ := grows_bufferAppendStringBuffer hwf₁ y.key
    obtain ⟨hwf₃, hused₃⟩ := grows_bufferAppendStringLen hwf₂ (ascii ": ")
    have hlen : (ascii ": ").length = 2 := by decide
    dsimp only
    exact ⟨hwf₃, by omega⟩
  · obtain ⟨hwf, hused⟩ := grows_bufferAppendStringLen hy.2 (ascii ", ")
    have hlen : (ascii ", ").length = 2 := by decide
    exact ⟨hwf, by omega⟩

theorem insertDup_grows (hy : y.WF) (x : DataString) : (dataStringInsertDup y x).WF ∧
    (y.value.used ≠ 0 → y.value.used + 2 ≤ (dataStringInsertDup y x).value.used) ∧
    (x.value.used ≠ 0 → (dataStringInsertDup y x).value.used ≠ 0) := by
  unfold dataStringInsertDup DataString.WF
  by_cases hu : y.value.used ≠ 0
  · simp only [if_pos hu]
    obtain ⟨hwf, hused⟩ := used_dupSeparator hy
    obtain ⟨hwf', hused'⟩ := grows_bufferAppendStringBuffer hwf x.value
    exact ⟨⟨hy.1, hwf'⟩, fun _ => by omega, fun _ => by omega⟩
  · simp only [if_neg hu]
    refine ⟨⟨hy.1, wf_bufferCopyStringBuffer _ _⟩, fun h => absurd h hu, ?_⟩
    intro hx
    rw [bufferCopyStringBuffer, if_neg hx, bufferCopyStringLen_used]
    omega

omit [Malloc] in
theorem length_lineText (h : y.WF) : (lineText y).length =
    if y.Sent then (y.key.used - 1) + (y.value.used - 1) + 4 else 0 := by
  unfold lineText
  split
  · have hsep : (ascii ": ").length = 2 := by decide
    have hend : (ascii "\r\n").length = 2 := by decide
    simp only [List.length_append, length_shown h.1, length_shown h.2, hsep, hend]
    omega
  · rfl

def Passes (key : Buffer) : Prop := key.used ≠ 0 ∧ hopByHop key = false

theorem length_lineText_insertDup (hy : y.WF) (hx : x.value.used ≠ 0) (hpass : Passes y.key) :
    (lineText y).length < (lineText (dataStringInsertDup y x)).length := by
  obtain ⟨hwf, hgrows, hset⟩ := insertDup_grows hy x
  have hkey : (dataStringInsertDup y x).key = y.key := rfl
  have hsent : (dataStringInsertDup y x).Sent := ⟨hset hx, hpass⟩
  rw [length_lineText hy, length_lineText hwf, if_pos hsent, hkey]
  split
  · next hold =>
    have hnew := hgrows hold.1
    omega
  · omega

/-- An array of fields: the buffers of all elements, in use or not, are in their blocks. -/
structure HeaderFields (a : Arr DataString) : Prop where
  wf : a.WF
  buffers : ∀ {i ds}, a.Slot i ds → ds.WF

def KeptKey (key : Bytes) : Prop := ∃ c t, key = c :: t ∧ tolower c ≠ 99 ∧ tolower c ≠ 112

omit [Malloc] in
theorem hopByHop_head {key : Buffer} {c : UInt8} {t : Bytes} (hptr : key.ptr = c :: t)
    (h : hopByHop key = true) : c = 67 ∨ c = 80 := by
  have hconnection : ascii "Connection" = 67 :: (ascii "Connection").tail := by decide
  have hproxy : ascii "Proxy-Connection" = 80 :: (ascii "Proxy-Connection").tail := by decide
  have hhead : ∀ {d : UInt8} {u : Bytes}, bufferIsEqualString key (d :: u) = true → c = d := by
    intro d u heq
    unfold bufferIsEqualString at heq
    split at heq
    · nomatch heq
    · have hstr : key.str = d :: u := by simpa using heq
      unfold Buffer.str cstr at hstr
      rw [hptr, List.takeWhile_cons] at hstr
      split at hstr
      · exact (List.cons.inj hstr).1
      · nomatch hstr
  unfold hopByHop at h
  rw [Bool.or_eq_true, hconnection, hproxy] at h
  rcases h with h | h
  · exact Or.inl (hhead h)
  · exact Or.inr (hhead h)

theorem KeptKey.passes {key : Bytes} (h : KeptKey key) (hequal : compareKey key y = 0) :
    Passes y.key := by
  obtain ⟨c, t, rfl, hc, hp⟩ := h
  have hmap := bufferCaselessCompare_eq_zero.mp hequal
  change (c :: t).map tolower = y.key.bytes.map tolower at hmap
  obtain ⟨hused, d, u, hptr⟩ : y.key.used ≠ 0 ∧ ∃ d u, y.key.ptr = d :: u := by
    unfold Buffer.bytes at hmap
    refine ⟨?_, ?_⟩
    · intro hu
      rw [hu] at hmap
      simp at hmap
    · cases hptr : y.key.ptr with
      | nil =>
        rw [hptr] at hmap
        simp at hmap
      | cons d u => exact ⟨d, u, rfl⟩
  have hlower : tolower c = tolower d := by
    obtain ⟨n, hn⟩ := Nat.exists_eq_succ_of_ne_zero hused
    unfold Buffer.bytes at hmap
    rw [hptr, hn, List.take_succ_cons] at hmap
    exact (List.cons.inj hmap).1
  refine ⟨hused, ?_⟩
  cases hhop : hopByHop y.key with
  | false => rfl
  | true =>
    rcases hopByHop_head hptr hhop with rfl | rfl
    · exact absurd (hlower.trans (by decide)) hc
    · exact absurd (hlower.trans (by decide)) hp

variable {a a' : Arr DataString}

theorem Inserted.headerFields (h : Inserted a x a') (ha : HeaderFields a) (hx : x.WF) :
    HeaderFields a' := by
  refine ⟨h.wf ha.wf, ?_⟩
  intro i ds hslot
  cases h with
  | merged _ live _ =>
    rcases (slot_setElement live.2.lt).mp hslot with ⟨-, rfl⟩ | ⟨-, hold⟩
    · exact (insertDup_grows (ha.buffers live.2) x).1
    · exact ha.buffers hold
  | appended _ _ slot _ =>
    rcases slot.mp hslot with ⟨-, rfl⟩ | ⟨-, hold⟩
    · exact hx
    · exact ha.buffers hold

theorem Inserted.length_headerLines (h : Inserted a x a') (ha : HeaderFields a) (hx : x.WF)
    (hkey : KeptKey x.key.bytes) (hvalue : x.value.used ≠ 0) :
    (headerLines a.elements).length < (headerLines a'.elements).length := by
  rcases h.elements ha.wf with ⟨pre, y, post, hequal, hold, hnew⟩ | hnew
  · have hy : y.WF := by
      obtain ⟨i, hlive⟩ := Arr.mem_elements.mp (show y ∈ a.elements by simp [hold])
      exact ha.buffers hlive.2
    have hlength : ∀ z : DataString, (headerLines (pre ++ z :: post)).length =
        (headerLines pre).length + (lineText z).length + (headerLines post).length := by
      intro z
      simp [headerLines, Nat.add_assoc]
    have hlt := length_lineText_insertDup hy hvalue (hkey.passes hequal)
    rw [hold, hnew, hlength, hlength]
    exact Nat.add_lt_add_right (Nat.add_lt_add_left hlt _) _
  · have hlength : (headerLines (a.elements ++ [x])).length =
        (headerLines a.elements).length + (lineText x).length := by
      simp [headerLines]
    have hself : compareKey x.key.bytes x = 0 := bufferCaselessCompare_eq_zero.mpr rfl
    have hsent : x.Sent := ⟨hvalue, hkey.passes hself⟩
    rw [hnew, hlength, length_lineText hx, if_pos hsent]
    omega

theorem keptKey_ensureKey (hkey : KeptKey x.key.bytes) :
    KeptKey (ensureKey a x).2.key.bytes := by
  unfold ensureKey
  split
  · have htext : (bufferCopyLong x.key a.uniqueNdx).Text ([] ++ decimal a.uniqueNdx) :=
      text_bufferAppendLong_shows (Or.inr ⟨rfl, rfl⟩) _
    have hbytes : (bufferCopyLong x.key a.uniqueNdx).bytes = decimalNat a.uniqueNdx ++ [0] := by
      rw [← decimal_natCast]
      exact htext.holds
    show KeptKey (bufferCopyLong x.key a.uniqueNdx).bytes
    cases hd : decimalNat a.uniqueNdx with
    | nil => exact ⟨0, [], by rw [hbytes, hd, List.nil_append], by decide, by decide⟩
    | cons c t =>
      have hdigit : isDigit c = true := isDigit_of_mem_decimalNat (hd ▸ List.mem_cons_self)
      have hc : (tolower c).toNat ≤ 57 := by
        simp only [isDigit, Bool.and_eq_true, decide_eq_true_eq, UInt8.le_iff_toNat_le] at hdigit
        have hlast : c.toNat ≤ 57 := hdigit.2
        rw [toNat_tolower]
        split <;> omega
      refine ⟨c, t ++ [0], by rw [hbytes, hd, List.cons_append], ?_, ?_⟩
      · exact fun h => absurd (h ▸ hc) (by decide)
      · exact fun h => absurd (h ▸ hc) (by decide)
  · exact hkey

theorem arrayInsertUnique_grows (ha : HeaderFields a) (hx : x.WF) (hkey : KeptKey x.key.bytes)
    (hvalue : x.value.used ≠ 0) (hi : arrayInsertUnique a x = some a') :
    HeaderFields a' ∧ (headerLines a.elements).length < (headerLines a'.elements).length := by
  have hinserted := arrayInsertUnique_ensured ha.wf hi
  have hnumbered : HeaderFields (ensureKey a x).1 ∧ (ensureKey a x).1.elements = a.elements := by
    refine ⟨⟨wf_ensureKey ha.wf x, ?_⟩, ?_⟩
    · intro i ds hslot
      unfold ensureKey at hslot
      split at hslot <;> exact ha.buffers hslot
    · unfold ensureKey
      split <;> rfl
  have hnamed : (ensureKey a x).2.WF ∧ (ensureKey a x).2.value = x.value := by
    unfold ensureKey
    split
    · have htext := @text_bufferAppendLong_shows _ { x.key with used := 0 } []
        (Or.inr ⟨rfl, rfl⟩) (a.uniqueNdx : Int)
      exact ⟨⟨htext.wf, hx.2⟩, rfl⟩
    · exact ⟨hx, rfl⟩
  have hlt := hinserted.length_headerLines hnumbered.1 hnamed.1 (keptKey_ensureKey hkey)
    (hnamed.2 ▸ hvalue)
  rw [hnumbered.2] at hlt
  exact ⟨hinserted.headerFields hnumbered.1 hnamed.1, hlt⟩

theorem unusedElement_fields (ha : HeaderFields a) :
    HeaderFields (arrayGetUnusedElement a .string).2 ∧
      (arrayGetUnusedElement a .string).2.elements = a.elements ∧
      ((arrayGetUnusedElement a .string).1.getD (dataStringInit 0)).WF := by
  obtain ⟨hnone, hsome⟩ := arrayGetUnusedElement_spec .string (a := a) rfl
  cases hel : (arrayGetUnusedElement a .string).1 with
  | none =>
    rw [hnone hel]
    exact ⟨ha, rfl, wf_of_used_zero rfl, wf_of_used_zero rfl⟩
  | some ds =>
    have htaken := hsome ds hel
    generalize (arrayGetUnusedElement a .string).2 = b at htaken ⊢
    obtain ⟨i, -, hslot, -⟩ := htaken.slots
    refine ⟨⟨htaken.wf ha.wf, fun hy => ?_⟩, htaken.elements ha.wf, ha.buffers hslot⟩
    obtain ⟨j, hold, -⟩ := htaken.slot hy
    exact ha.buffers hold

variable {client : ProxyClient}

theorem proxySetHeader_grows {key value : Bytes} (ha : HeaderFields a) (hkey : KeptKey (key ++ [0]))
    (h : proxySetHeader a key value = some a') :
    HeaderFields a' ∧ (headerLines a.elements).length < (headerLines a'.elements).length := by
  obtain ⟨hfields, helements, -⟩ := unusedElement_fields ha
  unfold proxySetHeader at h
  generalize arrayGetUnusedElement a .string = r at h hfields helements
  obtain ⟨ds, b⟩ := r
  dsimp only at h hfields helements
  have htext := fun d v => text_bufferCopyString d v
  rw [← helements]
  refine arrayInsertUnique_grows hfields ⟨(htext _ key).wf, (htext _ value).wf⟩ ?_ ?_ h
  · rwa [show (bufferCopyString (ds.getD (dataStringInit 0)).key (some key)).bytes = key ++ [0] from
      (htext _ key).holds]
  · rw [(htext _ value).used]
    omega

theorem grows_bufferAppendString (hb : b.WF) (s : Bytes) :
    (bufferAppendString b (some s)).WF ∧ (bufferAppendString b (some s)).used ≠ 0 := by
  by_cases hu : b.used = 0
  · have htext := text_bufferAppendString_unused hu s
    refine ⟨htext.wf, ?_⟩
    rw [htext.used]
    omega
  · obtain ⟨hused, hsize, -⟩ := bufferPrepareAppend_spec hb (s.length + 1)
    simp only [bufferAppendString]
    generalize bufferPrepareAppend b (s.length + 1) = p at hused hsize ⊢
    have hstart : bufferStart p = p := if_neg (by omega)
    rw [hstart]
    simp only [Buffer.size] at hsize
    have hlen : (memcpy p.ptr (p.used - 1) (s ++ [0])).length = p.ptr.length := by
      refine length_memcpy ?_
      rw [List.length_append, List.length_singleton]
      omega
    have hnew : p.used + s.length ≠ 0 := by omega
    refine ⟨?_, hnew⟩
    simp only [Buffer.WF, Buffer.size, hlen]
    omega

theorem proxyAppendHeader_grows {key value : Bytes} (ha : HeaderFields a)
    (hkey : KeptKey (key ++ [0])) (h : proxyAppendHeader a key value = some a') :
    HeaderFields a' ∧ (headerLines a.elements).length < (headerLines a'.elements).length := by
  obtain ⟨hfields, helements, hunused⟩ := unusedElement_fields ha
  unfold proxyAppendHeader at h
  generalize arrayGetUnusedElement a .string = r at h hfields helements hunused
  obtain ⟨ds, b⟩ := r
  dsimp only at h hfields helements hunused
  have htext := text_bufferCopyString (ds.getD (dataStringInit 0)).key key
  obtain ⟨hwf, hused⟩ := grows_bufferAppendString hunused.2 value
  rw [← helements]
  refine arrayInsertUnique_grows hfields ⟨htext.wf, hwf⟩ ?_ hused h
  rwa [show (bufferCopyString (ds.getD (dataStringInit 0)).key (some key)).bytes = key ++ [0] from
    htext.holds]

theorem proxyHeaders_grows (ha : HeaderFields a) (h : proxyHeaders client a = some a') :
    HeaderFields a' ∧ (headerLines a.elements).length < (headerLines a'.elements).length := by
  unfold proxyHeaders at h
  obtain ⟨a₁, hfor, h⟩ := Option.bind_eq_some_iff.mp h
  obtain ⟨a₂, hhost, hproto⟩ := Option.bind_eq_some_iff.mp h
  obtain ⟨hfields₁, hlt₁⟩ := proxyAppendHeader_grows ha ⟨88, _, rfl, by decide, by decide⟩ hfor
  have hfields₂ : HeaderFields a₂ ∧
      (headerLines a₁.elements).length ≤ (headerLines a₂.elements).length := by
    unfold proxyHostHeader at hhost
    split at hhost
    · split at hhost
      · obtain rfl := Option.some.inj hhost
        exact ⟨hfields₁, Nat.le_refl _⟩
      · obtain ⟨hfields, hlt⟩ :=
          proxySetHeader_grows hfields₁ ⟨88, _, rfl, by decide, by decide⟩ hhost
        exact ⟨hfields, hlt.le⟩
    · obtain rfl := Option.some.inj hhost
      exact ⟨hfields₁, Nat.le_refl _⟩
  obtain ⟨hfields₃, hlt₃⟩ :=
    proxySetHeader_grows hfields₂.1 ⟨88, _, rfl, by decide, by decide⟩ hproto
  exact ⟨hfields₃, by omega⟩

end Header

section Attempts

variable [Malloc] {client : ProxyClient} {fs : Files} {con con' : BackendConnection}
  {wb wb' : Chunkqueue}

/-- The body is in the chunks, and nothing of it is taken yet. -/
structure StoredBody (con : BackendConnection) : Prop where
  stored : ∀ c ∈ con.requestContentQueue.first, c.Stored
  total : (con.requestContentQueue.first.map Chunk.rest).sum = con.requestContentQueue.bytesIn

def SendsBody (con : BackendConnection) : Prop :=
  con.request.contentLength ≠ 0 ∧ con.requestContentQueue.bytesIn ≠ 0

def headerText (con : BackendConnection) : Bytes :=
  requestLineText con ++ headerLines con.request.headers.elements ++ ascii "\r\n"

theorem proxySendBody_spec (h : proxySendBody con wb = some (wb', con')) :
    con'.request = con.request ∧
      con'.requestContentQueue.bytesIn = con.requestContentQueue.bytesIn ∧
      (StoredBody con → ∀ c ∈ con'.requestContentQueue.first, SendsBody con → c.rest = 0) ∧
      (¬ SendsBody con → wb' = wb) := by
  unfold proxySendBody at h
  by_cases hlength : con.request.contentLength ≠ 0
  · rw [if_pos hlength] at h
    obtain ⟨⟨wb₁, cs⟩, hloop, heq⟩ := Option.map_eq_some_iff.mp h
    obtain ⟨rfl, rfl⟩ := Prod.mk.inj heq
    refine ⟨rfl, rfl, ?_, ?_⟩
    · intro hbody c hc _
      exact proxyBody_takes hbody.stored ((Int.zero_add _).trans hbody.total) hloop c hc
    · intro hnone
      have hzero : con.requestContentQueue.bytesIn = 0 :=
        not_not.mp fun hne => hnone ⟨hlength, hne⟩
      rw [hzero] at hloop
      cases hcs : con.requestContentQueue.first with
      | nil =>
        rw [hcs, proxyBody, if_pos rfl] at hloop
        exact (Prod.mk.inj (Option.some.inj hloop)).1.symm
      | cons c cs =>
        rw [hcs, proxyBody, if_pos rfl] at hloop
        exact (Prod.mk.inj (Option.some.inj hloop)).1.symm
  · rw [if_neg hlength] at h
    obtain ⟨rfl, rfl⟩ := Prod.mk.inj (Option.some.inj h)
    exact ⟨rfl, rfl, fun _ _ _ hhas => absurd hhas.1 hlength, fun _ => rfl⟩

theorem content_header (con : BackendConnection) (n : Int) :
    ({ (chunkqueueGetAppendBuffer chunkqueueInit).mapLastMem (proxyHeader con) with
      bytesIn := n } : Chunkqueue).content fs = headerText con := by
  have hfirst : ((chunkqueueGetAppendBuffer chunkqueueInit).mapLastMem (proxyHeader con)).first =
      [{ chunkInit with type := .mem, mem := proxyHeader con (bufferReset bufferInit) }] := rfl
  have htext : (proxyHeader con (bufferReset bufferInit)).Text (headerText con) :=
    proxyHeader_text rfl
  unfold Chunkqueue.content
  dsimp only
  rw [hfirst, List.map_singleton, List.flatten_singleton]
  exact content_mem fs rfl rfl htext

theorem proxyCreateEnv_spec (fs : Files) (hheaders : HeaderFields con.request.headers)
    (h : proxyCreateEnv client con chunkqueueInit = some (wb, con')) :
    ∃ headers : Arr DataString, HeaderFields headers ∧
      (headerLines con.request.headers.elements).length < (headerLines headers.elements).length ∧
      con'.request = { con.request with headers := headers } ∧
      con'.requestContentQueue.bytesIn = con.requestContentQueue.bytesIn ∧
      (StoredBody con → ∀ c ∈ con'.requestContentQueue.first, SendsBody con → c.rest = 0) ∧
      (¬ SendsBody con → wb.content fs = headerText con') := by
  unfold proxyCreateEnv at h
  obtain ⟨headers, hset, h⟩ := Option.bind_eq_some_iff.mp h
  obtain ⟨hfields, hlt⟩ := proxyHeaders_grows hheaders hset
  dsimp only at h
  obtain ⟨hrequest, hbytes, hused, hkept⟩ := proxySendBody_spec h
  refine ⟨headers, hfields, hlt, hrequest, hbytes, fun hbody => hused ⟨hbody.1, hbody.2⟩, ?_⟩
  intro hnone
  rw [hkept hnone, content_header]
  unfold headerText requestLineText
  rw [hrequest]

theorem proxyCreateEnv_used_up (client : ProxyClient) (wb : Chunkqueue) (hhas : SendsBody con)
    (hpos : 0 ≤ con.requestContentQueue.bytesIn)
    (hused : ∀ c ∈ con.requestContentQueue.first, c.rest = 0) :
    proxyCreateEnv client con wb = none := by
  have hmore : 0 < con.requestContentQueue.bytesIn := lt_of_le_of_ne hpos (Ne.symm hhas.2)
  unfold proxyCreateEnv
  cases proxyHeaders client con.request.headers with
  | none => rfl
  | some headers =>
    rw [Option.bind_eq_bind, Option.bind_some]
    unfold proxySendBody
    dsimp only
    rw [if_pos hhas.1, proxyBody_used_up hused hmore]
    rfl

omit [Malloc] in
theorem bytesIn_nonneg (hbody : StoredBody con) : 0 ≤ con.requestContentQueue.bytesIn := by
  rw [← hbody.total]
  refine List.sum_nonneg fun r hr => ?_
  obtain ⟨c, hc, rfl⟩ := List.mem_map.mp hr
  exact (hbody.stored c hc).2

/-- **No attempt repeats the first one**, if there is a second. With a body it runs off the end of
the queue; without one the header has grown. -/
theorem proxyRetry_differs (client : ProxyClient) (fs : Files) (con : BackendConnection)
    (hheaders : HeaderFields con.request.headers) (hbody : StoredBody con) (n : Nat) :
    ¬ ∃ text, proxyAttempts client fs (n + 2) con = some (List.replicate (n + 2) text) := by
  rintro ⟨text, hall⟩
  obtain ⟨⟨wb₁, con₁⟩, hfirst, hall⟩ := Option.bind_eq_some_iff.mp hall
  obtain ⟨texts, hrest, heq₁⟩ := Option.bind_eq_some_iff.mp hall
  obtain ⟨htext₁, rfl⟩ := List.cons.inj (Option.some.inj heq₁)
  obtain ⟨⟨wb₂, con₂⟩, hsecond, hrest⟩ := Option.bind_eq_some_iff.mp hrest
  obtain ⟨texts, -, heq₂⟩ := Option.bind_eq_some_iff.mp hrest
  have htext₂ : wb₂.content fs = text := (List.cons.inj (Option.some.inj heq₂)).1
  obtain ⟨headers₁, hfields₁, -, hrequest₁, hbytes₁, hused, hheader₁⟩ :=
    proxyCreateEnv_spec fs hheaders hfirst
  have hheaders₁ : HeaderFields con₁.request.headers := by
    rw [hrequest₁]
    exact hfields₁
  obtain ⟨headers₂, -, hlt, hrequest₂, -, -, hheader₂⟩ := proxyCreateEnv_spec fs hheaders₁ hsecond
  have hhas : SendsBody con₁ ↔ SendsBody con := by
    unfold SendsBody
    rw [hrequest₁, hbytes₁]
  by_cases h : SendsBody con
  · have hnone := proxyCreateEnv_used_up client chunkqueueInit (hhas.mpr h)
      (hbytes₁ ▸ bytesIn_nonneg hbody) fun c hc => hused hbody c hc h
    rw [hnone] at hsecond
    nomatch hsecond
  · have hlengths : (headerText con₁).length = (headerText con₂).length := by
      rw [← hheader₁ h, ← hheader₂ (mt hhas.mp h), htext₁, htext₂]
    simp only [headerText, requestLineText, List.length_append, hrequest₂, hrequest₁] at hlengths
    rw [hrequest₁] at hlt
    dsimp only at hlt
    omega

end Attempts

/-- A `POST` request to `/` with three bytes in memory. -/
def proxyUpload : BackendConnection :=
  let con := connectionInit { mimetypes := arrayInit, allowHttp11 := true }
  let body : Chunk := { chunkInit with type := .mem, mem := ⟨ascii "abc" ++ [0], 4, 1⟩ }
  { con with
    request := { con.request with
      httpMethod := .post, uri := ⟨ascii "/" ++ [0], 2, 1⟩, contentLength := 3 }
    transferEncoding := 0, parsedResponse := 0, responseLength := -1, etag := bufferInit
    rangeRequests := true, errorfilePrefix := bufferInit, tmpChunkLen := bufferInit
    tmpBuf := bufferInit, fileStarted := false, docRoot := bufferInit
    requestContentQueue := { chunkqueueInit with first := [body], bytesIn := 3 } }

/-- A `GET` request to `/`. -/
def proxyDownload : BackendConnection :=
  { proxyUpload with
    request := { proxyUpload.request with httpMethod := .get, contentLength := 0 }
    requestContentQueue := chunkqueueInit }

def plainClient : ProxyClient := ⟨ascii "10.0.0.1", none, false⟩

theorem proxyRetry_differs_upload : ¬ ∃ text, @proxyAttempts zeroMalloc plainClient ⟨[], []⟩ 2
    proxyUpload = some (List.replicate 2 text) := by
  have hheaders : HeaderFields proxyUpload.request.headers := by
    refine ⟨Arr.WF.of_used_zero rfl, ?_⟩
    intro i ds hslot
    exact absurd hslot.lt (Nat.not_lt_zero i)
  have hbody : StoredBody proxyUpload := by
    refine ⟨?_, by decide⟩
    intro c hc
    obtain rfl := List.mem_singleton.mp hc
    exact ⟨by decide, by decide⟩
  exact @proxyRetry_differs zeroMalloc plainClient ⟨[], []⟩ proxyUpload hheaders hbody 0

/-- The second attempt sends other values for the fields. -/
theorem not_proxyRetry_repeats : ¬ ∃ text, @proxyAttempts zeroMalloc plainClient ⟨[], []⟩ 2
    proxyDownload = some (List.replicate 2 text) := by
  have hboth : @proxyAttempts zeroMalloc plainClient ⟨[], []⟩ 2 proxyDownload = some
      [ascii "GET / HTTP/1.0\r\nX-Forwarded-For: 10.0.0.1\r\nX-Forwarded-Proto: http\r\n\r\n",
        ascii "GET / HTTP/1.0\r\nX-Forwarded-For: 10.0.0.1, 10.0.0.1\r\n" ++
          ascii "X-Forwarded-Proto: http, http\r\n\r\n"] := by
    decide +kernel
  rintro ⟨text, h⟩
  rw [hboth] at h
  obtain ⟨hfirst, hrest⟩ := List.cons.inj (Option.some.inj h)
  have hsecond := (List.cons.inj hrest).1
  exact absurd (hfirst.trans hsecond.symm) (by decide +kernel)

end Lighttpd

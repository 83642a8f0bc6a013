import Lighttpd.ArrayHistory
import Lighttpd.CaselessOrder
import Lighttpd.Lib.Fields
import Lighttpd.Plugins.Proxy

/-!
# `mod_proxy.c`: the header fields of the request

`proxy_set_header` inserts its field into the header of the client's request, so a field of the client
with that name is not replaced: the two values are joined, as they are for `X-Forwarded-For`, where
that is meant. And the fields that belong to one hop are found by their names with their case. So the
fields that the backend gets are the server's exactly if the client does not send the names that the
server sets, and spells the others as the server does (`proxyForwards_iff`).
-/

namespace Lighttpd

open CLib Compare

/-! ## The fields -/

def joinValues (w v : Bytes) : Bytes := w ++ ascii ", " ++ v

def fieldsOf (els : List DataString) : List (Bytes × Bytes) :=
  els.map fun ds => (ds.key.shown, ds.value.shown)

def fieldValues (fs : List (Bytes × Bytes)) (name : Bytes) : List Bytes :=
  Fields.values foldName fs name

def joinField (fs : List (Bytes × Bytes)) (name value : Bytes) : List (Bytes × Bytes) :=
  Fields.insert foldName joinValues fs name value

def sentFields [Malloc] (con : BackendConnection) : List (Bytes × Bytes) :=
  fieldsOf (con.request.headers.elements.filter fun ds => decide ds.Sent)

def receivedHost (client : ProxyClient) : Option Bytes :=
  match client.httpHost with
  | some host => if bufferIsEmpty host then none else some host.str
  | none => none

def clientScheme (client : ProxyClient) : Bytes := ascii (if client.isSsl then "https" else "http")

def proxyNames : List Bytes := [ascii "Connection", ascii "Proxy-Connection", ascii "X-Host",
  ascii "X-Forwarded-Proto", ascii "X-Forwarded-For"]

/-- The fields that are sent, for those that were received: none that belong to one hop, the host and
the scheme as the server knows them, the address of the client behind the ones it sent, and the
others as they are. -/
structure ServersFields (client : ProxyClient) (received sent : List (Bytes × Bytes)) : Prop where
  hops : ∀ f ∈ sent, foldName f.1 ≠ foldName (ascii "Connection") ∧
    foldName f.1 ≠ foldName (ascii "Proxy-Connection")
  host : fieldValues sent (ascii "X-Host") = (receivedHost client).toList
  proto : fieldValues sent (ascii "X-Forwarded-Proto") = [clientScheme client]
  forwardedFor : fieldValues sent (ascii "X-Forwarded-For") =
    [Fields.mergedWith joinValues (fieldValues received (ascii "X-Forwarded-For")) client.ip]
  others : ∀ f ∈ received, foldName f.1 ∉ proxyNames.map foldName → fieldValues sent f.1 = [f.2]

/-- **The fields that are forwarded are the server's**: the request begins with a header of them. -/
def ForwardsFields [Malloc] (fs : Files) (client : ProxyClient) (con : BackendConnection) : Prop :=
  ∃ wb con', proxyCreateEnv client con chunkqueueInit = some (wb, con') ∧
    headerText con' <+: wb.content fs ∧
    ServersFields client (fieldsOf con.request.headers.elements) (sentFields con')

/-- The client sends no field under a name that the server sets, and spells the names of the fields
for one hop as the server does. -/
structure HarmlessFields (received : List (Bytes × Bytes)) : Prop where
  host : ∀ f ∈ received, foldName f.1 ≠ foldName (ascii "X-Host")
  proto : ∀ f ∈ received, foldName f.1 ≠ foldName (ascii "X-Forwarded-Proto")
  connection : ∀ f ∈ received, foldName f.1 = foldName (ascii "Connection") →
    f.1 = ascii "Connection"
  proxyConnection : ∀ f ∈ received, foldName f.1 = foldName (ascii "Proxy-Connection") →
    f.1 = ascii "Proxy-Connection"

/-! ## The header of a request -/

/-- The elements of a header that was parsed: each has a name and a value, and those not in use were
reset. -/
structure RequestFields [Malloc] (K : Bytes → Prop) (headers : Arr DataString) : Prop where
  ordered : headers.Ordered K
  plain : ∀ {i ds}, headers.Slot i ds → ds.isIndexKey = false ∧ ds.response = false
  text : ∀ {i ds}, headers.Live i ds → ds.key.Text ds.key.shown ∧ ds.value.Text ds.value.shown
  unused : ∀ {i ds}, headers.Slot i ds → headers.used ≤ i → ds.value.used = 0

section Insertion

variable [Malloc] {K : Bytes → Prop} {headers headers' : Arr DataString} {ds x : DataString}
  {name value : Bytes}

omit [Malloc] in
theorem shown_of_text {b : Buffer} {t : Bytes} (h : b.Text t) : b.shown = t :=
  take_of_holds h.holds h.used

theorem RequestFields.distinct (hK : PreorderOn bufferCaselessCompare K)
    (h : RequestFields K headers) : Fields.Distinct foldName (fieldsOf headers.elements) := by
  unfold Fields.Distinct fieldsOf
  rw [List.pairwise_map, List.pairwise_iff_getElem]
  intro i j hi hj hij heq
  have hlive := (Arr.getElem?_elements h.ordered.wf).mp (List.getElem?_eq_getElem hi)
  have hlive' := (Arr.getElem?_elements h.ordered.wf).mp (List.getElem?_eq_getElem hj)
  have hsame := h.ordered.once hK hlive hlive'
    ((compare_names (h.text hlive).1 (h.text hlive').1).mpr heq)
  omega

theorem RequestFields.unusedElement (hK : PreorderOn bufferCaselessCompare K)
    (h : RequestFields K headers) :
    RequestFields K (arrayGetUnusedElement headers .string).2 ∧
      (arrayGetUnusedElement headers .string).2.elements = headers.elements ∧
      ∀ y, y = (arrayGetUnusedElement headers .string).1.getD (dataStringInit 0) →
        y.isIndexKey = false ∧ y.response = false ∧ y.value.used = 0 := by
  obtain ⟨hnone, hsome⟩ := arrayGetUnusedElement_spec .string (a := headers) rfl
  cases hel : (arrayGetUnusedElement headers .string).1 with
  | none =>
    rw [hnone hel]
    refine ⟨h, rfl, ?_⟩
    rintro y rfl
    exact ⟨rfl, rfl, rfl⟩
  | some y =>
    have htaken := hsome y hel
    generalize (arrayGetUnusedElement headers .string).2 = rest at htaken ⊢
    obtain ⟨i, hi, hslot, -⟩ := htaken.slots
    refine ⟨⟨h.ordered.taken hK htaken, fun hz => ?_, fun hz => h.text (htaken.live_iff.mp hz),
      fun hz hk => ?_⟩, htaken.elements h.ordered.wf, ?_⟩
    · obtain ⟨j, hold, -⟩ := htaken.slot hz
      exact h.plain hold
    · obtain ⟨j, hold, hj⟩ := htaken.slot hz
      exact h.unused hold (hj (htaken.used ▸ hk))
    · rintro z rfl
      exact ⟨(h.plain hslot).1, (h.plain hslot).2, h.unused hslot hi⟩

theorem text_insertDup {w v : Bytes} (hresponse : ds.response = false) (hw : ds.value.Text w)
    (hv : x.value.Text v) : (DataUnset.insertDup ds x).value.Text (joinValues w v) := by
  have hused : ds.value.used ≠ 0 := by
    rw [hw.used]
    omega
  have htext := text_bufferAppendStringBuffer (text_bufferAppendStringLen hw (ascii ", ")) hv
  show (dataStringInsertDup ds x).value.Text _
  unfold dataStringInsertDup dupSeparator
  rw [if_pos hused, hresponse]
  exact htext

/-- **An insertion into the header** is one into its fields. -/
theorem RequestFields.insert (hK : PreorderOn bufferCaselessCompare K)
    (h : RequestFields K headers) (hplain : x.isIndexKey = false ∧ x.response = false)
    (hname : x.key.Text name) (hvalue : x.value.Text value) (hkey : K (name ++ [0])) :
    ∃ headers', arrayInsertUnique headers x = some headers' ∧ RequestFields K headers' ∧
      fieldsOf headers'.elements = joinField (fieldsOf headers.elements) name value := by
  have hbytes := keyBytes_of_text hname
  obtain ⟨headers', hrun, hordered, hinserted⟩ :=
    arrayInsertUnique_named hK h.ordered hname hplain.1 hkey
  have hx : (x.key.shown, x.value.shown) = (name, value) := by
    rw [shown_of_text hname, shown_of_text hvalue]
  refine ⟨headers', hrun, ?_⟩
  cases hinserted with
  | @merged ndx pos y found live equal =>
    have hy := h.text live
    have hslots := h.plain live.2
    have hdup := text_insertDup hslots.2 hy.2 hvalue
    have hset : ∀ {i z}, (headers.setElement ndx (DataUnset.insertDup y x)).Slot i z →
        i = ndx ∧ z = DataUnset.insertDup y x ∨ i ≠ ndx ∧ headers.Slot i z :=
      fun hz => (slot_setElement live.2.lt).mp hz
    refine ⟨⟨hordered, ?_, ?_, ?_⟩, ?_⟩
    · intro i z hz
      rcases hset hz with ⟨-, rfl⟩ | ⟨-, hold⟩
      · exact hslots
      · exact h.plain hold
    · intro i z hz
      rcases hset hz.2 with ⟨-, rfl⟩ | ⟨-, hold⟩
      · refine ⟨hy.1, ?_⟩
        rw [shown_of_text hdup]
        exact hdup
      · exact h.text ⟨hz.1, hold⟩
    · intro i z hz hi
      rcases hset hz with ⟨rfl, -⟩ | ⟨-, hold⟩
      · exact absurd live.1 (Nat.not_lt.mpr hi)
      · exact h.unused hold hi
    · rw [elements_setElement h.ordered.wf live]
      have hget := (Arr.getElem?_elements h.ordered.wf).mpr live
      obtain ⟨hlt, hgety⟩ := List.getElem?_eq_some_iff.mp hget
      have hsplit : headers.elements = headers.elements.take ndx ++ y ::
          headers.elements.drop (ndx + 1) := by
        rw [← hgety, List.getElem_cons_drop, List.take_append_drop]
      have hcompare : foldName y.key.shown = foldName name :=
        ((compare_names hname hy.1).mp equal).symm
      have hdistinct := h.distinct hK
      rw [List.set_eq_take_append_cons_drop, if_pos hlt]
      rw [hsplit] at hdistinct
      unfold fieldsOf at hdistinct ⊢
      rw [List.map_append, List.map_cons] at hdistinct ⊢
      obtain ⟨-, -, hcross⟩ := List.pairwise_append.mp hdistinct
      have hinsert : joinField (headers.elements.map fun ds => (ds.key.shown, ds.value.shown))
          name value = (headers.elements.take ndx).map (fun ds => (ds.key.shown, ds.value.shown)) ++
            (y.key.shown, joinValues y.value.shown value) ::
              (headers.elements.drop (ndx + 1)).map fun ds => (ds.key.shown, ds.value.shown) := by
        conv_lhs => rw [hsplit]
        rw [List.map_append, List.map_cons]
        refine Fields.insert_of_mem (fun f hf heq => ?_) hcompare
        exact hcross f hf _ List.mem_cons_self (heq.trans hcompare.symm)
      rw [hinsert]
      congr 2
      exact congrArg (Prod.mk y.key.shown) (shown_of_text hdup)
  | @appended pos headers' missing count slot wf =>
    refine ⟨⟨hordered, ?_, ?_, ?_⟩, ?_⟩
    · intro i z hz
      rcases slot.mp hz with ⟨-, rfl⟩ | ⟨-, hold⟩
      · exact hplain
      · exact h.plain hold
    · intro i z hz
      rcases slot.mp hz.2 with ⟨-, rfl⟩ | ⟨hne, hold⟩
      · rw [shown_of_text hname, shown_of_text hvalue]
        exact ⟨hname, hvalue⟩
      · have hlt := hz.1
        exact h.text ⟨by omega, hold⟩
    · intro i z hz hi
      rcases slot.mp hz with ⟨rfl, -⟩ | ⟨-, hold⟩
      · omega
      · exact h.unused hold (by omega)
    · rw [elements_appended h.ordered.wf count slot wf]
      unfold fieldsOf
      rw [List.map_append, List.map_singleton, hx]
      refine (Fields.insert_of_notMem fun f hf heq => ?_).symm
      obtain ⟨y, hy, rfl⟩ := List.mem_map.mp hf
      obtain ⟨i, hlive⟩ := Arr.mem_elements.mp hy
      obtain ⟨found, pos', hindex, hfound, -⟩ := arrayGetIndex_ordered hK h.ordered hkey
      have hmissing : arrayGetIndex headers (name ++ [0]) = some (none, pos) := hbytes ▸ missing
      obtain ⟨rfl, -⟩ := Prod.mk.inj (Option.some.inj (hindex.symm.trans hmissing))
      have hzero : compareKey (name ++ [0]) y = 0 := by
        rw [← hbytes]
        exact (compare_names hname (h.text hlive).1).mpr heq.symm
      exact absurd ((hfound i).mpr ⟨y, hlive, hzero⟩) (by simp)

theorem proxySetHeader_spec (hK : PreorderOn bufferCaselessCompare K) (h : RequestFields K headers)
    (hkey : K (name ++ [0])) (value : Bytes) :
    ∃ headers', proxySetHeader headers name value = some headers' ∧ RequestFields K headers' ∧
      fieldsOf headers'.elements = joinField (fieldsOf headers.elements) name value := by
  obtain ⟨hrest, helements, hunused⟩ := h.unusedElement hK
  unfold proxySetHeader
  generalize arrayGetUnusedElement headers .string = r at hrest helements hunused ⊢
  obtain ⟨ds, rest⟩ := r
  obtain ⟨hindex, hresponse, -⟩ := hunused _ rfl
  dsimp only at hrest helements hindex hresponse ⊢
  rw [← helements]
  exact hrest.insert hK ⟨hindex, hresponse⟩ (text_bufferCopyString _ name)
    (text_bufferCopyString _ value) hkey

theorem proxyAppendHeader_spec (hK : PreorderOn bufferCaselessCompare K)
    (h : RequestFields K headers) (hkey : K (name ++ [0])) (value : Bytes) :
    ∃ headers', proxyAppendHeader headers name value = some headers' ∧ RequestFields K headers' ∧
      fieldsOf headers'.elements = joinField (fieldsOf headers.elements) name value := by
  obtain ⟨hrest, helements, hunused⟩ := h.unusedElement hK
  unfold proxyAppendHeader
  generalize arrayGetUnusedElement headers .string = r at hrest helements hunused ⊢
  obtain ⟨ds, rest⟩ := r
  obtain ⟨hindex, hresponse, hempty⟩ := hunused _ rfl
  dsimp only at hrest helements hindex hresponse hempty ⊢
  rw [← helements]
  exact hrest.insert hK ⟨hindex, hresponse⟩ (text_bufferCopyString _ name)
    (text_bufferAppendString_unused hempty value) hkey

def serverFields (client : ProxyClient) (received : List (Bytes × Bytes)) : List (Bytes × Bytes) :=
  let fs := joinField received (ascii "X-Forwarded-For") client.ip
  let fs :=
    match receivedHost client with
    | some host => joinField fs (ascii "X-Host") host
    | none => fs
  joinField fs (ascii "X-Forwarded-Proto") (clientScheme client)

structure ProxyNamesIn (K : Bytes → Prop) : Prop where
  forwardedFor : K (ascii "X-Forwarded-For" ++ [0])
  host : K (ascii "X-Host" ++ [0])
  proto : K (ascii "X-Forwarded-Proto" ++ [0])

theorem proxyHeaders_spec (hK : PreorderOn bufferCaselessCompare K) (hnames : ProxyNamesIn K)
    (h : RequestFields K headers) (client : ProxyClient) :
    ∃ headers', proxyHeaders client headers = some headers' ∧ RequestFields K headers' ∧
      fieldsOf headers'.elements = serverFields client (fieldsOf headers.elements) := by
  obtain ⟨headers₁, hrun₁, hfields₁, heq₁⟩ :=
    proxyAppendHeader_spec hK h hnames.forwardedFor client.ip
  have hhost : ∃ headers₂, proxyHostHeader client headers₁ = some headers₂ ∧
      RequestFields K headers₂ ∧ fieldsOf headers₂.elements =
        match receivedHost client with
        | some host => joinField (fieldsOf headers₁.elements) (ascii "X-Host") host
        | none => fieldsOf headers₁.elements := by
    unfold proxyHostHeader receivedHost
    cases client.httpHost with
    | none => exact ⟨headers₁, rfl, hfields₁, rfl⟩
    | some host =>
      cases hempty : bufferIsEmpty host with
      | true =>
        simp only [hempty, if_true]
        exact ⟨headers₁, rfl, hfields₁, rfl⟩
      | false =>
        simp only [hempty, Bool.false_eq_true, if_false]
        exact proxySetHeader_spec hK hfields₁ hnames.host host.str
  obtain ⟨headers₂, hrun₂, hfields₂, heq₂⟩ := hhost
  obtain ⟨headers₃, hrun₃, hfields₃, heq₃⟩ :=
    proxySetHeader_spec hK hfields₂ hnames.proto (clientScheme client)
  refine ⟨headers₃, ?_, hfields₃, ?_⟩
  · unfold proxyHeaders
    rw [hrun₁, Option.bind_eq_bind, Option.bind_some, hrun₂]
    exact hrun₃
  · rw [heq₃, heq₂, heq₁]
    rfl

end Insertion

section Sent

variable [Malloc] {K : Bytes → Prop} {headers : Arr DataString} {client : ProxyClient}
  {con : BackendConnection}

def passes (f : Bytes × Bytes) : Bool :=
  f.1 ≠ ascii "Connection" && f.1 ≠ ascii "Proxy-Connection"

omit [Malloc] in
theorem bufferIsEqualString_text {b : Buffer} {t s : Bytes} (h : b.Text t) (hs : IsCStr s) :
    bufferIsEqualString b s = decide (t = s) := by
  obtain ⟨behind, hptr⟩ := h.ptr_eq
  have hstr : b.str = cstr t := by
    unfold Buffer.str
    rw [hptr, cstr_append_nul]
  unfold bufferIsEqualString
  rw [hstr, h.used]
  by_cases hlen : t.length = s.length
  · rw [if_neg (by omega)]
    refine Bool.eq_iff_iff.mpr ?_
    rw [beq_iff_eq, decide_eq_true_eq]
    constructor
    · intro hcut
      have hprefix : cstr t <+: t := List.takeWhile_prefix _
      have hwhole := hprefix.eq_of_length (by rw [hcut, hlen])
      exact hwhole.symm.trans hcut
    · rintro rfl
      exact cstr_eq_self hs
  · rw [if_pos (by omega)]
    refine (decide_eq_false ?_).symm
    rintro rfl
    exact hlen rfl

theorem RequestFields.sent (h : RequestFields K headers) :
    fieldsOf (headers.elements.filter fun ds => decide ds.Sent) =
      (fieldsOf headers.elements).filter passes := by
  unfold fieldsOf
  rw [List.filter_map]
  congr 1
  refine List.filter_congr fun ds hds => ?_
  obtain ⟨i, hlive⟩ := Arr.mem_elements.mp hds
  obtain ⟨hkey, hvalue⟩ := h.text hlive
  have hconnection := bufferIsEqualString_text hkey (s := ascii "Connection") (by decide)
  have hproxy := bufferIsEqualString_text hkey (s := ascii "Proxy-Connection") (by decide)
  have hused : ds.value.used ≠ 0 ∧ ds.key.used ≠ 0 := by
    rw [hvalue.used, hkey.used]
    omega
  have hsent : ds.Sent ↔ passes (ds.key.shown, ds.value.shown) = true := by
    unfold DataString.Sent hopByHop passes
    rw [hconnection, hproxy]
    simp [hused]
  rw [Function.comp_apply, Bool.eq_iff_iff, decide_eq_true_eq]
  exact hsent

omit [Malloc] in
theorem fieldValues_sent {fs : List (Bytes × Bytes)} {name : Bytes}
    (h1 : foldName name ≠ foldName (ascii "Connection"))
    (h2 : foldName name ≠ foldName (ascii "Proxy-Connection")) :
    fieldValues (fs.filter passes) name = fieldValues fs name := by
  refine Fields.values_filter fun f _ hf => ?_
  have hne1 : f.1 ≠ ascii "Connection" := fun heq => h1 (by rw [← hf, heq])
  have hne2 : f.1 ≠ ascii "Proxy-Connection" := fun heq => h2 (by rw [← hf, heq])
  simp [passes, hne1, hne2]

omit [Malloc] in
theorem mergedWith_eq {ws : List Bytes} {v : Bytes} :
    Fields.mergedWith joinValues ws v = v ↔ ws = [] := by
  cases ws with
  | nil => exact ⟨fun _ => rfl, fun _ => rfl⟩
  | cons w ws =>
    refine ⟨fun heq => ?_, fun hnil => nomatch hnil⟩
    have hlen := congrArg List.length heq
    have htwo : (ascii ", ").length = 2 := by decide
    unfold Fields.mergedWith joinValues at hlen
    rw [List.length_append, List.length_append] at hlen
    omega

omit [Malloc] in
theorem fieldValues_server (client : ProxyClient) {received : List (Bytes × Bytes)}
    (hd : Fields.Distinct foldName received) :
    fieldValues (serverFields client received) (ascii "X-Forwarded-For") = [Fields.mergedWith
        joinValues (fieldValues received (ascii "X-Forwarded-For")) client.ip] ∧
      fieldValues (serverFields client received) (ascii "X-Host") =
        ((receivedHost client).map (Fields.mergedWith joinValues
          (fieldValues received (ascii "X-Host")))).elim
            (fieldValues received (ascii "X-Host")) ([·]) ∧
      fieldValues (serverFields client received) (ascii "X-Forwarded-Proto") = [Fields.mergedWith
        joinValues (fieldValues received (ascii "X-Forwarded-Proto")) (clientScheme client)] ∧
      ∀ name, foldName name ∉ proxyNames.map foldName →
        fieldValues (serverFields client received) name = fieldValues received name := by
  have hfor : Fields.Distinct foldName (joinField received (ascii "X-Forwarded-For") client.ip) :=
    hd.insert _ _
  have hne1 : foldName (ascii "X-Forwarded-For") ≠ foldName (ascii "X-Forwarded-Proto") := by decide
  have hne2 : foldName (ascii "X-Forwarded-For") ≠ foldName (ascii "X-Host") := by decide
  have hne3 : foldName (ascii "X-Host") ≠ foldName (ascii "X-Forwarded-Proto") := by decide
  have hmem : ∀ name, foldName name ∉ proxyNames.map foldName →
      foldName name ≠ foldName (ascii "X-Host") ∧
        foldName name ≠ foldName (ascii "X-Forwarded-Proto") ∧
        foldName name ≠ foldName (ascii "X-Forwarded-For") := by
    intro name hname
    simp only [proxyNames, List.map_cons, List.map_nil, List.mem_cons, List.not_mem_nil, or_false,
      not_or] at hname
    exact ⟨hname.2.2.1, hname.2.2.2.1, hname.2.2.2.2⟩
  unfold serverFields fieldValues joinField at *
  cases receivedHost client with
  | none =>
    refine ⟨?_, ?_, ?_, ?_⟩
    · rw [Fields.values_insert_ne hne1, Fields.values_insert hd]
    · rw [Fields.values_insert_ne hne3, Fields.values_insert_ne (Ne.symm hne2)]
      rfl
    · rw [Fields.values_insert hfor, Fields.values_insert_ne (Ne.symm hne1)]
    · intro name hname
      obtain ⟨-, hproto, hforwarded⟩ := hmem name hname
      rw [Fields.values_insert_ne hproto, Fields.values_insert_ne hforwarded]
  | some host =>
    refine ⟨?_, ?_, ?_, ?_⟩
    · rw [Fields.values_insert_ne hne1, Fields.values_insert_ne hne2, Fields.values_insert hd]
    · rw [Fields.values_insert_ne hne3, Fields.values_insert hfor,
        Fields.values_insert_ne (Ne.symm hne2)]
      rfl
    · rw [Fields.values_insert (hfor.insert _ _), Fields.values_insert_ne (Ne.symm hne3),
        Fields.values_insert_ne (Ne.symm hne1)]
    · intro name hname
      obtain ⟨hhost, hproto, hforwarded⟩ := hmem name hname
      rw [Fields.values_insert_ne hproto, Fields.values_insert_ne hhost,
        Fields.values_insert_ne hforwarded]

end Sent

section Body

variable [Malloc] {fs : Files} {wb wb' : Chunkqueue} {bytesIn offset : Int} {cs : List Chunk}

omit [Malloc] in
theorem content_prefix (fs : Files) (h : wb.first <+: wb'.first) :
    wb.content fs <+: wb'.content fs := by
  obtain ⟨cs, hcs⟩ := h
  refine ⟨(cs.map fun c => c.content fs).flatten, ?_⟩
  unfold Chunkqueue.content
  rw [← hcs, List.map_append, List.flatten_append]

theorem isPrefix_proxyTake (wb : Chunkqueue) (c : Chunk) (n : Int) :
    wb.first <+: (proxyTake wb c n).first := by
  unfold proxyTake
  cases c.type with
  | file =>
    dsimp only
    unfold chunkqueueAppendFile
    split
    · exact List.prefix_rfl
    · unfold chunkqueueAppendChunk
      dsimp only
      rw [chunkqueueGetUnusedChunk_first]
      exact List.prefix_append _ _
  | mem =>
    dsimp only
    unfold chunkqueueGetAppendBuffer chunkqueueAppendChunk
    dsimp only
    rw [first_mapLastMem rfl, chunkqueueGetUnusedChunk_first]
    exact List.prefix_append _ _
  | unused => exact List.prefix_rfl

theorem proxyBody_ends (wb : Chunkqueue) (hstored : ∀ c ∈ cs, c.Stored)
    (htotal : offset + (cs.map Chunk.rest).sum = bytesIn) :
    ∃ wb' cs', proxyBody bytesIn cs offset wb = some (wb', cs') ∧ wb.first <+: wb'.first := by
  induction cs generalizing offset wb with
  | nil =>
    have hend : offset = bytesIn := by simpa using htotal
    exact ⟨wb, [], by rw [proxyBody, if_pos hend], List.prefix_rfl⟩
  | cons c cs ih =>
    unfold proxyBody
    split
    · exact ⟨wb, c :: cs, rfl, List.prefix_rfl⟩
    · have hnonneg : 0 ≤ (cs.map Chunk.rest).sum := by
        refine List.sum_nonneg fun r hr => ?_
        obtain ⟨d, hd, rfl⟩ := List.mem_map.mp hr
        exact (hstored d (List.mem_cons_of_mem _ hd)).2
      rw [List.map_cons, List.sum_cons] at htotal
      have hwhole : min c.rest (bytesIn - offset) = c.rest := by omega
      rw [hwhole]
      obtain ⟨wb', cs', hrun, hprefix⟩ :=
        ih (proxyTake wb c c.rest) (fun d hd => hstored d (List.mem_cons_of_mem _ hd))
          (show offset + c.rest + _ = bytesIn by omega)
      exact ⟨wb', { c with offset := c.offset + c.rest } :: cs', by dsimp only; rw [hrun]; rfl,
        (isPrefix_proxyTake wb c c.rest).trans hprefix⟩

end Body

section Forward

variable [Malloc] {K : Bytes → Prop} {fs : Files} {client : ProxyClient}
  {con con' : BackendConnection} {wb : Chunkqueue}

theorem proxySendBody_ends (con : BackendConnection) (hbody : StoredBody con) (wb : Chunkqueue) :
    ∃ wb' con', proxySendBody con wb = some (wb', con') ∧ wb.first <+: wb'.first := by
  unfold proxySendBody
  by_cases hlength : con.request.contentLength ≠ 0
  · rw [if_pos hlength]
    obtain ⟨wb', cs', hloop, hprefix⟩ :=
      proxyBody_ends wb hbody.stored ((Int.zero_add _).trans hbody.total)
    dsimp only
    rw [hloop]
    exact ⟨wb', _, rfl, hprefix⟩
  · rw [if_neg hlength]
    exact ⟨wb, con, rfl, List.prefix_rfl⟩

omit [Malloc] in
theorem headerText_congr (h : con'.request = con.request) : headerText con' = headerText con := by
  unfold headerText requestLineText
  rw [h]

theorem proxyCreateEnv_fields (fs : Files) (client : ProxyClient)
    (hK : PreorderOn bufferCaselessCompare K) (hnames : ProxyNamesIn K)
    (hheaders : RequestFields K con.request.headers) (hbody : StoredBody con) :
    ∃ wb con', proxyCreateEnv client con chunkqueueInit = some (wb, con') ∧
      headerText con' <+: wb.content fs ∧
      sentFields con' = (serverFields client
        (fieldsOf con.request.headers.elements)).filter passes := by
  obtain ⟨headers, hrun, hfields, heq⟩ := proxyHeaders_spec hK hnames hheaders client
  unfold proxyCreateEnv
  rw [hrun, Option.bind_eq_bind, Option.bind_some]
  dsimp only
  obtain ⟨wb', con', hsend, hprefix⟩ := proxySendBody_ends
    { con with request := { con.request with headers := headers } }
    ⟨hbody.stored, hbody.total⟩ _
  obtain ⟨hrequest, -, -, -⟩ := proxySendBody_spec hsend
  refine ⟨wb', con', hsend, ?_, ?_⟩
  · have htext := content_prefix fs hprefix
    rw [content_header] at htext
    rw [headerText_congr hrequest]
    exact htext
  · unfold sentFields
    rw [hrequest, ← heq]
    exact hfields.sent

omit [Malloc] in
theorem mem_serverFields {received : List (Bytes × Bytes)} {f : Bytes × Bytes}
    (h : f ∈ serverFields client received) : f.1 = ascii "X-Forwarded-For" ∨
      f.1 = ascii "X-Host" ∨ f.1 = ascii "X-Forwarded-Proto" ∨ ∃ g ∈ received, g.1 = f.1 := by
  unfold serverFields joinField at h
  rcases Fields.mem_insert h with hname | ⟨g, hg, hname⟩
  · exact Or.inr (Or.inr (Or.inl hname))
  · have hfirst : ∀ e ∈ Fields.insert foldName joinValues received (ascii "X-Forwarded-For")
        client.ip, e.1 = ascii "X-Forwarded-For" ∨ ∃ g ∈ received, g.1 = e.1 :=
      fun e he => Fields.mem_insert he
    rw [← hname]
    split at hg
    · rcases Fields.mem_insert hg with hhost | ⟨e, he, hsame⟩
      · exact Or.inr (Or.inl hhost)
      · rw [← hsame]
        exact (hfirst e he).imp_right fun hold => Or.inr (Or.inr hold)
    · exact (hfirst g hg).imp_right fun hold => Or.inr (Or.inr hold)

omit [Malloc] in
theorem exists_mem_serverFields (client : ProxyClient) {received : List (Bytes × Bytes)}
    {g : Bytes × Bytes} (h : g ∈ received) : ∃ f ∈ serverFields client received, f.1 = g.1 := by
  have hjoin : ∀ {fs : List (Bytes × Bytes)} (name value : Bytes), (∃ f ∈ fs, f.1 = g.1) →
      ∃ f ∈ joinField fs name value, f.1 = g.1 := by
    rintro fs name value ⟨e, he, hname⟩
    have hinsert : ∃ f ∈ Fields.insert foldName joinValues fs name value, f.1 = e.1 :=
      Fields.exists_mem_insert he
    rwa [hname] at hinsert
  have hfirst := hjoin (ascii "X-Forwarded-For") client.ip ⟨g, h, rfl⟩
  unfold serverFields
  refine hjoin _ _ ?_
  cases receivedHost client with
  | none => exact hfirst
  | some host => exact hjoin _ _ hfirst

omit [Malloc] in
theorem serversFields_iff (client : ProxyClient) {received : List (Bytes × Bytes)}
    (hd : Fields.Distinct foldName received) :
    ServersFields client received ((serverFields client received).filter passes) ↔
      HarmlessFields received := by
  obtain ⟨hfor, hhost, hproto, hothers⟩ := fieldValues_server client hd
  have hvalues : ∀ name : Bytes, foldName name ≠ foldName (ascii "Connection") →
      foldName name ≠ foldName (ascii "Proxy-Connection") →
        fieldValues ((serverFields client received).filter passes) name =
          fieldValues (serverFields client received) name :=
    fun _ h1 h2 => fieldValues_sent h1 h2
  have hhostSent := (hvalues (ascii "X-Host") (by decide) (by decide)).trans hhost
  have hprotoSent :=
    (hvalues (ascii "X-Forwarded-Proto") (by decide) (by decide)).trans hproto
  have hforSent := (hvalues (ascii "X-Forwarded-For") (by decide) (by decide)).trans hfor
  have hnotBoth : foldName (ascii "Connection") ≠ foldName (ascii "Proxy-Connection") := by decide
  constructor
  · intro h
    -- a field for one hop that is spelled otherwise is sent
    have hhop : ∀ f ∈ received, passes f = true → foldName f.1 ≠ foldName (ascii "Connection") ∧
        foldName f.1 ≠ foldName (ascii "Proxy-Connection") := by
      intro f hf hpass
      obtain ⟨g, hg, hname⟩ := exists_mem_serverFields client hf
      rw [← hname]
      refine h.hops g (List.mem_filter.mpr ⟨hg, ?_⟩)
      unfold passes at hpass ⊢
      rwa [hname]
    have hnotPassed : ∀ f ∈ received, ¬ passes f = true →
        f.1 = ascii "Connection" ∨ f.1 = ascii "Proxy-Connection" := by
      intro f _ hnot
      by_contra hno
      obtain ⟨h1, h2⟩ := not_or.mp hno
      exact hnot (by simp [passes, h1, h2])
    refine ⟨?_, ?_, ?_, ?_⟩
    · have hvalues := h.host
      rw [hhostSent] at hvalues
      refine Fields.values_eq_nil.mp ?_
      cases hreceived : receivedHost client with
      | none =>
        rw [hreceived] at hvalues
        exact hvalues
      | some host =>
        rw [hreceived] at hvalues
        exact mergedWith_eq.mp (List.singleton_inj.mp hvalues)
    · have hvalues := h.proto
      rw [hprotoSent] at hvalues
      exact Fields.values_eq_nil.mp (mergedWith_eq.mp (List.singleton_inj.mp hvalues))
    · intro f hf hname
      by_cases hpass : passes f = true
      · exact absurd hname (hhop f hf hpass).1
      · rcases hnotPassed f hf hpass with heq | heq
        · exact heq
        · rw [heq] at hname
          exact absurd hname (Ne.symm hnotBoth)
    · intro f hf hname
      by_cases hpass : passes f = true
      · exact absurd hname (hhop f hf hpass).2
      · rcases hnotPassed f hf hpass with heq | heq
        · rw [heq] at hname
          exact absurd hname hnotBoth
        · exact heq
  · intro h
    have hnoHost : fieldValues received (ascii "X-Host") = [] := Fields.values_eq_nil.mpr h.host
    have hnoProto : fieldValues received (ascii "X-Forwarded-Proto") = [] :=
      Fields.values_eq_nil.mpr h.proto
    refine ⟨?_, ?_, ?_, hforSent, ?_⟩
    · intro f hf
      obtain ⟨hmem, hpass⟩ := List.mem_filter.mp hf
      have hpass : f.1 ≠ ascii "Connection" ∧ f.1 ≠ ascii "Proxy-Connection" := by
        simpa [passes] using hpass
      rcases mem_serverFields hmem with hname | hname | hname | ⟨g, hg, hname⟩
      · rw [hname]
        decide
      · rw [hname]
        decide
      · rw [hname]
        decide
      · rw [← hname] at hpass ⊢
        exact ⟨fun heq => hpass.1 (h.connection g hg heq),
          fun heq => hpass.2 (h.proxyConnection g hg heq)⟩
    · rw [hhostSent, hnoHost]
      cases receivedHost client <;> rfl
    · rw [hprotoSent, hnoProto]
      rfl
    · intro f hf hname
      have hne : foldName f.1 ≠ foldName (ascii "Connection") ∧
          foldName f.1 ≠ foldName (ascii "Proxy-Connection") := by
        simp only [proxyNames, List.map_cons, List.map_nil, List.mem_cons, not_or] at hname
        exact ⟨hname.1, hname.2.1⟩
      rw [hvalues _ hne.1 hne.2, hothers f.1 hname]
      exact Fields.values_of_mem hd hf

end Forward

/-- A `GET` request to `/` with one field. -/
def proxyField (name value : Bytes) : BackendConnection :=
  { proxyDownload with
    request := { proxyDownload.request with headers := oneString name value } }

theorem proxyField_fields {name value : Bytes} (hname : ∀ c ∈ name, ¬ betweenByte c) :
    @RequestFields zeroMalloc (fun s => ∀ c ∈ s, ¬ betweenByte c)
      (proxyField name value).request.headers := by
  let _ := zeroMalloc
  have hslot : ∀ {i ds}, (oneString name value).Slot i ds → i = 0 ∧
      ds = ⟨0, ⟨name ++ [0], name.length + 1, 1⟩, ⟨value ++ [0], value.length + 1, 1⟩, false,
        false⟩ := by
    intro i ds h
    have hlt : i < 1 := h.lt
    obtain rfl : i = 0 := by omega
    exact ⟨rfl, (Option.some.inj (Option.some.inj h)).symm⟩
  have hkey : ∀ c ∈ name ++ [0], ¬ betweenByte c := by
    intro c hc
    rcases List.mem_append.mp hc with hc | hc
    · exact hname c hc
    · obtain rfl := List.mem_singleton.mp hc
      unfold betweenByte
      decide
  have htext : ∀ t : Bytes, (⟨t ++ [0], t.length + 1, 1⟩ : Buffer).Text t := fun t =>
    ⟨List.take_of_length_le (by simp), rfl⟩
  refine ⟨⟨Nat.le_refl 1, ?_, List.Perm.refl _, List.pairwise_singleton _ _, ⟨1, rfl⟩, ?_⟩, ?_, ?_, ?_⟩
  · intro i hi
    obtain rfl : i = 0 := Nat.lt_one_iff.mp hi
    refine ⟨_, rfl, ?_⟩
    rw [keyBytes_of_text (htext name)]
    exact hkey
  · exact Nat.le_succ 1
  · intro i ds h
    obtain ⟨-, rfl⟩ := hslot h
    exact ⟨rfl, rfl⟩
  · intro i ds h
    obtain ⟨-, rfl⟩ := hslot h.2
    exact ⟨(shown_of_text (htext name)).symm ▸ htext name,
      (shown_of_text (htext value)).symm ▸ htext value⟩
  · intro i ds h hi
    obtain ⟨rfl, -⟩ := hslot h
    exact absurd hi (Nat.not_succ_le_zero 0)

def hostClient : ProxyClient := { plainClient with httpHost := some ⟨ascii "b" ++ [0], 2, 1⟩ }

end Lighttpd

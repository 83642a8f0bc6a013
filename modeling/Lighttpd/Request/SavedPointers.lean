import Lighttpd.Request.Accepted

/-!
# Pointers into values

For four fields the parser keeps a pointer into the value before the field goes into the list. Two
things that come later take the value away from under it: a continuation line for which the value
is moved, and, for `Range`, an insertion that merges the field into an older one and frees it.
-/

namespace Lighttpd

open CLib

/-- The pointer refers to the value of an element with the name of the field, for a `Range` to the
part behind `bytes=`. -/
def Refers (headers : Arr DataString) (f : KnownField) (p : ValuePtr) : Prop :=
  ∃ i ds, headers.Live i ds ∧ ds.Named f ∧ p = ⟨ds.addr, ds.value.gen, savedOffset f⟩ ∧
    (f = .range → ∃ t, ds.value.Text t ∧ strncaseeq 6 t (ascii "bytes=") = true)

def PointersRefer (con : Connection) : Prop :=
  ∀ f p, con.request.saved f = some p → Refers con.request.headers f p

section Pointers

variable [Malloc]

/-- The next round is about to take a value away: a continuation line does not fit into the block
of a value with a pointer to it, or the first `Range` with a usable value has an older one to merge
into. -/
inductive TakesValueAway (v : FieldView) : LineKind → Prop
  | moved {key value : Bytes} {ndx : Nat} {ds : DataString} {f : KnownField} {p : ValuePtr}
      (find : arrayGetElement v.headers key = some (some (ndx, ds))) (saved : v.saved f = some p)
      (points : p.addr = ds.addr) (full : ds.value.size < ds.value.used + (value.length + 1)) :
      TakesValueAway v (.folded key value)
  | merged {key value : Bytes} {ndx : Nat} {pos : Int}
      (range : knownField key knownFields = some .range) (unset : v.saved .range = none)
      (usable : isByteRange value = true)
      (found : arrayGetIndex v.headers (key ++ [0]) = some (some ndx, pos)) :
      TakesValueAway v (.field key value)

variable {v v' : FieldView} {k : LineKind}

/-! ## What always holds -/

structure PointersOk (v : FieldView) : Prop where
  isSaved : ∀ f p, v.saved f = some p → f.IsSaved
  settled : ∀ f p, v.saved f = some p → Settled v p.addr
  gen : ∀ f p i ds, v.saved f = some p → v.headers.Live i ds → ds.addr = p.addr →
    p.gen ≤ ds.value.gen
  first : ∀ f, f.IsSaved → f ≠ .range → v.saved f = none → ∀ i ds, v.headers.Live i ds →
    ¬ ds.Named f

omit [Malloc] in
theorem Started.pointersOk (h : Started v) : PointersOk v := by
  refine ⟨?_, ?_, ?_, ?_⟩
  · intro f p hf
    rw [h.saved f] at hf
    cases hf
  · intro f p hf
    rw [h.saved f] at hf
    cases hf
  · intro f p i ds hf
    rw [h.saved f] at hf
    cases hf
  · intro f hf _ _ i ds hl hn
    rw [hn.unique (h.elements hl)] at hf
    exact absurd hf (by decide)

theorem Change.saved_origin (c : Change v k v') {f : KnownField} {p : ValuePtr}
    (h : v'.saved f = some p) : v.saved f = some p ∨
      ∃ ds key value h a, k = .field key value ∧ IsNew v ds h a ∧
        knownField key knownFields = some f ∧ f.IsSaved ∧ v.saved f = none ∧
        p = ⟨(ds.set key value).addr, (ds.set key value).value.gen, savedOffset f⟩ ∧
        (f = .range → isByteRange value = true) ∧
        Placed v (ds.set key value) key v'.headers ∧
        SlotsFrom v (ds.set key value) v'.headers ∧ v'.allocs = a := by
  cases c with
  | same => exact Or.inl h
  | folded => exact Or.inl h
  | @stored key value ds h₁ h₂ a v₁ kind ne new handled placed slots =>
    generalize hf : knownField key knownFields = g at handled
    cases handled with
    | @saved g isSaved unset range =>
      by_cases he : f = g
      · subst he
        have hp : p = ⟨(ds.set key value).addr, (ds.set key value).value.gen, savedOffset f⟩ :=
          Option.some.inj (h.symm.trans (FieldView.save_self _ _ _))
        exact Or.inr ⟨ds, key, value, h₁, a, kind, new, hf, isSaved, unset, hp, range, placed,
          slots, rfl⟩
      · left
        have : (if f = g then some (⟨(ds.set key value).addr, (ds.set key value).value.gen,
            savedOffset g⟩ : ValuePtr) else v.saved f) = some p := h
        rwa [if_neg he] at this
    | _ => exact Or.inl h

omit [Malloc] in
theorem KnownField.IsSaved.handled {f : KnownField} (hs : f.IsSaved) (hr : f ≠ .range) :
    some f ∈ [some KnownField.contentLength, some .contentType, some .host,
      some .ifModifiedSince, some .ifNoneMatch] := by
  revert hs hr
  cases f <;> decide

omit [Malloc] in
theorem Handles.saves {x : DataString} {value : Bytes} {f : KnownField}
    (h : Handles v x value (some f) v') (hs : f.IsSaved) (hr : f ≠ .range) : v'.saved f ≠ none := by
  cases h with
  | quiet other => exact absurd (hs.handled hr) other
  | contentLength => exact absurd hs (by decide)
  | host => exact absurd hs (by decide)
  | saved => simp [FieldView.save]

omit [Malloc] in
theorem Handles.unset {x : DataString} {value : Bytes} {f : KnownField}
    (h : Handles v x value (some f) v') (hs : f.IsSaved) : v.saved f = none := by
  by_cases hr : f = .range
  · subst hr
    cases h with
    | quiet _ range => exact (range rfl).1
    | saved _ unset => exact unset
  · cases h with
    | quiet other => exact absurd (KnownField.IsSaved.handled hs hr) other
    | contentLength => exact absurd hs (by decide)
    | host => exact absurd hs (by decide)
    | saved _ unset => exact unset

theorem Change.first (c : Change v k v') {f : KnownField} (hs : f.IsSaved) (hr : f ≠ .range)
    (hf : v'.saved f = none) {i : Nat} {z : DataString} (hz : v'.headers.Live i z)
    (hn : z.Named f) : ∃ y, v.headers.Live i y ∧ y.Named f := by
  cases c with
  | same _ elements => exact ⟨z, elements.mp hz, hn⟩
  | @folded key value ndx ds _ _ live =>
    rcases (live_setElement live).mp hz with ⟨rfl, rfl⟩ | ⟨-, hz⟩
    · exact ⟨ds, live, ((kept_append ds value).named f).mp hn⟩
    · exact ⟨z, hz, hn⟩
  | @stored key value ds h₁ h₂ a v₁ kind ne new handled placed =>
    cases placed with
    | merged _ live _ kept elements =>
      rcases elements.mp hz with ⟨rfl, rfl⟩ | ⟨-, hz⟩
      · exact ⟨_, live, (kept.named f).mp hn⟩
      · exact ⟨z, hz, hn⟩
    | appended _ elements =>
      rcases elements.mp hz with ⟨-, rfl⟩ | hz
      · obtain ⟨k', hk', hn⟩ := hn
        rw [hk'.unique (text_set ds key value).1] at hn
        rw [hn] at handled
        exact absurd hf (handled.saves hs hr)
      · exact ⟨z, hz, hn⟩

theorem PointersOk.change (hv' : FieldsOk v') (h : PointersOk v)
    (c : Change v k v') : PointersOk v' := by
  refine ⟨?_, ?_, ?_, ?_⟩
  · intro f p hf
    rcases c.saved_origin hf with hf | ⟨_, _, _, _, _, _, _, _, hs, _⟩
    · exact h.isSaved f p hf
    · exact hs
  · intro f p hf
    rcases c.saved_origin hf with hf | ⟨ds, key, value, _, _, _, new, _, _, _, rfl, _, _, slots, ha⟩
    · exact c.settled hv' (h.settled f p hf)
    · exact new.settled rfl slots ha
  · intro f p i z hf hz hza
    rcases c.saved_origin hf with hf | ⟨ds, key, value, _, _, _, new, _, _, _, rfl, _, _, slots, ha⟩
    · rcases c.live_origin hz with ⟨ds, key, value, _, _, _, new, rfl⟩ | ⟨y, hy, hkept⟩
      · exact absurd hza (new.addr_ne (h.settled f p hf))
      · exact (h.gen f p i y hf hy (hkept.addr.symm.trans hza)).trans hkept.gen
    · rcases slots hz.2 with ⟨rfl, -⟩ | ⟨hne, -⟩
      · exact Nat.le_refl _
      · exact absurd hza hne
  · intro f hs hr hf i z hz hn
    obtain ⟨y, hy, hn⟩ := c.first hs hr hf hz hn
    have hnone : v.saved f = none := by
      cases hv : v.saved f with
      | none => rfl
      | some p =>
        rw [c.saved hv] at hf
        cases hf
    exact h.first f hs hr hnone i y hy hn

/-! ## Valid pointers -/

omit [Malloc] in
theorem strncaseeq_append : ∀ {n : Nat} {s q : Bytes} (r : Bytes), strncaseeq n s q = true →
    strncaseeq n (s ++ r) q = true
  | 0, _, _, _, _ => by simp [strncaseeq]
  | n + 1, [], _, _, h => by simp [strncaseeq] at h
  | n + 1, _ :: _, [], _, h => by simp [strncaseeq] at h
  | n + 1, x :: s, y :: q, r, h => by
    simp only [List.cons_append, strncaseeq, Bool.and_eq_true, Bool.or_eq_true] at h ⊢
    exact ⟨h.1, h.2.imp_right (strncaseeq_append r)⟩

omit [Malloc] in
theorem unit_of_isByteRange {value : Bytes} (h : isByteRange value = true) :
    strncaseeq 6 value (ascii "bytes=") = true := by
  have hunit : strncaseeq 6 (value ++ [0]) (ascii "bytes=") = true :=
    (Bool.and_eq_true _ _ ▸ h).1
  rwa [strncaseeq_append_of_le _ _ (length_of_strncaseeq (by decide) (by decide) hunit)] at hunit

def AllRefer (v : FieldView) : Prop := ∀ f p, v.saved f = some p → Refers v.headers f p

omit [Malloc] in
theorem Refers.keep {headers headers' : Arr DataString} {f : KnownField} {p : ValuePtr}
    (h : Refers headers f p) (hkeep : ∀ i ds, headers.Live i ds → ds.Named f → ds.addr = p.addr →
      ∃ ds', headers'.Live i ds' ∧ Kept ds ds' ∧ ds'.value.gen = ds.value.gen) :
    Refers headers' f p := by
  obtain ⟨i, ds, hl, hn, rfl, hrange⟩ := h
  obtain ⟨ds', hl', hkept, hgen⟩ := hkeep i ds hl hn rfl
  refine ⟨i, ds', hl', (hkept.named f).mpr hn, by rw [hkept.addr, hgen], fun hf => ?_⟩
  obtain ⟨t, ht, hunit⟩ := hrange hf
  obtain ⟨s, hs⟩ := hkept.value t ht
  exact ⟨t ++ s, hs, strncaseeq_append s hunit⟩

theorem Change.stays (hok : PointersOk v) (hv : FieldsOk v) (c : Change v k v')
    (hk : ¬ TakesValueAway v k) {f : KnownField} {p : ValuePtr} (hf : v.saved f = some p) {i : Nat}
    {ds : DataString} (hl : v.headers.Live i ds) (hn : ds.Named f) (ha : ds.addr = p.addr) :
    ∃ ds', v'.headers.Live i ds' ∧ Kept ds ds' ∧ ds'.value.gen = ds.value.gen := by
  cases c with
  | same _ elements => exact ⟨ds, elements.mpr hl, Kept.refl ds, rfl⟩
  | @folded key value ndx ds₁ kind find live =>
    by_cases hi : i = ndx
    · subst hi
      obtain rfl := hl.2.unique live.2
      refine ⟨_, (live_setElement live).mpr (Or.inl ⟨rfl, rfl⟩), kept_append ds value, ?_⟩
      obtain ⟨-, t, ht⟩ := hv.texts hl
      have hfits : ¬ ds.value.used + (value.length + 1) > ds.value.size := fun hfull =>
        hk (kind ▸ .moved find hf ha.symm hfull)
      exact ((text_bufferAppendString ht value).2).trans (if_neg hfits)
    · exact ⟨ds, (live_setElement live).mpr (Or.inr ⟨hi, hl⟩), Kept.refl ds, rfl⟩
  | @stored key value ds₁ h₁ h₂ a v₁ kind ne new handled placed =>
    cases placed with
    | @merged ndx pos y y' found live named kept elements =>
      by_cases hi : i = ndx
      · subst hi
        obtain rfl := hl.2.unique live.2
        rw [(named f).mp hn] at handled
        have hnone : v.saved f = none := handled.unset (hok.isSaved f p hf)
        rw [hf] at hnone
        cases hnone
      · exact ⟨ds, elements.mpr (Or.inr ⟨hi, hl⟩), Kept.refl ds, rfl⟩
    | appended _ elements => exact ⟨ds, elements.mpr (Or.inr hl), Kept.refl ds, rfl⟩

theorem AllRefer.change (h : AllRefer v) (hok : PointersOk v) (hv : FieldsOk v)
    (c : Change v k v') (hk : ¬ TakesValueAway v k) : AllRefer v' := by
  intro f p hf
  rcases c.saved_origin hf with
    hold | ⟨ds, key, value, _, _, hkind, new, hname, hs, hunset, rfl, hrange, placed, -, -⟩
  · exact (h f p hold).keep fun i ds hl hn ha => c.stays hok hv hk hold hl hn ha
  · cases placed with
    | merged found live named =>
      by_cases hr : f = .range
      · subst hr
        subst hkind
        exact absurd (.merged hname hunset (hrange rfl) found) hk
      · exact absurd ((named f).mpr hname) (hok.first f hs hr hunset _ _ live)
    | appended _ elements =>
      obtain ⟨hkey, hvalue⟩ := text_set ds key value
      refine ⟨_, _, elements.mpr (Or.inl ⟨rfl, rfl⟩), ⟨key, hkey, hname⟩, rfl, fun hr => ?_⟩
      exact ⟨value, hvalue, unit_of_isByteRange (hrange hr)⟩

/-! ## Lost pointers -/

/-- A pointer has lost its value: what has the address now is in a later block. -/
def Lost (v : FieldView) : Prop :=
  ∃ f p, v.saved f = some p ∧ ∀ i ds, v.headers.Live i ds → ds.addr = p.addr → p.gen < ds.value.gen

omit [Malloc] in
theorem Lost.not_allRefer (h : Lost v) : ¬ AllRefer v := by
  obtain ⟨f, p, hf, hgen⟩ := h
  intro hall
  obtain ⟨i, ds, hl, -, rfl, -⟩ := hall f p hf
  exact Nat.lt_irrefl _ (hgen i ds hl rfl)

theorem Lost.change (h : Lost v) (hok : PointersOk v) (c : Change v k v') : Lost v' := by
  obtain ⟨f, p, hf, hgen⟩ := h
  refine ⟨f, p, c.saved hf, ?_⟩
  intro i z hz hza
  rcases c.live_origin hz with ⟨ds, key, value, _, _, _, new, rfl⟩ | ⟨y, hy, hkept⟩
  · exact absurd hza (new.addr_ne (hok.settled f p hf))
  · exact Nat.lt_of_lt_of_le (hgen i y hy (hkept.addr.symm.trans hza)) hkept.gen

theorem Change.lost (hok : PointersOk v) (hv : FieldsOk v) (c : Change v k v')
    (hk : TakesValueAway v k) : Lost v' := by
  have c' := c
  cases hk with
  | @moved key value ndx ds f p find hf points full =>
    refine ⟨f, p, c.saved hf, ?_⟩
    cases c with
    | same _ _ _ unfound =>
      rw [unfound key value rfl] at find
      cases find
    | stored kind => cases kind
    | @folded _ _ _ _ kind find' live =>
      cases kind
      rw [find'] at find
      cases find
      intro i z hz hza
      rcases (live_setElement live).mp hz with ⟨rfl, rfl⟩ | ⟨hne, hz⟩
      · obtain ⟨-, t, ht⟩ := hv.texts live
        have hgen := (text_bufferAppendString ht value).2
        rw [if_pos full] at hgen
        have hle := hok.gen f p _ ds hf live points.symm
        show p.gen < (bufferAppendString ds.value (some value)).gen
        rw [hgen]
        omega
      · exact absurd (hv.addrs hz.2 live.2 (hza.trans points)) hne
  | @merged key value ndx pos range unset usable found =>
    cases c with
    | same _ _ _ _ other =>
      rcases other key value rfl with rfl | hne
      · exact absurd usable (by decide)
      · exact absurd range hne
    | folded kind => cases kind
    | @stored _ _ ds h₁ h₂ a v₁ kind ne new handled placed =>
      cases kind
      cases placed with
      | appended missing =>
        rw [found] at missing
        cases missing
      | merged _ _ _ _ _ freed =>
        rw [range] at handled
        cases handled with
        | quiet _ hrange =>
          rw [(hrange rfl).2] at usable
          cases usable
        | saved =>
          refine ⟨.range, ⟨(ds.set key value).addr, (ds.set key value).value.gen,
            savedOffset .range⟩, rfl, ?_⟩
          intro i z hz hza
          exact absurd hza (freed hz.2)

/-- **When the pointers are valid**: exactly when no value was taken away. -/
theorem pointersRefer_iff {srv srv' : Server} {con con' : Connection} {ret : Int} (h : Ready con)
    (hp : httpRequestParse srv con = some (ret, con', srv')) (hs : con'.httpStatus = 0) :
    PointersRefer con' ↔ ∀ st ∈ headerTrace srv con,
      ¬ TakesValueAway st.view (lineKind (requestCopy con) st) := by
  obtain ⟨m, cfg, st₀, st, run⟩ := acceptedRun h hp hs
  have hfinish := finishRequest_finished run.finish
  have hstep : ∀ s s', headerRound cfg m s = some (.next s') →
      LoopOk m s ∧ PointersOk s.view → LoopOk m s' ∧ PointersOk s'.view := by
    intro s s' hx hI
    obtain ⟨hok, hchange⟩ := hI.1.next m hx
    exact ⟨hok, hI.2.change hok.fields hchange⟩
  have hstart : LoopOk m st₀ ∧ PointersOk st₀.view := ⟨run.loopOk, run.started.pointersOk⟩
  have hend : LoopOk m st ∧ PointersOk st.view := by
    have hspec : (Flow.loop (headerRound cfg m) (m.length + 1) st₀).Spec
        (fun st => LoopOk m st ∧ PointersOk st.view) (fun _ => True) := by
      refine Flow.loop_invariant (fun s x hx hI => ?_) _ hstart
      cases x with
      | next s' => exact hstep s s' hx hI
      | ret => trivial
      | fault => trivial
    exact hspec.next run.loop
  have hrefers : PointersRefer con' ↔ AllRefer st.view := by
    have hsaved : con'.request.saved = st.view.saved := hfinish.saved
    unfold PointersRefer AllRefer
    rw [hsaved]
    refine forall₂_congr fun f p => imp_congr_right fun hf => ?_
    have hne : f ≠ .host := by
      rintro rfl
      exact absurd (hend.2.isSaved _ _ hf) (by decide)
    exact exists₂_congr fun i ds => ⟨fun ⟨hl, hn, hr⟩ =>
      ⟨(hfinish.live hend.1.host hne hn).mp hl, hn, hr⟩, fun ⟨hl, hn, hr⟩ =>
      ⟨(hfinish.live hend.1.host hne hn).mpr hl, hn, hr⟩⟩
  rw [hrefers, run.copy, run.trace]
  constructor
  · intro hall
    by_contra hnot
    push Not at hnot
    refine Lost.not_allRefer ?_ hall
    refine @Flow.loop_persists _ _ _ (fun st => ¬ TakesValueAway st.view (lineKind m st))
      (fun st => LoopOk m st ∧ PointersOk st.view) (fun st => Lost st.view) hstep ?_ ?_ _ _ _
      hstart ?_ run.loop
    · intro s s' hx hI hg
      exact (hI.1.next m hx).2.lost hI.2 hI.1.fields (not_not.mp hg)
    · intro s s' hx hI hb
      exact hb.change hI.2 (hI.1.next m hx).2
    · obtain ⟨s, hs, htakes⟩ := hnot
      exact Or.inr ⟨s, hs, not_not.mpr htakes⟩
  · intro hguard
    have hspec : (Flow.loop (headerRound cfg m) (m.length + 1) st₀).Spec
        (fun st => (LoopOk m st ∧ PointersOk st.view) ∧ AllRefer st.view) (fun _ => True) := by
      refine Flow.loop_spec (fun s x hx hg hI => ?_) _ ⟨hstart, ?_⟩ hguard
      · cases x with
        | next s' =>
          exact ⟨hstep s s' hx hI.1,
            hI.2.change hI.1.2 hI.1.1.fields (hI.1.1.next m hx).2 hg⟩
        | ret => trivial
        | fault => trivial
      · intro f p hf
        rw [run.started.saved f] at hf
        cases hf
    exact (hspec.next run.loop).2

end Pointers

/-- The first `Range` has no usable value; the second one is merged into it. -/
def twoRanges : Connection :=
  keptConnection (ascii "GET / HTTP/1.0\r\nRange: x\r\nRange: bytes=0-1\r\n\r\n")

theorem twoRanges_parsed : ∃ ret con' srv' p,
    @httpRequestParse zeroMalloc (serverInit 0) twoRanges = some (ret, con', srv') ∧
      con'.httpStatus = 0 ∧ con'.request.httpRange = some p ∧ p.addr = 1 ∧
        con'.request.headers.elements.map (·.addr) = [0] := by
  have hparse : (@httpRequestParse zeroMalloc (serverInit 0) twoRanges).map
      (fun r => (r.2.1.httpStatus, r.2.1.request.httpRange.map (·.addr),
        r.2.1.request.headers.elements.map (·.addr))) = some (0, some 1, [0]) := by decide +kernel
  obtain ⟨⟨ret, con', srv'⟩, hp, he⟩ := Option.map_eq_some_iff.mp hparse
  obtain ⟨hstatus, he⟩ := Prod.mk.inj he
  obtain ⟨hrange, haddrs⟩ := Prod.mk.inj he
  obtain ⟨p, hrange, haddr⟩ := Option.map_eq_some_iff.mp hrange
  exact ⟨ret, con', srv', p, hp, hstatus, hrange, haddr, haddrs⟩

theorem pointersRefer_iff_twoRanges : ∃ ret con' srv',
    @httpRequestParse zeroMalloc (serverInit 0) twoRanges = some (ret, con', srv') ∧
      (PointersRefer con' ↔ ∀ st ∈ @headerTrace zeroMalloc (serverInit 0) twoRanges,
        ¬ @TakesValueAway zeroMalloc st.view (lineKind (@requestCopy zeroMalloc twoRanges) st)) := by
  obtain ⟨ret, con', srv', -, hp, hs, -⟩ := twoRanges_parsed
  exact ⟨ret, con', srv', hp,
    @pointersRefer_iff zeroMalloc _ _ _ _ _ (ready_keptConnection _) hp hs⟩

theorem not_pointersRefer_twoRanges : ¬ ∀ (mal : Malloc) (srv srv' : Server)
    (con con' : Connection) (ret : Int), Ready con →
      @httpRequestParse mal srv con = some (ret, con', srv') → con'.httpStatus = 0 →
        PointersRefer con' := by
  intro h
  obtain ⟨ret, con', srv', p, hp, hs, hrange, haddr, haddrs⟩ := twoRanges_parsed
  obtain ⟨i, ds, hl, -, he, -⟩ := h zeroMalloc _ _ _ _ _ (ready_keptConnection _) hp hs .range p
    hrange
  have hmem : ds.addr ∈ con'.request.headers.elements.map (·.addr) :=
    List.mem_map_of_mem (Arr.mem_elements.mpr ⟨i, hl⟩)
  rw [haddrs, List.mem_singleton] at hmem
  rw [he] at haddr
  rw [hmem] at haddr
  cases haddr

end Lighttpd

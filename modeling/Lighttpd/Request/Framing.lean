import Lighttpd.Request.Accepted

/-!
# The length of the body and the header that announces it

The value of a `Content-Length` field is checked and converted at the end of its line. A
continuation line that follows is appended to the stored value all the same, and nothing looks at
the value again. So the length the parser goes by and the header that is passed on agree unless
there is such a line.
-/

namespace Lighttpd

open CLib

/-- The framing of an accepted request: `ret` is what the parser returned. -/
structure FramingAgrees (ret : Int) (con : Connection) : Prop where
  present : ∀ ds ∈ con.request.headers.elements, ds.Named .contentLength →
    ∃ d, ds.value.Text d ∧ d ≠ [] ∧ d.all isDigit = true ∧
      con.request.contentLength = digitsValue d ∧ digitsValue d ≤ SSIZE_MAX
  absent : (∀ ds ∈ con.request.headers.elements, ¬ ds.Named .contentLength) →
    con.request.contentLength = 0
  ret : ret = 1 ↔ con.request.contentLength ≠ 0

section Framing

variable [Malloc]

/-- A continuation line is about to be appended to a `Content-Length`. -/
def FoldsContentLength (v : FieldView) (k : LineKind) : Prop :=
  ∃ key value ndx ds, k = .folded key value ∧
    arrayGetElement v.headers key = some (some (ndx, ds)) ∧ ds.Named .contentLength

variable {v v' : FieldView} {k : LineKind}

/-- What the loop knows about the length as long as no such line comes. -/
structure Framing (v : FieldView) : Prop where
  elements : ∀ {i ds}, v.headers.Live i ds → ds.Named .contentLength → v.conLengthSet = true ∧
    ∃ d, ds.value.Text d ∧ d ≠ [] ∧ d.all isDigit = true ∧
      v.contentLength = min (digitsValue d) 4294967295
  unset : v.conLengthSet = false → v.contentLength = 0
  set : v.conLengthSet = true → ∃ i ds, v.headers.Live i ds ∧ ds.Named .contentLength

omit [Malloc] in
theorem Started.framing (h : Started v) : Framing v := by
  refine ⟨?_, fun _ => h.contentLength, ?_⟩
  · intro i ds hl hn
    cases (h.elements hl).unique hn
  · intro hs
    rw [h.conLengthSet] at hs
    cases hs

theorem Framing.keep (h : Framing v) (c : Change v k v') (hset : v'.conLengthSet = v.conLengthSet)
    (hlength : v'.contentLength = v.contentLength)
    (hold : ∀ {i z}, v'.headers.Live i z → z.Named .contentLength → v.headers.Live i z) :
    Framing v' := by
  refine ⟨?_, ?_, ?_⟩
  · intro i z hz hn
    rw [hset, hlength]
    exact h.elements (hold hz hn) hn
  · rw [hset, hlength]
    exact h.unset
  · intro hs
    rw [hset] at hs
    obtain ⟨i, ds, hl, hn⟩ := h.set hs
    obtain ⟨ds', hl', hkept⟩ := c.kept hl
    exact ⟨i, ds', hl', (hkept.named _).mpr hn⟩

theorem Framing.change (h : Framing v) (c : Change v k v') (hk : ¬ FoldsContentLength v k) :
    Framing v' := by
  have c' := c
  cases c with
  | same _ elements => exact h.keep c' rfl rfl fun hz _ => elements.mp hz
  | @folded key value ndx ds kind find live =>
    refine h.keep c' rfl rfl fun hz hn => ?_
    rcases (live_setElement live).mp hz with ⟨rfl, rfl⟩ | ⟨-, hz⟩
    · exact absurd ⟨key, value, _, ds, kind, find, ((kept_append ds value).named _).mp hn⟩ hk
    · exact hz
  | @stored key value ds h₁ h₂ a v₁ kind ne new handled placed slots =>
    obtain ⟨hkey, hvalue⟩ := text_set ds key value
    by_cases hf : knownField key knownFields = some .contentLength
    · rw [hf] at handled
      cases handled with
      | quiet other => exact absurd other (by decide)
      | saved isSaved => exact absurd isSaved (by decide)
      | contentLength unset digits =>
        cases placed with
        | merged _ live named =>
          -- the first `Content-Length` would have set the flag
          have := (h.elements live ((named _).mpr hf)).1
          rw [show v.conLengthSet = false from unset] at this
          cases this
        | appended _ elements =>
          refine ⟨?_, (fun hs => by cases hs), fun _ => ?_⟩
          · intro i z hz hn
            rcases elements.mp hz with ⟨-, rfl⟩ | hz
            · exact ⟨rfl, value, hvalue, ne, digits, rfl⟩
            · have := (h.elements hz hn).1
              rw [show v.conLengthSet = false from unset] at this
              cases this
          · exact ⟨v.headers.used, _, elements.mpr (Or.inl ⟨rfl, rfl⟩), key, hkey, hf⟩
    · have hold : ∀ {i z}, h₂.Live i z → z.Named .contentLength → v.headers.Live i z := by
        intro i z hz hn
        cases placed with
        | merged _ live named kept elements =>
          rcases elements.mp hz with ⟨-, rfl⟩ | ⟨-, hz⟩
          · exact absurd ((named _).mp ((kept.named _).mp hn)) hf
          · exact hz
        | appended _ elements =>
          rcases elements.mp hz with ⟨-, rfl⟩ | hz
          · obtain ⟨k', hk', hn⟩ := hn
            rw [hk'.unique hkey] at hn
            exact absurd hn hf
          · exact hz
      have hsame : v₁.conLengthSet = v.conLengthSet ∧ v₁.contentLength = v.contentLength := by
        generalize knownField key knownFields = f at handled hf
        cases handled with
        | contentLength => exact absurd rfl hf
        | _ => exact ⟨rfl, rfl⟩
      exact h.keep c' hsame.1 hsame.2 hold

def Spoiled (v : FieldView) : Prop :=
  ∃ i ds t, v.headers.Live i ds ∧ ds.Named .contentLength ∧ ds.value.Text t ∧ t.all isDigit = false

omit [Malloc] in
theorem folded_blank {m : Bytes} {st : HeaderState} (h : FoldingOk m st) {key value : Bytes}
    (hk : lineKind m st = .folded key value) : value.all isDigit = false := by
  unfold lineKind at hk
  split at hk
  · split at hk
    · next hf =>
      split at hk
      · cases hk
      · cases hk
        obtain ⟨⟨c, hc, hblank⟩, hlt⟩ := h.blank hf
        have hslice : slice m st.value st.i = c :: slice m (st.value + 1) st.i := by
          have hlen : st.value < (m.take st.i).length := by
            have := (List.getElem?_eq_some_iff.mp hc).1
            rw [List.length_take]
            omega
          unfold slice
          rw [List.drop_eq_getElem_cons hlen, List.getElem_take]
          rw [(List.getElem?_eq_some_iff.mp hc).2]
        have hne : c ≠ 0 ∧ isDigit c = false := by
          unfold isBlank at hblank
          rw [Bool.or_eq_true, beq_iff_eq, beq_iff_eq] at hblank
          rcases hblank with rfl | rfl <;> decide
        rw [hslice, cstr, List.takeWhile_cons_of_pos (by simpa using hne.1), List.all_cons, hne.2]
        rfl
    · cases hk
  · cases hk

theorem Change.spoiled (c : Change v k v') (h : Spoiled v) : Spoiled v' := by
  obtain ⟨i, ds, t, hl, hn, ht, hd⟩ := h
  obtain ⟨ds', hl', hkept⟩ := c.kept hl
  obtain ⟨s, hs⟩ := hkept.value t ht
  refine ⟨i, ds', t ++ s, hl', (hkept.named _).mpr hn, hs, ?_⟩
  rw [List.all_append, hd, Bool.false_and]

theorem Change.spoils {m : Bytes} {st : HeaderState} (h : LoopOk m st)
    (c : Change st.view (lineKind m st) v')
    (hk : FoldsContentLength st.view (lineKind m st)) : Spoiled v' := by
  obtain ⟨key, value, ndx, ds, hkind, hfind, hn⟩ := hk
  have hblank := folded_blank h.folding hkind
  rw [hkind] at c
  cases c with
  | same _ _ _ unfound =>
    rw [unfound key value rfl] at hfind
    cases hfind
  | @folded key' value' ndx' ds' kind find live =>
    cases kind
    rw [find] at hfind
    cases hfind
    obtain ⟨-, t, ht⟩ := h.fields.texts live
    refine ⟨ndx, _, t ++ value, (live_setElement live).mpr (Or.inl ⟨rfl, rfl⟩),
      ((kept_append ds value).named _).mpr hn, (text_bufferAppendString ht value).1, ?_⟩
    rw [List.all_append, hblank, Bool.and_false]
  | stored kind => cases kind

/-- **When the framing agrees with the header**: exactly when no continuation line follows a
`Content-Length`. -/
theorem framingAgrees_iff {srv srv' : Server} {con con' : Connection} {ret : Int} (h : Ready con)
    (hp : httpRequestParse srv con = some (ret, con', srv')) (hs : con'.httpStatus = 0) :
    FramingAgrees ret con' ↔ ∀ st ∈ headerTrace srv con,
      ¬ FoldsContentLength st.view (lineKind (requestCopy con) st) := by
  obtain ⟨m, cfg, st₀, st, run⟩ := acceptedRun h hp hs
  have hfinish := finishRequest_finished run.finish
  have hloopOk : (Flow.loop (headerRound cfg m) (m.length + 1) st₀).Spec (LoopOk m)
      (fun _ => True) := by
    refine Flow.loop_invariant (fun st x hx hst => ?_) _ run.loopOk
    cases x with
    | next st' => exact (hst.next m hx).1
    | ret => trivial
    | fault => trivial
  have hend : LoopOk m st := hloopOk.next run.loop
  rw [run.copy, run.trace]
  constructor
  · intro hagrees
    by_contra hnot
    push Not at hnot
    obtain ⟨i, ds, t, hl, hn, ht, hd⟩ : Spoiled st.view := by
      refine @Flow.loop_persists _ _ _ (fun st => ¬ FoldsContentLength st.view (lineKind m st))
        (LoopOk m) (fun st => Spoiled st.view) (fun s s' hx hI => (hI.next m hx).1) ?_ ?_ _ _ _
        run.loopOk ?_ run.loop
      · intro s s' hx hI hg
        exact (hI.next m hx).2.spoils hI (not_not.mp hg)
      · intro s s' hx hI hb
        exact (hI.next m hx).2.spoiled hb
      · obtain ⟨st, hst, hfold⟩ := hnot
        exact Or.inr ⟨st, hst, not_not.mpr hfold⟩
    have hfinal := (hfinish.live hend.host (by decide) hn).mpr hl
    obtain ⟨d, hd', -, hdigits, -⟩ := hagrees.present ds (Arr.mem_elements.mpr ⟨i, hfinal⟩) hn
    rw [hd'.unique ht, hd] at hdigits
    cases hdigits
  · intro hguard
    have hframing : Framing st.view := by
      have hspec : (Flow.loop (headerRound cfg m) (m.length + 1) st₀).Spec
          (fun st => LoopOk m st ∧ Framing st.view) (fun _ => True) := by
        refine Flow.loop_spec (fun st x hx hg hst => ?_) _ ⟨run.loopOk, run.started.framing⟩ hguard
        cases x with
        | next st' =>
          obtain ⟨hok, hchange⟩ := hst.1.next m hx
          exact ⟨hok, hst.2.change hchange hg⟩
        | ret => trivial
        | fault => trivial
      exact (hspec.next run.loop).2
    have hlength : con'.request.contentLength = st.view.contentLength := hfinish.contentLength
    have hsize : st.view.conLengthSet = true → con'.request.contentLength ≤ 2147483647 :=
      hfinish.size
    have hret := hfinish.ret
    rw [show st.conLengthSet = st.view.conLengthSet from rfl] at hret
    refine ⟨?_, ?_, ?_⟩
    · intro ds hds hn
      obtain ⟨i, hl⟩ := Arr.mem_elements.mp hds
      obtain ⟨hset, d, hd, hne, hdigits, hvalue⟩ :=
        hframing.elements ((hfinish.live hend.host (by decide) hn).mp hl) hn
      have hmax := hsize hset
      rw [hlength, hvalue] at hmax
      rw [hlength, hvalue]
      refine ⟨d, hd, hne, hdigits, ?_, ?_⟩
      · omega
      · unfold SSIZE_MAX
        omega
    · intro hno
      by_contra hne
      rw [hlength] at hne
      cases hset : st.view.conLengthSet with
      | false => exact hne (hframing.unset hset)
      | true =>
        obtain ⟨i, ds, hl, hn⟩ := hframing.set hset
        exact hno ds (Arr.mem_elements.mpr ⟨i, (hfinish.live hend.host (by decide) hn).mpr hl⟩) hn
    · rw [hret]
      cases hset : st.view.conLengthSet with
      | false =>
        have h0 : con'.request.contentLength = 0 := hlength.trans (hframing.unset hset)
        simp [h0]
      | true => simp

end Framing

/-- The length has to be announced for a `POST`. -/
def foldedPost : Connection :=
  keptConnection (ascii "POST / HTTP/1.0\r\nContent-Length: 5\r\n 6\r\n\r\n")

def isFoldedLength (ds : DataString) : Bool :=
  ds.key.bytes == ascii "Content-Length" ++ [0] && ds.key.used == 15 &&
    ds.value.bytes == ascii "5 6" ++ [0] && ds.value.used == 4

theorem foldedPost_parsed : ∃ con' srv',
    @httpRequestParse zeroMalloc (serverInit 0) foldedPost = some (1, con', srv') ∧
      con'.httpStatus = 0 ∧ con'.request.headers.elements.any isFoldedLength = true := by
  have hparse : (@httpRequestParse zeroMalloc (serverInit 0) foldedPost).map
      (fun r => (r.1, r.2.1.httpStatus, r.2.1.request.headers.elements.any isFoldedLength)) =
        some (1, 0, true) := by decide +kernel
  obtain ⟨⟨ret, con', srv'⟩, hp, he⟩ := Option.map_eq_some_iff.mp hparse
  obtain ⟨rfl, he⟩ := Prod.mk.inj he
  obtain ⟨hstatus, hany⟩ := Prod.mk.inj he
  exact ⟨con', srv', hp, hstatus, hany⟩

theorem framingAgrees_iff_folded : ∃ con' srv',
    @httpRequestParse zeroMalloc (serverInit 0) foldedPost = some (1, con', srv') ∧
      (FramingAgrees 1 con' ↔ ∀ st ∈ @headerTrace zeroMalloc (serverInit 0) foldedPost,
        ¬ @FoldsContentLength zeroMalloc st.view
          (lineKind (@requestCopy zeroMalloc foldedPost) st)) := by
  obtain ⟨con', srv', hp, hs, -⟩ := foldedPost_parsed
  exact ⟨con', srv', hp, @framingAgrees_iff zeroMalloc _ _ _ _ _ (ready_keptConnection _) hp hs⟩

theorem not_framingAgrees_folded : ¬ ∀ (mal : Malloc) (srv srv' : Server) (con con' : Connection)
    (ret : Int), Ready con → @httpRequestParse mal srv con = some (ret, con', srv') →
      con'.httpStatus = 0 → FramingAgrees ret con' := by
  intro h
  obtain ⟨con', srv', hp, hs, hany⟩ := foldedPost_parsed
  have hagrees := h zeroMalloc _ _ _ _ _ (ready_keptConnection _) hp hs
  obtain ⟨ds, hds, hfolded⟩ := List.any_eq_true.mp hany
  unfold isFoldedLength at hfolded
  simp only [Bool.and_eq_true, beq_iff_eq] at hfolded
  obtain ⟨⟨⟨hkey, hkused⟩, hvalue⟩, hvused⟩ := hfolded
  have hn : ds.Named .contentLength := ⟨ascii "Content-Length", ⟨hkey, hkused⟩, by decide +kernel⟩
  obtain ⟨d, hd, -, hdigits, -⟩ := hagrees.present ds hds hn
  have hd' : d = ascii "5 6" := hd.unique ⟨hvalue, hvused⟩
  rw [hd'] at hdigits
  revert hdigits
  decide

end Lighttpd

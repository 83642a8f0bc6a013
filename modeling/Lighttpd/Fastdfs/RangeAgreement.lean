import Lighttpd.Fastdfs.Subrequest
import Lighttpd.Range.Satisfied

/-!
# Ranges from memory and from a file

`mod_fastdfs` reads ranges with the code of `mod_staticfile`, but takes `content->used` for the size,
which counts the closing zero. So every number it prints has a total of one too many, and the two
modules agree only where both refuse the first range (`rangesAgree_iff`).
-/

namespace Lighttpd

open CLib MarkedPieces

section Agree

variable [Malloc]

/-- `img_content` after a download; `behind` is what stands in memory behind the file. -/
def loadedContent (file : Bytes) (behind : UInt8) : Buffer :=
  bufferAppendString (bufferCopyMemory bufferInit (some (file ++ [behind]))) (some [])

/-- The results of the two functions: the code, the connection and the text that is printed for the
header. -/
structure RangesAgree (fs : Files) (fastdfs static : Int × RespondingConnection × Buffer) :
    Prop where
  code : fastdfs.1 = static.1
  httpStatus : fastdfs.2.1.httpStatus = static.2.1.httpStatus
  body : fastdfs.2.1.writeQueue.content fs = static.2.1.writeQueue.content fs
  responseLength : fastdfs.2.1.responseLength = static.2.1.responseLength
  printed : static.1 = 0 → fastdfs.2.2.constBufLen = static.2.2.constBufLen

omit [Malloc] in
/-- `mod_fastdfs` refuses the first range. -/
def RefusesFirst (n : Int) (range : Bytes) : Prop :=
  (readParts (n + 1) n (rangePieces range)).1 = [] ∧
    (readParts (n + 1) n (rangePieces range)).2 ≠ none

instance (n : Int) (range : Bytes) : Decidable (RefusesFirst n range) :=
  inferInstanceAs (Decidable (_ ∧ _))

variable {file range : Bytes} {behind : UInt8} {con : RespondingConnection}

theorem loadedContent_used : (loadedContent file behind).used = file.length + 1 ∧
    file.length < (loadedContent file behind).ptr.length := by
  have hne : file ++ [behind] ≠ [] := by simp
  obtain ⟨hused, -, hwf⟩ := bufferCopyMemory_bytes bufferInit hne
  rw [List.length_append, List.length_singleton] at hused
  unfold loadedContent bufferAppendString
  generalize bufferCopyMemory bufferInit (some (file ++ [behind])) = b at hused hwf
  obtain ⟨hprepared, hsize, -⟩ := bufferPrepareAppend_spec hwf 1
  simp only [List.length_nil, Nat.zero_add, List.nil_append, Nat.add_zero]
  generalize bufferPrepareAppend b 1 = p at hprepared hsize
  have hstart : bufferStart p = p := if_neg (by omega)
  simp only [Buffer.size] at hsize
  rw [hstart, length_memcpy (by simp only [List.length_singleton]; omega)]
  omega

/-! ## Reading the first range -/

omit [Malloc] in
theorem readPart_refused {n : Int} {t : Bytes} {refusal : Refusal}
    (h : readPart (n + 1) n t = .error refusal) : readPart n (n - 1) t = .error refusal := by
  unfold readPart at h ⊢
  cases hspec : readSpec t with
  | none => simpa [hspec] using h
  | some spec =>
    rw [hspec] at h
    dsimp only at h ⊢
    cases hlarge : (spec.bounds (n + 1) n).bind (clampPart n) with
    | some p =>
      rw [hlarge] at h
      cases h
    | none =>
      have hsmall : (spec.bounds n (n - 1)).bind (clampPart (n - 1)) = none := by
        cases spec with
        | suffix le =>
          simp only [RangeSpec.bounds] at hlarge ⊢
          split at hlarge
          · next hzero => simp [hzero]
          · next hle =>
            simp only [clampPart, Option.bind_some, if_neg hle, ite_eq_left_iff, reduceCtorEq,
              imp_false, not_not] at hlarge ⊢
            omega
        | bytes la le =>
          simp only [RangeSpec.bounds, clampPart, Option.bind_some, ite_eq_left_iff, reduceCtorEq,
            imp_false, not_not] at hlarge ⊢
          omega
      rw [hlarge] at h
      rw [hsmall]
      exact h

omit [Malloc] in
theorem RefusesFirst.both {n : Int} (h : RefusesFirst n range) :
    ∃ refusal, readParts (n + 1) n (rangePieces range) = ([], some refusal) ∧
      readParts n (n - 1) (rangePieces range) = ([], some refusal) := by
  obtain ⟨hnone, hrefused⟩ := h
  unfold readParts at hnone hrefused ⊢
  cases hpieces : rangePieces range with
  | nil =>
    rw [hpieces] at hrefused
    exact absurd rfl hrefused
  | cons t ts =>
    rw [hpieces] at hnone
    dsimp only at hnone ⊢
    cases hpart : readPart (n + 1) n t with
    | ok p =>
      rw [hpart] at hnone
      cases hnone
    | error refusal => exact ⟨refusal, rfl, by rw [readPart_refused hpart]⟩

/-! ## The parts in the queue -/

/-- A part of the content: the last byte of what is to be appended is not. -/
def memPart (content : Buffer) (p : Int × Int) : QueuedPiece :=
  .text (((content.ptr.drop p.1.toNat).take (partLength p).toNat).take
    (((content.ptr.drop p.1.toNat).take (partLength p).toNat).length - 1))

theorem rangeTarget_fastdfs (hfile : file.length + 1 < 2 ^ 32) :
    (ModFastdfs.rangeTarget (loadedContent file behind)).size = file.length + 1 ∧
      (ModFastdfs.rangeTarget (loadedContent file behind)).last = file.length := by
  obtain ⟨hused, -⟩ := @loadedContent_used _ file behind
  constructor
  · show ((loadedContent file behind).used : Int) = _
    omega
  · show ((sizePred (loadedContent file behind).used : Nat) : Int) = _
    unfold sizePred
    rw [hused]
    omega

theorem sentParts_fastdfs (hfile : file.length + 1 < 2 ^ 32) (contentType : Option Buffer) :
    Sent (ModFastdfs.rangeTarget (loadedContent file behind)) contentType (decide (44 ∈ range))
      (memPart (loadedContent file behind))
      (readParts (file.length + 1) file.length (rangePieces range)).1
      (rangeStart (ModFastdfs.rangeTarget (loadedContent file behind)) con range)
      (sentParts (ModFastdfs.rangeTarget (loadedContent file behind)) con range contentType) := by
  obtain ⟨hused, hlt⟩ := @loadedContent_used _ file behind
  obtain ⟨hsize, hlast⟩ := @rangeTarget_fastdfs _ file behind hfile
  unfold sentParts
  rw [hsize, hlast]
  apply foldl_sendPart_spec _ _ rfl
  intro p hp cq
  obtain ⟨t, -, hpart⟩ := mem_readParts hp
  obtain ⟨h0, h1, h2⟩ := readPart_within hpart
  refine grows_chunkqueueAppendMem cq ?_
  apply List.ne_nil_of_length_pos
  rw [List.length_take, List.length_drop]
  unfold partLength
  omega

/-! ## What is printed -/

omit [Malloc] in
theorem rangeText_size {m n : Int} {p q : Int × Int} {t u : Bytes} (ht : StopsAt 13 t)
    (hu : StopsAt 13 u) (h : rangeText m p ++ t = rangeText n q ++ u) : m = n := by
  have hslash : ∀ p : Int × Int, 47 ∉ decimal p.1 ++ ascii "-" ++ decimal p.2 := by
    intro p hmem
    rw [List.mem_append, List.mem_append] at hmem
    rcases hmem with (h | h) | h
    · exact notMem_decimal rfl (by decide) _ h
    · exact absurd h (by decide)
    · exact notMem_decimal rfl (by decide) _ h
  have hsplit : ∀ (m : Int) (p : Int × Int) (t : Bytes), rangeText m p ++ t =
      (decimal p.1 ++ ascii "-" ++ decimal p.2) ++ 47 :: (decimal m ++ t) := by
    intro m p t
    unfold rangeText
    rw [show ascii "/" = [47] by decide]
    simp only [List.append_assoc, List.cons_append, List.nil_append]
  rw [hsplit, hsplit] at h
  obtain ⟨-, htotal⟩ := append_inj_of_stopsAt (hslash p) (hslash q) (.inr ⟨_, rfl⟩)
    (.inr ⟨_, rfl⟩) h
  obtain ⟨hnumber, -⟩ := append_inj_of_stopsAt (notMem_decimal rfl (by decide) m)
    (notMem_decimal rfl (by decide) n) ht hu (List.cons.inj htotal).2
  exact decimal_injective hnumber

omit [Malloc] in
theorem partHeaderText_size {m n : Int} {p q : Int × Int} {ct ct' : Option Buffer} {t u : Bytes}
    (h : partHeaderText m p ct ++ t = partHeaderText n q ct' ++ u) : m = n := by
  unfold partHeaderText at h
  simp only [List.append_assoc] at h
  exact rangeText_size (.inr ⟨_, rfl⟩) (.inr ⟨_, rfl⟩) (List.append_cancel_left h)

theorem contentRange_size {m n start stop start' stop' : Int} {b b' : Buffer}
    (h : (contentRange m start stop b).constBufLen =
      (contentRange n start' stop' b').constBufLen) : m = n := by
  have htext := text_contentRange m (start, stop) b
  have htext' := text_contentRange n (start', stop') b'
  rw [htext.constBufLen, htext'.constBufLen] at h
  have hparts := List.append_cancel_left (Option.some.inj h)
  have hends : rangeText m (start, stop) ++ [] = rangeText n (start', stop') ++ [] := by
    rwa [List.append_nil, List.append_nil]
  exact rangeText_size (.inl rfl) (.inl rfl) hends

theorem contentRange_ne_multipartType {n start stop : Int} {b b' : Buffer} :
    (contentRange n start stop b).constBufLen ≠ (multipartType b').constBufLen := by
  have htext := text_contentRange n (start, stop) b
  have hmulti := (text_bufferAppendString (text_bufferCopyStringLen b'
    (ascii "multipart/byteranges; boundary=")) boundary).1
  intro h
  have hsame : some _ = some _ := htext.constBufLen.symm.trans (h.trans hmulti.constBufLen)
  have hfirst := congrArg List.head? (Option.some.inj hsame)
  exact absurd hfirst (by rw [show ascii "bytes " = 98 :: ascii "ytes " from rfl]; simp; decide)

omit [Malloc] in
theorem partsBody_ne {fs : Files} {n : Int} {contentType : Option Buffer}
    {piece piece' : Int × Int → QueuedPiece} {ps qs : List (Int × Int)} {t u : Bytes}
    (hps : ps ≠ []) (hqs : qs = [] → u = [])
    (h : ((partsQueue (n + 1) contentType true piece ps).map (QueuedPiece.content fs)).flatten ++ t =
      ((partsQueue n contentType true piece' qs).map (QueuedPiece.content fs)).flatten ++ u) :
    False := by
  obtain ⟨p, ps, rfl⟩ := List.exists_cons_of_ne_nil hps
  have hbody : ∀ (n : Int) (piece : Int × Int → QueuedPiece) (p : Int × Int)
      (ps : List (Int × Int)) (t : Bytes), ∃ rest,
      ((partsQueue n contentType true piece (p :: ps)).map (QueuedPiece.content fs)).flatten ++ t =
        partHeaderText n p contentType ++ rest := by
    intro n piece p ps t
    simp only [partsQueue, partQueue, if_true, List.flatMap_cons, List.cons_append, List.map_cons,
      List.flatten_cons, QueuedPiece.content, List.append_assoc]
    exact ⟨_, rfl⟩
  obtain ⟨rest, hleft⟩ := hbody (n + 1) piece p ps t
  rw [hleft] at h
  cases qs with
  | nil =>
    have hlen := congrArg List.length h
    rw [hqs rfl] at hlen
    simp [partsQueue, partHeaderText, ascii] at hlen
  | cons q qs =>
    obtain ⟨rest', hright⟩ := hbody n piece' q qs u
    rw [hright] at h
    have hsize := partHeaderText_size h
    omega

omit [Malloc] in
theorem length_readParts_lt {size last : Int} {ts : List Bytes}
    (h : (readParts size last ts).2 ≠ none) : (readParts size last ts).1.length < ts.length := by
  induction ts with
  | nil => exact absurd rfl h
  | cons t ts ih =>
    unfold readParts at h ⊢
    cases hpart : readPart size last t with
    | error refusal => simp
    | ok p =>
      rw [hpart] at h
      simpa using ih h

/-! ## The two functions -/

variable {fs : Files} {rangeBuf rangeBuf' : Buffer}
  {fastdfs static : Int × RespondingConnection × Buffer}

theorem rangesAgree_refused (hfile : file.length + 1 < 2 ^ 32)
    (hfast : ModFastdfs.httpResponseParseRange con (loadedContent file behind) range rangeBuf =
      some fastdfs)
    (hstatic : ModStaticfile.httpResponseParseRange con file.length range rangeBuf' = some static)
    (h : RefusesFirst file.length range) : RangesAgree fs fastdfs static := by
  obtain ⟨found, -, houtcome⟩ := parseRange_outcome hfast
  obtain ⟨found', -, houtcome'⟩ := parseRange_outcome hstatic
  obtain ⟨hsize, hlast⟩ := @rangeTarget_fastdfs _ file behind hfile
  obtain ⟨refusal, hparts, hparts'⟩ := h.both
  have hread : readParts (ModFastdfs.rangeTarget (loadedContent file behind)).size
      (ModFastdfs.rangeTarget (loadedContent file behind)).last (rangePieces range) =
        ([], some refusal) := by rw [hsize, hlast, hparts]
  have hread' : readParts (ModStaticfile.rangeTarget con.physicalPath file.length).size
      (ModStaticfile.rangeTarget con.physicalPath file.length).last (rangePieces range) =
        ([], some refusal) := hparts'
  cases houtcome with
  | single good => exact nomatch (congrArg Prod.snd hread).symm.trans good
  | multipart good => exact nomatch (congrArg Prod.snd hread).symm.trans good
  | refused bad =>
    cases houtcome' with
    | single good => exact nomatch (congrArg Prod.snd hread').symm.trans good
    | multipart good => exact nomatch (congrArg Prod.snd hread').symm.trans good
    | refused bad' =>
      obtain rfl := Option.some.inj (bad.symm.trans (congrArg Prod.snd hread))
      obtain rfl := Option.some.inj (bad'.symm.trans (congrArg Prod.snd hread'))
      have hnone := @sentParts_none _ _ con _ (found.map (·.2.value)) (congrArg Prod.fst hread)
      have hnone' := @sentParts_none _ _ con _ (found'.map (·.2.value)) (congrArg Prod.fst hread')
      refine ⟨rfl, ?_, ?_, ?_, nofun⟩
      · dsimp only
      · simp only [hnone, hnone', rangeStart]
      · simp only [hnone, hnone', rangeStart]

omit [Malloc] in
theorem comma_of_readParts {size last : Int} (hne : (readParts size last (rangePieces range)).1 ≠ [])
    (hbad : (readParts size last (rangePieces range)).2 ≠ none) : 44 ∈ range := by
  by_contra hc
  have hlt := length_readParts_lt hbad
  have hle := length_rangePieces hc
  exact hne (List.length_eq_zero_iff.mp (by omega))

omit [Malloc] in
theorem sent_body_ne (fs : Files) (t u : Bytes) {target target' : RangeTarget} {contentType : Option Buffer}
    {piece piece' : Int × Int → QueuedPiece} {ps qs : List (Int × Int)}
    {st st₁ st' st₁' : RangeState} {n : Int}
    (h : Sent target contentType true piece ps st st₁)
    (h' : Sent target' contentType true piece' qs st' st₁') (hsize : target.size = n + 1)
    (hsize' : target'.size = n) (hstart : st.writeQueue = st'.writeQueue) (hps : ps ≠ [])
    (hqs : qs = [] → u = [])
    (hbody : st₁.writeQueue.content fs ++ t = st₁'.writeQueue.content fs ++ u) : False := by
  rw [h.queue.content fs, h'.queue.content fs, hstart, hsize, hsize', List.append_assoc,
    List.append_assoc] at hbody
  exact partsBody_ne hps hqs (List.append_cancel_left hbody)

theorem rangesDiffer (hfile : file.length + 1 < 2 ^ 32)
    (hfast : ModFastdfs.httpResponseParseRange con (loadedContent file behind) range rangeBuf =
      some fastdfs)
    (hstatic : ModStaticfile.httpResponseParseRange con file.length range rangeBuf' = some static)
    (h : ¬ RefusesFirst file.length range) : ¬ RangesAgree fs fastdfs static := by
  intro hagree
  obtain ⟨found, hfound, houtcome⟩ := parseRange_outcome hfast
  obtain ⟨found', hfound', houtcome'⟩ := parseRange_outcome hstatic
  obtain rfl := Option.some.inj (hfound.symm.trans hfound')
  obtain ⟨hsize, hlast⟩ := @rangeTarget_fastdfs _ file behind hfile
  have hsent := @sentParts_fastdfs _ file range behind con hfile (found.map (·.2.value))
  have hsent' := sentParts_static con file.length range (found.map (·.2.value))
  cases houtcome with
  | refused bad =>
    cases houtcome' with
    | single => exact nomatch (show (-1 : Int) = 0 from hagree.code)
    | multipart => exact nomatch (show (-1 : Int) = 0 from hagree.code)
    | refused bad' =>
      rw [hsize, hlast] at bad
      have hbad : (readParts (file.length + 1) file.length (rangePieces range)).2 ≠ none := by
        rw [bad]
        exact nofun
      have hne : (readParts (file.length + 1) file.length (rangePieces range)).1 ≠ [] :=
        fun hnil => h ⟨hnil, hbad⟩
      rw [decide_eq_true (comma_of_readParts hne hbad)] at hsent hsent'
      refine sent_body_ne fs [] [] hsent hsent' hsize rfl rfl hne (fun _ => rfl) ?_
      rw [List.append_nil, List.append_nil]
      exact hagree.body
  | single good sends one inserted =>
    cases houtcome' with
    | refused => exact nomatch (show (0 : Int) = -1 from hagree.code)
    | single =>
      have hsame := contentRange_size (hagree.printed rfl)
      rw [hsize] at hsame
      exact absurd hsame (by show (file.length : Int) + 1 ≠ file.length; omega)
    | multipart => exact contentRange_ne_multipartType (hagree.printed rfl)
  | multipart good sends several overwritten =>
    cases houtcome' with
    | refused => exact nomatch (show (0 : Int) = -1 from hagree.code)
    | single => exact contentRange_ne_multipartType (hagree.printed rfl).symm
    | multipart good' sends' several' overwritten' =>
      rw [sends] at hsent
      rw [sends'] at hsent'
      have hmulti := hsent.multipart
      have hmulti' := hsent'.multipart
      rw [several] at hmulti
      rw [several'] at hmulti'
      have hne : (readParts (file.length + 1) file.length (rangePieces range)).1 ≠ [] := by
        intro hnil
        rw [if_pos hnil] at hmulti
        exact nomatch hmulti
      have hne' : (readParts file.length (file.length - 1) (rangePieces range)).1 ≠ [] := by
        intro hnil
        rw [if_pos hnil] at hmulti'
        exact nomatch hmulti'
      rw [if_neg hne] at hmulti
      rw [← hmulti] at hsent hsent'
      refine sent_body_ne fs boundaryEndText boundaryEndText hsent hsent' hsize rfl rfl hne
        (fun hnil => absurd hnil hne') ?_
      have hend : ∀ st : RangeState, (queueText boundaryEnd st).writeQueue.content fs =
          st.writeQueue.content fs ++ boundaryEndText := by
        intro st
        rw [(queueText_spec text_boundaryEnd st).1.content fs]
        exact congrArg (_ ++ ·) (List.append_nil _)
      rw [← hend, ← hend]
      exact hagree.body

/-- **The two functions agree** exactly if `mod_fastdfs` refuses the first range. -/
theorem rangesAgree_iff (fs : Files) (hfile : file.length + 1 < 2 ^ 32)
    (hfast : ModFastdfs.httpResponseParseRange con (loadedContent file behind) range rangeBuf =
      some fastdfs)
    (hstatic : ModStaticfile.httpResponseParseRange con file.length range rangeBuf' =
      some static) :
    RangesAgree fs fastdfs static ↔ RefusesFirst file.length range :=
  ⟨fun hagree => not_not.mp fun h => rangesDiffer hfile hfast hstatic h hagree,
    rangesAgree_refused hfile hfast hstatic⟩

end Agree

/-! ## Examples -/

/-- A range behind the end is refused by both. -/
theorem rangesAgree_iff_behind : letI : Malloc := zeroMalloc
    ∃ fastdfs static, ModFastdfs.httpResponseParseRange (respondingConnection (ascii "/a"))
        (loadedContent (ascii "12345") 0) (ascii "9-") bufferInit = some fastdfs ∧
      ModStaticfile.httpResponseParseRange (respondingConnection (ascii "/a")) 5 (ascii "9-")
        bufferInit = some static ∧
      RangesAgree ⟨[(ascii "/a", ascii "12345")], []⟩ fastdfs static := by
  let _ : Malloc := zeroMalloc
  obtain ⟨fastdfs, hfast⟩ := Option.isSome_iff_exists.mp
    (show (ModFastdfs.httpResponseParseRange (respondingConnection (ascii "/a"))
      (loadedContent (ascii "12345") 0) (ascii "9-") bufferInit).isSome by decide +kernel)
  obtain ⟨static, hstatic⟩ := Option.isSome_iff_exists.mp
    (show (ModStaticfile.httpResponseParseRange (respondingConnection (ascii "/a"))
      (ascii "12345").length (ascii "9-") bufferInit).isSome by decide +kernel)
  exact ⟨fastdfs, static, hfast, hstatic,
    (rangesAgree_iff ⟨[(ascii "/a", ascii "12345")], []⟩ (by decide) hfast hstatic).mpr
      (by decide)⟩

/-- The first two bytes: `mod_fastdfs` sends one of them, and prints a total of 6. -/
theorem not_rangesAgree_two : letI : Malloc := zeroMalloc
    ∃ fastdfs static, ModFastdfs.httpResponseParseRange (respondingConnection (ascii "/a"))
        (loadedContent (ascii "12345") 0) (ascii "0-1") bufferInit = some fastdfs ∧
      ModStaticfile.httpResponseParseRange (respondingConnection (ascii "/a")) 5 (ascii "0-1")
        bufferInit = some static ∧
      ¬ RangesAgree ⟨[(ascii "/a", ascii "12345")], []⟩ fastdfs static := by
  let _ : Malloc := zeroMalloc
  obtain ⟨fastdfs, hfast⟩ := Option.isSome_iff_exists.mp
    (show (ModFastdfs.httpResponseParseRange (respondingConnection (ascii "/a"))
      (loadedContent (ascii "12345") 0) (ascii "0-1") bufferInit).isSome by decide +kernel)
  obtain ⟨static, hstatic⟩ := Option.isSome_iff_exists.mp
    (show (ModStaticfile.httpResponseParseRange (respondingConnection (ascii "/a"))
      (ascii "12345").length (ascii "0-1") bufferInit).isSome by decide +kernel)
  exact ⟨fastdfs, static, hfast, hstatic, rangesDiffer (by decide) hfast hstatic (by decide)⟩

end Lighttpd

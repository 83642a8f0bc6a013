import Lighttpd.StatCacheHistory
import Lighttpd.Staticfile.Subrequest
import Lighttpd.Plugins.Compress

/-!
# The callers of `etag_mutate`

`etag_mutate` reads `used - 1` bytes, and `used` has no sign: a buffer that was never filled is read
far behind its end. The buffers come from the entries of the cache, which stay empty as long as all
settings of the entity tag are off. Each caller has its own guard (`EtagUser.etags`):
`mod_staticfile` and `mod_compress` look at the buffer, `mod_ssi` does not. So the calls are safe
exactly if the entry is known to be filled or `mod_ssi` does not ask for it (`etagsInside_iff`).
-/

namespace Lighttpd

open CLib

/-- `etag_use_inode`, `etag_use_mtime` and `etag_use_size`. -/
structure EtagSettings where
  useInode : Bool
  useMtime : Bool
  useSize : Bool
  deriving DecidableEq, Repr

/-- `con->etag_flags` -/
def EtagSettings.flags (s : EtagSettings) : Nat :=
  (if s.useMtime then ETAG_USE_MTIME else 0) ||| (if s.useInode then ETAG_USE_INODE else 0) |||
    (if s.useSize then ETAG_USE_SIZE else 0)

section Code

variable [Malloc] (lib : TimeLib) (env : CompressEnv)

/-- The end of `mod_ssi_handle_request`: the headers, for the plugin with this number, its
`p->conf.content_type`, `include_file_last_mtime` and the answer of `stat_cache_get_entry`. It is
`none` also for an error of the cache, since the pointer is used all the same. -/
def ssiHeaders (pId : Nat) (contentType : Buffer) (includeFileLastMtime : Int)
    (entry : Option StatCacheEntry) (srv : Server) (con : BackendConnection) :
    Option (Server × BackendConnection) := do
  let con := { con with fileStarted := true, fileFinished := true, mode := pId }
  let con ← con.overwriteHeader (ascii "Content-Type")
    (if contentType.used ≤ 1 then some (ascii "text/html") else contentType.constBufLen)
  let sce ← entry
  let con := { con with etag := etagMutate con.etag sce.etag }
  let con ← con.overwriteHeader (ascii "ETag") con.etag.constBufLen
  let lmTime :=
    if sce.st.stMtime > includeFileLastMtime then sce.st.stMtime else includeFileLastMtime
  let (cache, mtime) ← strftimeCacheGet srv.mtimeCache lmTime
  let con ← con.overwriteHeader (ascii "Last-Modified") mtime.constBufLen
  some ({ srv with mtimeCache := cache },
    { con with physicalPath := bufferReset con.physicalPath })

/-! ## The buffers that are passed -/

/-- By `mod_ssi`. -/
def ssiEtags (sce : StatCacheEntry) : List Buffer := [sce.etag]

/-- By `mod_staticfile`. -/
def staticfileEtags (conf : StaticfileConf) (con : RespondingConnection) (sce : StatCacheEntry) :
    List Buffer :=
  if conf.etagsUsed ∧ conf.etagFlags ≠ 0 ∧ ¬ bufferIsEmpty sce.etag then
    match arrayGetElement con.response.headers (ascii "ETag") with
    | some none => [sce.etag]
    | _ => []
  else []

/-- The copy in `srv->tmp_buf`, with the name of the compression. -/
def compressedEtag (tmpBuf : Buffer) (sce : StatCacheEntry) (matched : Nat) : Buffer :=
  let tmpBuf := bufferCopyStringBuffer tmpBuf sce.etag
  let tmpBuf := bufferAppendStringLen tmpBuf (some (ascii "-"))
  bufferAppendString tmpBuf (selectEncoding matched).2

/-- By `mod_compress`: the original one, and if that does not finish the request the other one. -/
def compressEtags (con : BackendConnection) (sce : StatCacheEntry) (matched : Nat)
    (mtime : Buffer) : List Buffer :=
  if useEtag sce then
    let con := { con with etag := etagMutate con.etag sce.etag }
    match con.handleCachable lib env mtime with
    | (.finished, _) => [sce.etag]
    | (_, con) => [sce.etag, compressedEtag con.tmpBuf sce matched]
  else []

inductive EtagUser where
  | ssi
  | staticfile (conf : StaticfileConf) (con : RespondingConnection)
  | compress (lib : TimeLib) (env : CompressEnv) (con : BackendConnection) (matched : Nat)
      (mtime : Buffer)

def EtagUser.etags (sce : StatCacheEntry) : EtagUser → List Buffer
  | .ssi => ssiEtags sce
  | .staticfile conf con => staticfileEtags conf con sce
  | .compress lib env con matched mtime => compressEtags lib env con sce matched mtime

end Code

section Passed

variable [Malloc] {lib : TimeLib} {env : CompressEnv} {con con' : BackendConnection}

theorem etag_overwriteHeader {key : Bytes} {value : Option Bytes}
    (h : con.overwriteHeader key value = some con') : con'.etag = con.etag := by
  obtain ⟨headers, -, rfl⟩ := Option.map_eq_some_iff.mp h
  rfl

omit [Malloc] in
theorem etag_handleCachable (con : BackendConnection) (mtime : Buffer) :
    (con.handleCachable lib env mtime).2.etag = con.etag ∧
      (con.handleCachable lib env mtime).2.tmpBuf = con.tmpBuf := by
  have h := handleCachable_outcome lib con.toRespondingConnection env.conditions mtime
  unfold BackendConnection.handleCachable
  dsimp only
  generalize (httpResponseHandleCachable lib con.toRespondingConnection env.conditions mtime).2 = c
    at h ⊢
  cases h with
  | same => exact ⟨rfl, rfl⟩
  | notModified => exact ⟨rfl, rfl⟩
  | failed => exact ⟨rfl, rfl⟩

theorem etag_ssiHeaders {pId : Nat} {contentType : Buffer} {last : Int} {sce : StatCacheEntry}
    {srv srv' : Server}
    (h : ssiHeaders pId contentType last (some sce) srv con = some (srv', con')) :
    con'.etag = (ssiEtags sce).foldl etagMutate con.etag := by
  unfold ssiHeaders at h
  simp only [Option.bind_eq_bind, Option.bind_some, Option.bind_eq_some_iff] at h
  obtain ⟨con₁, htype, con₂, hetag, ⟨cache, mtime⟩, -, con₃, hmodified, h⟩ := h
  obtain ⟨-, rfl⟩ := Prod.mk.inj (Option.some.inj h)
  have h₁ := etag_overwriteHeader htype
  have h₂ := etag_overwriteHeader hetag
  have h₃ := etag_overwriteHeader hmodified
  show con₃.etag = etagMutate con.etag sce.etag
  dsimp only at h₁ h₂
  rw [h₃, h₂, h₁]

theorem etag_staticEtag {conf : StaticfileConf} {con con' : RespondingConnection}
    {sce : StatCacheEntry} (h : staticEtag conf con sce = some con') :
    con'.etag = (staticfileEtags conf con sce).foldl etagMutate con.etag := by
  unfold staticEtag at h
  unfold staticfileEtags
  by_cases hguard : conf.etagsUsed ∧ conf.etagFlags ≠ 0 ∧ ¬ bufferIsEmpty sce.etag
  · simp only [if_pos hguard, Option.bind_eq_bind, Option.bind_eq_some_iff] at h ⊢
    obtain ⟨found, hfound, h⟩ := h
    rw [hfound]
    cases found with
    | some ds =>
      obtain rfl := Option.some.inj h
      rfl
    | none =>
      simp only [Option.bind_eq_some_iff] at h
      obtain ⟨headers, -, h⟩ := h
      obtain rfl := Option.some.inj h
      rfl
  · rw [if_neg hguard] at h ⊢
    obtain rfl := Option.some.inj h
    rfl

def CompressPlan.connection : CompressPlan → BackendConnection
  | .done _ _ con => con
  | .deflate _ con _ _ _ _ => con

theorem etag_compressedValidators {srv : Server} {sce : StatCacheEntry} {matched : Nat}
    {mtime : Buffer} {plan : CompressPlan}
    (h : compressedValidators lib env srv con sce matched mtime = some plan) :
    plan.connection.etag =
      if useEtag sce then etagMutate con.etag (compressedEtag con.tmpBuf sce matched)
      else con.etag := by
  unfold compressedValidators at h
  dsimp only at h
  generalize hnext : (if useEtag sce = true then _ else con : BackendConnection) = next at h
  have hetag : next.etag =
      if useEtag sce then etagMutate con.etag (compressedEtag con.tmpBuf sce matched)
      else con.etag := by
    rw [← hnext]
    split <;> rfl
  have hkeeps := (@etag_handleCachable lib env next mtime).1
  cases hcheck : next.handleCachable lib env mtime with
  | mk r con₁ =>
    rw [hcheck] at h hkeeps
    have hfirst : con₁.etag = next.etag := hkeeps
    rw [← hetag, ← hfirst]
    cases r with
    | finished =>
      simp only [Option.bind_eq_bind, Option.bind_eq_some_iff] at h
      obtain ⟨con₂, hencoding, con₃, htype, con₄, hmodified, con₅, hlast, h⟩ := h
      obtain rfl := Option.some.inj h
      obtain ⟨name, -, hname⟩ := Option.bind_eq_some_iff.mp hencoding
      have h₅ : con₅.etag = con₄.etag := by
        unfold etagHeader at hlast
        split at hlast
        · exact etag_overwriteHeader hlast
        · exact congrArg (·.etag) (Option.some.inj hlast).symm
      show con₅.etag = con₁.etag
      rw [h₅, etag_overwriteHeader hmodified, etag_overwriteHeader htype,
        etag_overwriteHeader hname]
    | _ =>
      obtain rfl := Option.some.inj h
      rfl

theorem etag_originalValidators {srv : Server} {sce : StatCacheEntry} {matched : Nat}
    {plan : CompressPlan} (h : originalValidators lib env srv con sce matched = some plan) :
    ∃ cache mtime, strftimeCacheGet srv.mtimeCache sce.st.stMtime = some (cache, mtime) ∧
      plan.connection.etag =
        (compressEtags lib env con sce matched mtime).foldl etagMutate con.etag := by
  unfold originalValidators at h
  simp only [Option.bind_eq_bind, Option.bind_eq_some_iff] at h
  obtain ⟨⟨cache, mtime⟩, htime, h⟩ := h
  refine ⟨cache, mtime, htime, ?_⟩
  unfold compressEtags
  dsimp only at h ⊢
  by_cases huse : useEtag sce = true
  · rw [if_pos huse] at h ⊢
    generalize hnext :
      ({ con with etag := etagMutate con.etag sce.etag } : BackendConnection) = next at h ⊢
    have hetag : next.etag = etagMutate con.etag sce.etag := by rw [← hnext]
    have hkeeps := (@etag_handleCachable lib env next mtime).1
    cases hcheck : next.handleCachable lib env mtime with
    | mk r con₁ =>
      rw [hcheck] at h hkeeps
      have hfirst : con₁.etag = next.etag := hkeeps
      cases r with
      | finished =>
        simp only [Option.bind_eq_some_iff] at h
        obtain ⟨con₂, htype, con₃, hmodified, con₄, hlast, h⟩ := h
        obtain rfl := Option.some.inj h
        show con₄.etag = etagMutate con.etag sce.etag
        rw [etag_overwriteHeader hlast, etag_overwriteHeader hmodified, etag_overwriteHeader htype,
          hfirst, hetag]
      | _ =>
        have h₂ := etag_compressedValidators h
        rw [if_pos huse] at h₂
        rw [h₂, hfirst, hetag]
        rfl
  · rw [if_neg huse] at h ⊢
    have h₁ := etag_compressedValidators h
    rw [if_neg huse] at h₁
    exact h₁

end Passed

section Entries

variable [Malloc]

def EtagHeld (etag : Buffer) : Prop := etag.ptr = [] ∨ 1 ≤ etag.used

omit [Malloc] in
theorem one_le_used {b : Buffer} {t : Bytes} (h : b.Text t) : 1 ≤ b.used := by
  rw [h.used]
  omega

theorem used_etagCreate {settings : EtagSettings} (h : settings.flags ≠ 0) (etag : Buffer)
    (st : Stat) : 1 ≤ (etagCreate etag st settings.flags).used := by
  have hpart : ∀ {b : Buffer} (c : Prop) [Decidable c] (v : Int), (∃ t, b.Shows t) →
      (c ∨ 1 ≤ b.used → 1 ≤ (if c then
        bufferAppendStringLen (bufferAppendOffT b v) (some (ascii "-")) else b).used) ∧
      ∃ t, (if c then
        bufferAppendStringLen (bufferAppendOffT b v) (some (ascii "-")) else b).Shows t := by
    rintro b c _ v ⟨t, ht⟩
    by_cases hc : c
    · rw [if_pos hc]
      have htext := text_bufferAppendStringLen (text_bufferAppendLong_shows ht v) (ascii "-")
      exact ⟨fun _ => one_le_used htext, _, .inl htext⟩
    · rw [if_neg hc]
      exact ⟨fun hor => hor.resolve_left hc, t, ht⟩
  unfold etagCreate
  rw [if_neg h]
  dsimp only
  obtain ⟨hino, hshows⟩ := hpart (settings.flags &&& ETAG_USE_INODE ≠ 0) st.stIno
    ⟨[], shows_bufferReset etag⟩
  obtain ⟨hsize, t, ht⟩ := hpart (settings.flags &&& ETAG_USE_SIZE ≠ 0) st.stSize hshows
  by_cases hmtime : settings.flags &&& ETAG_USE_MTIME ≠ 0
  · rw [if_pos hmtime]
    exact one_le_used (text_bufferAppendLong_shows ht _)
  · rw [if_neg hmtime]
    apply hsize
    -- without the time one of the other two is asked for
    obtain ⟨useInode, useMtime, useSize⟩ := settings
    cases useInode with
    | true => exact .inr (hino (.inl (by cases useMtime <;> cases useSize <;> decide)))
    | false =>
      cases useSize with
      | true => exact .inl (by cases useMtime <;> decide)
      | false =>
        cases useMtime with
        | true => exact absurd (by decide) hmtime
        | false => exact absurd rfl h

def FillsEtag (settings : EtagSettings) (st : Stat) : Prop :=
  settings.flags ≠ 0 ∧ (S_ISREG st.stMode ∨ S_ISDIR st.stMode)

variable {fs : DiskAnswers} {mimetypes : Arr DataString} {settings : EtagSettings}
  {followSymlink : Bool} {curTs : Int} {name : Buffer} {st : Stat} {sce : StatCacheEntry}

theorem etag_refresh_of_fills (h : FillsEtag settings st) :
    1 ≤ (refresh fs ⟨mimetypes, settings.flags⟩ followSymlink curTs name st sce).etag.used := by
  obtain ⟨hflags, htype⟩ := h
  unfold refresh
  dsimp only
  by_cases hreg : S_ISREG st.stMode = true
  · rw [if_pos hreg]
    exact used_etagCreate hflags _ _
  · rw [if_neg hreg, if_pos (htype.resolve_left hreg)]
    exact used_etagCreate hflags _ _

theorem etag_refresh_of_not_fills (h : ¬ FillsEtag settings st) :
    (refresh fs ⟨mimetypes, settings.flags⟩ followSymlink curTs name st sce).etag = sce.etag := by
  have hoff : S_ISREG st.stMode ∨ S_ISDIR st.stMode → settings.flags = 0 := fun htype => by
    by_contra hflags
    exact h ⟨hflags, htype⟩
  have hsame : settings.flags = 0 → etagCreate sce.etag st settings.flags = sce.etag := fun h0 => by
    unfold etagCreate
    rw [if_pos h0]
  unfold refresh
  dsimp only
  by_cases hreg : S_ISREG st.stMode = true
  · rw [if_pos hreg]
    exact hsame (hoff (.inl hreg))
  · rw [if_neg hreg]
    by_cases hdir : S_ISDIR st.stMode = true
    · rw [if_pos hdir]
      exact hsame (hoff (.inr hdir))
    · rw [if_neg hdir]

theorem used_etag_refresh :
    1 ≤ (refresh fs ⟨mimetypes, settings.flags⟩ followSymlink curTs name st sce).etag.used ↔
      FillsEtag settings st ∨ 1 ≤ sce.etag.used := by
  by_cases h : FillsEtag settings st
  · exact ⟨fun _ => .inl h, fun _ => etag_refresh_of_fills h⟩
  · rw [etag_refresh_of_not_fills h]
    exact ⟨.inr, fun hor => hor.resolve_left h⟩

theorem EtagHeld.refresh (h : EtagHeld sce.etag) :
    EtagHeld
      (Lighttpd.refresh fs ⟨mimetypes, settings.flags⟩ followSymlink curTs name st sce).etag := by
  by_cases hfills : FillsEtag settings st
  · exact .inr (etag_refresh_of_fills hfills)
  · rw [etag_refresh_of_not_fills hfills]
    exact h

def fileNdx (sc : StatCache) (followSymlink : Bool) (name : Buffer) : Nat :=
  hashme (hashBuffer sc.hashKey name followSymlink).str

structure WrittenAgain (fs : DiskAnswers) (conf : StatConf) (followSymlink : Bool) (curTs : Int)
    (sc : StatCache) (name : Buffer) (before sce : StatCacheEntry) (st : Stat) (sc' : StatCache) :
    Prop where
  statFile : statFile fs name = some st
  entry : sce = refresh fs conf followSymlink curTs name st before
  files : sc'.files = fun ndx => if ndx = fileNdx sc followSymlink name then some sce
    else sc.files ndx

variable {conf : StatConf} {sc sc' : StatCache} {r : Option StatCacheEntry}

theorem statCacheUpdate_cases {before : StatCacheEntry} {hashKey : Buffer}
    (h : statCacheUpdate fs conf followSymlink curTs { sc with hashKey := hashKey }
      (fileNdx sc followSymlink name) name before = (r, sc')) :
    r = none ∧ sc'.files = sc.files ∨
      ∃ sce st, r = some sce ∧
        WrittenAgain fs conf followSymlink curTs sc name before sce st sc' := by
  unfold statCacheUpdate at h
  cases hst : Lighttpd.statFile fs name with
  | none =>
    rw [hst] at h
    obtain ⟨rfl, rfl⟩ := Prod.mk.inj h
    exact .inl ⟨rfl, rfl⟩
  | some st =>
    rw [hst] at h
    obtain ⟨rfl, rfl⟩ := Prod.mk.inj h
    exact .inr ⟨_, st, rfl, hst, rfl, rfl⟩

def OfThisSecond (curTs : Int) (name : Buffer) (sce : StatCacheEntry) : Prop :=
  bufferIsEqual name sce.name = true ∧ sce.statTs = curTs

/-- **What a call can do**: nothing was found out; the entry of this second is there; or it is
written, for the first time or again. -/
theorem statCacheGetEntry_cases
    (h : statCacheGetEntry fs conf followSymlink curTs sc name = (r, sc')) :
    r = none ∧ sc'.files = sc.files ∨
      (∃ sce, r = some sce ∧ sc.files (fileNdx sc followSymlink name) = some sce ∧
        OfThisSecond curTs name sce ∧ sc'.files = sc.files) ∨
      (∃ before sce st, r = some sce ∧ sc.files (fileNdx sc followSymlink name) = none ∧
        before.etag = bufferInit ∧
        WrittenAgain fs conf followSymlink curTs sc name before sce st sc') ∨
      ∃ before sce st, r = some sce ∧ sc.files (fileNdx sc followSymlink name) = some before ∧
        ¬ OfThisSecond curTs name before ∧
        WrittenAgain fs conf followSymlink curTs sc name before sce st sc' := by
  unfold statCacheGetEntry at h
  dsimp only at h
  rw [show hashme (hashBuffer sc.hashKey name followSymlink).str =
    fileNdx sc followSymlink name from rfl] at h
  cases hfound : sc.files (fileNdx sc followSymlink name) with
  | none =>
    rw [hfound] at h
    rcases statCacheUpdate_cases h with hnone | ⟨sce, st, hr, hwritten⟩
    · exact .inl hnone
    · exact .inr (.inr (.inl ⟨_, sce, st, hr, rfl, rfl, hwritten⟩))
  | some before =>
    rw [hfound] at h
    dsimp only at h
    by_cases hkept : OfThisSecond curTs name before
    · rw [if_pos hkept.1, if_pos hkept.2] at h
      obtain ⟨rfl, rfl⟩ := Prod.mk.inj h
      exact .inr (.inl ⟨before, rfl, rfl, hkept, rfl⟩)
    · have hagain : statCacheUpdate fs conf followSymlink curTs
          { sc with hashKey := hashBuffer sc.hashKey name followSymlink }
          (fileNdx sc followSymlink name) name before = (r, sc') := by
        by_cases hname : bufferIsEqual name before.name = true
        · rw [if_pos hname, if_neg fun hts => hkept ⟨hname, hts⟩] at h
          exact h
        · rw [if_neg hname] at h
          exact h
      rcases statCacheUpdate_cases hagain with hnone | ⟨sce, st, hr, hwritten⟩
      · exact .inl hnone
      · exact .inr (.inr (.inr ⟨before, sce, st, hr, rfl, hkept, hwritten⟩))

/-- The caches that are left by calls for any files, under any settings, and by the cleanup. -/
inductive CachesLeft : StatCache → Prop
  | init : CachesLeft statCacheInit
  | call {sc : StatCache} (before : CachesLeft sc) (fs : DiskAnswers) (mimetypes : Arr DataString)
      (settings : EtagSettings) (followSymlink : Bool) (curTs : Int) (name : Buffer) :
      CachesLeft (statCacheGetEntry fs ⟨mimetypes, settings.flags⟩ followSymlink curTs sc name).2
  | cleanup {sc : StatCache} (before : CachesLeft sc) (curTs : Int) :
      CachesLeft (statCacheTriggerCleanup curTs sc)

def EtagsHeld (sc : StatCache) : Prop := ∀ ndx sce, sc.files ndx = some sce → EtagHeld sce.etag

theorem EtagsHeld.getEntry (h : EtagsHeld sc)
    (hrun : statCacheGetEntry fs ⟨mimetypes, settings.flags⟩ followSymlink curTs sc name =
      (r, sc')) :
    (∀ sce, r = some sce → EtagHeld sce.etag) ∧ EtagsHeld sc' := by
  have hsame : sc'.files = sc.files → EtagsHeld sc' := fun hfiles ndx sce hget =>
    h ndx sce (hfiles ▸ hget)
  have hwritten : ∀ {before sce st}, EtagHeld before.etag →
      WrittenAgain fs ⟨mimetypes, settings.flags⟩ followSymlink curTs sc name before sce st sc' →
        EtagHeld sce.etag ∧ EtagsHeld sc' := by
    intro before sce st hbefore hw
    have hsce : EtagHeld sce.etag := hw.entry ▸ hbefore.refresh
    refine ⟨hsce, fun ndx sce' hget => ?_⟩
    rw [hw.files] at hget
    dsimp only at hget
    split at hget
    · exact Option.some.inj hget ▸ hsce
    · exact h ndx sce' hget
  rcases statCacheGetEntry_cases hrun with ⟨rfl, hfiles⟩ | ⟨sce, rfl, hget, -, hfiles⟩ |
    ⟨before, sce, st, rfl, -, hinit, hw⟩ | ⟨before, sce, st, rfl, hget, -, hw⟩
  · exact ⟨nofun, hsame hfiles⟩
  · exact ⟨fun sce' he => Option.some.inj he ▸ h _ sce hget, hsame hfiles⟩
  · have := hwritten (.inl (by rw [hinit]; rfl)) hw
    exact ⟨fun sce' he => Option.some.inj he ▸ this.1, this.2⟩
  · have := hwritten (h _ before hget) hw
    exact ⟨fun sce' he => Option.some.inj he ▸ this.1, this.2⟩

theorem CachesLeft.etagsHeld (h : CachesLeft sc) : EtagsHeld sc := by
  induction h with
  | init => exact nofun
  | call before fs mimetypes settings followSymlink curTs name ih => exact (ih.getEntry rfl).2
  | cleanup before curTs ih =>
    intro ndx sce hget
    unfold statCacheTriggerCleanup at hget
    dsimp only at hget
    split at hget
    · next sce' hsce =>
      split at hget
      · cases hget
      · exact Option.some.inj hget ▸ ih ndx sce' hsce
    · cases hget

end Entries

section Calls

variable [Malloc] {fs : DiskAnswers} {mimetypes : Arr DataString} {settings : EtagSettings}
  {followSymlink : Bool} {curTs : Int} {name : Buffer} {sce : StatCacheEntry} {sc sc' : StatCache}

/-- The entry that the call will return has a tag: it is there with one, or one is written. -/
def EtagKnown (fs : DiskAnswers) (settings : EtagSettings) (followSymlink : Bool) (curTs : Int)
    (sc : StatCache) (name : Buffer) : Prop :=
  match sc.files (fileNdx sc followSymlink name) with
  | none => ∃ st, statFile fs name = some st ∧ FillsEtag settings st
  | some before => 1 ≤ before.etag.used ∨
      ¬ OfThisSecond curTs name before ∧ ∃ st, statFile fs name = some st ∧ FillsEtag settings st

theorem used_etag_iff
    (h : statCacheGetEntry fs ⟨mimetypes, settings.flags⟩ followSymlink curTs sc name =
      (some sce, sc')) :
    1 ≤ sce.etag.used ↔ EtagKnown fs settings followSymlink curTs sc name := by
  have hst : ∀ {st : Stat}, statFile fs name = some st →
      (FillsEtag settings st ↔ ∃ st', statFile fs name = some st' ∧ FillsEtag settings st') :=
    fun {st} hstat => ⟨fun hf => ⟨st, hstat, hf⟩, fun ⟨st', hstat', hf⟩ =>
      Option.some.inj (hstat'.symm.trans hstat) ▸ hf⟩
  unfold EtagKnown
  rcases statCacheGetEntry_cases h with ⟨hnone, -⟩ | ⟨sce', hsce, hget, hkept, -⟩ |
    ⟨before, sce', st, hsce, hget, hinit, hw⟩ | ⟨before, sce', st, hsce, hget, hkept, hw⟩
  · cases hnone
  · obtain rfl := Option.some.inj hsce
    rw [hget]
    exact ⟨.inl, fun hor => hor.resolve_right fun hnot => hnot.1 hkept⟩
  · obtain rfl := Option.some.inj hsce
    rw [hget, hw.entry, used_etag_refresh, hinit]
    exact (or_iff_left (by decide)).trans (hst hw.statFile)
  · obtain rfl := Option.some.inj hsce
    rw [hget, hw.entry, used_etag_refresh, or_comm]
    exact or_congr_right ((hst hw.statFile).trans (and_iff_right hkept).symm)

omit [Malloc] in
theorem Buffer.Shows.one_le_used {b : Buffer} {t : Bytes} (h : b.Shows t) (hne : t ≠ []) :
    1 ≤ b.used :=
  Lighttpd.one_le_used (h.resolve_right fun hempty => hne hempty.2)

theorem used_compressedEtag (tmpBuf : Buffer) (sce : StatCacheEntry) (matched : Nat) :
    1 ≤ (compressedEtag tmpBuf sce matched).used := by
  have hdash :=
    shows_bufferAppendStringLen (shows_bufferCopyStringBuffer tmpBuf sce.etag) (ascii "-")
  have hne : ∀ t : Bytes, t ++ ascii "-" ≠ [] := fun t =>
    List.append_ne_nil_of_right_ne_nil t (by decide)
  unfold compressedEtag
  dsimp only
  cases (selectEncoding matched).2 with
  | none => exact hdash.one_le_used (hne _)
  | some compression =>
    exact (shows_bufferAppendString hdash compression).one_le_used
      (List.append_ne_nil_of_left_ne_nil (hne _) compression)

/-- The guards of `mod_staticfile` and `mod_compress` keep out a buffer that was never filled. -/
theorem used_guarded (h : EtagHeld sce.etag) {user : EtagUser} (huser : user ≠ .ssi) :
    ∀ etag ∈ user.etags sce, 1 ≤ etag.used := by
  intro etag hmem
  cases user with
  | ssi => exact absurd rfl huser
  | staticfile conf con =>
    unfold EtagUser.etags staticfileEtags at hmem
    dsimp only at hmem
    split at hmem
    · next hguard =>
      have hne : sce.etag.used ≠ 0 := by simpa [bufferIsEmpty] using hguard.2.2
      split at hmem
      · rw [List.mem_singleton.mp hmem]
        omega
      · cases hmem
    · cases hmem
  | compress lib env con matched mtime =>
    unfold EtagUser.etags compressEtags at hmem
    dsimp only at hmem
    by_cases huse : useEtag sce = true
    · rw [if_pos huse] at hmem
      have hused : 1 ≤ sce.etag.used := h.resolve_left (by simpa [useEtag] using huse)
      split at hmem
      · rw [List.mem_singleton.mp hmem]
        exact hused
      · rcases List.mem_pair.mp hmem with rfl | rfl
        · exact hused
        · exact used_compressedEtag _ sce matched
    · rw [if_neg huse] at hmem
      cases hmem

/-- **When the callers of `etag_mutate` pass a buffer with text**: always, unless `mod_ssi` asks for
an entry without one. -/
theorem etagsInside_iff (hcache : CachesLeft sc)
    (h : statCacheGetEntry fs ⟨mimetypes, settings.flags⟩ followSymlink curTs sc name =
      (some sce, sc')) (user : EtagUser) :
    (∀ etag ∈ user.etags sce, 1 ≤ etag.used) ↔
      (user = .ssi → EtagKnown fs settings followSymlink curTs sc name) := by
  by_cases huser : user = .ssi
  · subst huser
    have hlist : (∀ etag ∈ EtagUser.ssi.etags sce, 1 ≤ etag.used) ↔ 1 ≤ sce.etag.used :=
      List.forall_mem_singleton
    rw [hlist, used_etag_iff h]
    exact ⟨fun hknown _ => hknown, fun hknown => hknown rfl⟩
  · have hheld := (hcache.etagsHeld.getEntry h).1 sce rfl
    exact ⟨fun _ hssi => absurd hssi huser, fun _ => used_guarded hheld huser⟩

def EtagsInside : Prop :=
  ∀ sc, CachesLeft sc → ∀ (fs : DiskAnswers) (mimetypes : Arr DataString) (settings : EtagSettings)
    (followSymlink : Bool) (curTs : Int) (name : Buffer) (sce : StatCacheEntry) (sc' : StatCache),
      statCacheGetEntry fs ⟨mimetypes, settings.flags⟩ followSymlink curTs sc name =
        (some sce, sc') → ∀ user : EtagUser, ∀ etag ∈ user.etags sce, 1 ≤ etag.used

end Calls

section Page

def onePage : DiskAnswers where
  stat s := if s = ascii "/a.shtml" then some ⟨0o100644, 1, 5, 0⟩ else none
  lstat _ := none
  readable _ := true

def namePage : Buffer := ⟨ascii "/a.shtml\x00", 9, 1⟩

/-- With all settings off `mod_ssi` passes a buffer that was never filled. -/
theorem not_etagsInside_off : ¬ @EtagsInside zeroMalloc := by
  let _ : Malloc := zeroMalloc
  intro h
  have hused := h statCacheInit .init onePage arrayInit ⟨false, false, false⟩ true 0 namePage _ _
    rfl .ssi _ List.mem_cons_self
  revert hused
  decide

/-- With one setting it is filled. -/
theorem etagsInside_iff_page :
    letI : Malloc := zeroMalloc
    ∃ sce sc', statCacheGetEntry onePage ⟨arrayInit, EtagSettings.flags ⟨false, true, false⟩⟩ true 0
        statCacheInit namePage = (some sce, sc') ∧
      ∀ etag ∈ EtagUser.ssi.etags sce, 1 ≤ etag.used := by
  let _ : Malloc := zeroMalloc
  refine ⟨_, _, rfl, ?_⟩
  have hknown : EtagKnown onePage ⟨false, true, false⟩ true 0 statCacheInit namePage :=
    ⟨⟨0o100644, 1, 5, 0⟩, by decide, by decide, .inl (by decide)⟩
  exact (@etagsInside_iff _ onePage arrayInit ⟨false, true, false⟩ true 0 namePage _ _ _ .init rfl
    .ssi).mpr fun _ => hknown

end Page

end Lighttpd

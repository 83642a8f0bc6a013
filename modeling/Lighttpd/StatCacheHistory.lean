import Lighttpd.StatCache

/-!
# What the cache answers

An entry describes a name under a setting (`Describes`) when its data are what the system says of
that name. The cache keeps its entries under 31 bits of a hash, and an entry that is used for
another name keeps its own. As long as this does not happen (`Undisturbed`) every entry describes
the name it has (`statCacheTransparent`).
-/

namespace Lighttpd

open CLib

def etagText (st : Stat) (flags : Nat) : Bytes :=
  (if flags &&& ETAG_USE_INODE ≠ 0 then decimal st.stIno ++ ascii "-" else []) ++
    (if flags &&& ETAG_USE_SIZE ≠ 0 then decimal st.stSize ++ ascii "-" else []) ++
    (if flags &&& ETAG_USE_MTIME ≠ 0 then decimal st.stMtime else [])

theorem shows_etagCreate [Malloc] {etag : Buffer} (st : Stat) {flags : Nat}
    (h : flags = 0 → etag.Shows []) : (etagCreate etag st flags).Shows (etagText st flags) := by
  unfold etagCreate
  split
  · next h0 => simpa [etagText, h0] using h h0
  · have hpart : ∀ {b : Buffer} {t : Bytes} (c : Prop) [Decidable c] (v : Int), b.Shows t →
        (if c then bufferAppendStringLen (bufferAppendOffT b v) (some (ascii "-")) else b).Shows
          (t ++ if c then decimal v ++ ascii "-" else []) := by
      intro b t c _ v hb
      split
      · rw [← List.append_assoc]
        exact Or.inl (text_bufferAppendStringLen (text_bufferAppendLong_shows hb v) _)
      · simpa using hb
    have hino := hpart (flags &&& ETAG_USE_INODE ≠ 0) st.stIno (shows_bufferReset etag)
    have hsize := hpart (flags &&& ETAG_USE_SIZE ≠ 0) st.stSize hino
    rw [List.nil_append] at hsize
    unfold etagText
    dsimp only
    split
    · exact Or.inl (text_bufferAppendLong_shows hsize _)
    · simpa using hsize

/-! ## Names -/

/-- A symbolic link on the way to the name, the root excepted. -/
def LinkIn (fs : DiskAnswers) (s : Bytes) : Prop :=
  ∃ d, statCacheLstat fs d = true ∧ (d = s ∨ d ≠ [] ∧ ∃ rest, s = d ++ 47 :: rest)

theorem linkAbove_iff (fs : DiskAnswers) : ∀ (fuel : Nat) (s : Bytes), s.length < fuel →
    (linkAbove fs fuel s = true ↔
      ∃ d, statCacheLstat fs d = true ∧ d ≠ [] ∧ ∃ rest, s = d ++ 47 :: rest)
  | 0, _, h => by omega
  | fuel + 1, s, h => by
    unfold linkAbove
    by_cases hmem : (47 : UInt8) ∈ s
    · obtain ⟨a, b, rfl, hb⟩ := exists_split_last hmem
      rw [strrchr_append_cons a hb]
      -- the directories above are the last one and those above it
      have habove : ∀ d, d ≠ [] → ((∃ rest, a ++ 47 :: b = d ++ 47 :: rest) ↔
          d = a ∨ ∃ rest, a = d ++ 47 :: rest) := by
        intro d hd
        constructor
        · rintro ⟨rest, he⟩
          rcases List.append_eq_append_iff.mp he with ⟨c, hc, hrest⟩ | ⟨c, hc, hrest⟩
          · cases c with
            | nil => exact Or.inl (by simpa using hc)
            | cons x xs =>
              obtain ⟨-, rfl⟩ := List.cons.inj hrest
              exact absurd (by simp) hb
          · cases c with
            | nil => exact Or.inl (by simpa using hc.symm)
            | cons x xs =>
              obtain ⟨rfl, -⟩ := List.cons.inj hrest
              exact Or.inr ⟨xs, hc⟩
        · rintro (rfl | ⟨rest, rfl⟩)
          · exact ⟨b, rfl⟩
          · exact ⟨rest ++ 47 :: b, by simp⟩
      cases ha : a with
      | nil =>
        subst ha
        constructor
        · intro hf
          cases hf
        · rintro ⟨d, -, hd, hrest⟩
          rcases (habove d hd).mp hrest with rfl | ⟨rest, hr⟩
          · exact absurd rfl hd
          · cases d <;> simp at hr
      | cons x xs =>
        rw [← ha]
        have hlen : a.length = xs.length + 1 := by rw [ha, List.length_cons]
        have hne : a ≠ [] := by simp [ha]
        rw [hlen]
        change (statCacheLstat fs ((a ++ 47 :: b).take (xs.length + 1)) ||
          linkAbove fs fuel ((a ++ 47 :: b).take (xs.length + 1))) = true ↔ _
        rw [← hlen, List.take_left' rfl, Bool.or_eq_true, linkAbove_iff fs fuel a
          (by simp only [List.length_append, List.length_cons] at h; omega)]
        constructor
        · rintro (hlink | ⟨d, hlink, hd, hrest⟩)
          · exact ⟨a, hlink, hne, b, rfl⟩
          · exact ⟨d, hlink, hd, (habove d hd).mpr (Or.inr hrest)⟩
        · rintro ⟨d, hlink, hd, hrest⟩
          rcases (habove d hd).mp hrest with rfl | hrest
          · exact Or.inl hlink
          · exact Or.inr ⟨d, hlink, hd, hrest⟩
    · rw [strrchr_eq_none.mpr hmem]
      constructor
      · intro hf
        cases hf
      · rintro ⟨d, -, -, rest, rfl⟩
        exact absurd (by simp) hmem

theorem isSymlink_iff (fs : DiskAnswers) {name : Buffer} {s : Bytes} (h : name.Text s)
    (hs : IsCStr s) : isSymlink fs name = true ↔ LinkIn fs s := by
  unfold isSymlink LinkIn
  rw [h.str hs, h.used, Bool.or_eq_true, Bool.and_eq_true, decide_eq_true_iff,
    linkAbove_iff fs _ s (Nat.lt_succ_self _)]
  constructor
  · rintro (hlink | ⟨-, d, hlink, hd, hrest⟩)
    · exact ⟨s, hlink, Or.inl rfl⟩
    · exact ⟨d, hlink, Or.inr ⟨hd, hrest⟩⟩
  · rintro ⟨d, hlink, rfl | ⟨hd, rest, rfl⟩⟩
    · exact Or.inl hlink
    · refine Or.inr ⟨?_, d, hlink, hd, rest, rfl⟩
      have := List.length_pos_iff.mpr hd
      simp only [List.length_append, List.length_cons]
      omega

def settingByte (followSymlink : Bool) : UInt8 := if followSymlink then 49 else 48

def keyOf (s : Bytes) (followSymlink : Bool) : Nat := hashme (s ++ [settingByte followSymlink])

theorem hashme_hashBuffer [Malloc] (hashKey : Buffer) {name : Buffer} {s : Bytes} (h : name.Text s)
    (hs : IsCStr s) (followSymlink : Bool) :
    hashme (hashBuffer hashKey name followSymlink).str = keyOf s followSymlink := by
  have hcopy : (bufferCopyStringBuffer hashKey name).Text s := by
    have hu : name.used ≠ 0 := by
      rw [h.used]
      omega
    unfold bufferCopyStringBuffer
    rw [if_neg hu, take_of_holds h.holds h.used]
    exact text_bufferCopyStringLen _ _
  have hdec : decimal (if followSymlink then 1 else 0) = [settingByte followSymlink] := by
    cases followSymlink <;> rfl
  have htext := text_bufferAppendLong hcopy (if followSymlink then 1 else 0)
  rw [hdec] at htext
  have hc : IsCStr (s ++ [settingByte followSymlink]) := by
    apply hs.append
    cases followSymlink <;> simp [IsCStr, settingByte]
  unfold hashBuffer keyOf
  rw [htext.str hc]

theorem keyOf_setting {s : Bytes} {f f' : Bool} (h : keyOf s f = keyOf s f') : f = f' := by
  have hkey : ∀ f, keyOf s f = ((List.foldl hashStep 5381 s).toNat * 33 +
      (settingByte f).toNat) % 2 ^ 31 := by
    intro f
    unfold keyOf hashme
    rw [List.foldl_append]
    generalize List.foldl hashStep 5381 s = x
    have hchar : (UInt32.ofInt (charVal (settingByte f))).toNat = (settingByte f).toNat := by
      cases f <;> rfl
    simp only [List.foldl_cons, List.foldl_nil, hashStep, UInt32.toNat_and, UInt32.toNat_add,
      UInt32.toNat_shiftLeft, hchar]
    rw [show (0x7fffffff : UInt32).toNat = 2 ^ 31 - 1 from rfl, Nat.and_two_pow_sub_one_eq_mod,
      show (5 : UInt32).toNat % 32 = 5 from rfl, Nat.shiftLeft_eq]
    omega
  have h0 : (settingByte false).toNat = 48 := rfl
  have h1 : (settingByte true).toNat = 49 := rfl
  rw [hkey, hkey] at h
  cases f <;> cases f'
  · rfl
  · omega
  · omega
  · rfl

/-! ## Content types -/

def typeFitsName (s : Bytes) (ds : DataString) : Bool :=
  ds.key.used ≠ 0 && decide (ds.key.used ≤ s.length + 1) &&
    strncaseeq (ds.key.used - 1) (s.drop (s.length + 1 - ds.key.used)) ds.key.ptr

def typeText (conf : StatConf) (s : Bytes) : Bytes :=
  match conf.mimetypes.elements.find? (typeFitsName s) with
  | some ds => ds.value.ptr.take (ds.value.used - 1)
  | none => []

theorem typeFits_eq {name : Buffer} {s : Bytes} (h : name.Text s) :
    typeFits name = typeFitsName s := by
  funext ds
  obtain ⟨rest, hrest⟩ : (s ++ [0]) <+: name.ptr := h.holds ▸ List.take_prefix _ _
  unfold typeFits typeFitsName
  dsimp only
  rw [h.used]
  by_cases h0 : ds.key.used = 0
  · simp [h0]
  by_cases hle : ds.key.used ≤ s.length + 1
  · have hptr : name.ptr.drop (s.length + 1 - ds.key.used) =
        s.drop (s.length + 1 - ds.key.used) ++ (0 :: rest) := by
      rw [← hrest, List.append_assoc, List.drop_append_of_le_length (by omega)]
      rfl
    have hlen : (s.drop (s.length + 1 - ds.key.used)).length = ds.key.used - 1 := by
      rw [List.length_drop]
      omega
    rw [hptr, strncaseeq_append_of_le _ _ (by omega)]
  · simp [hle]

theorem shows_contentTypeOf [Malloc] (conf : StatConf) {name : Buffer} {s : Bytes} (h : name.Text s)
    (contentType : Buffer) : (contentTypeOf conf name contentType).Shows (typeText conf s) := by
  unfold contentTypeOf typeText
  rw [typeFits_eq h]
  cases conf.mimetypes.elements.find? (typeFitsName s) with
  | some ds => exact shows_bufferCopyStringBuffer _ _
  | none => exact shows_bufferReset _

/-! ## Entries -/

/-- The entry is what the system says of the name `s` under the setting. -/
structure Describes (fs : DiskAnswers) (conf : StatConf) (s : Bytes) (followSymlink : Bool)
    (sce : StatCacheEntry) : Prop where
  st : fs.stat s = some sce.st
  isSymlink : sce.isSymlink = true ↔ followSymlink = false ∧ LinkIn fs s
  etag : sce.etag.Shows (if S_ISREG sce.st.stMode ∨ S_ISDIR sce.st.stMode then
    etagText sce.st conf.etagFlags else [])
  contentType : sce.contentType.Shows (if S_ISREG sce.st.stMode then typeText conf s else [])

structure Fresh (st : Stat) (sce : StatCacheEntry) : Prop where
  etag : S_ISREG st.stMode ∨ S_ISDIR st.stMode ∨ sce.etag.Shows []
  contentType : S_ISREG st.stMode ∨ sce.contentType.Shows []

theorem statFile_stat {fs : DiskAnswers} {name : Buffer} {s : Bytes} (h : name.Text s)
    (hs : IsCStr s) {st : Stat} (hst : statFile fs name = some st) : fs.stat s = some st := by
  unfold statFile at hst
  rw [h.str hs] at hst
  split at hst
  · cases hst
  · next st' hst' =>
    rw [hst']
    split at hst
    · split at hst
      · cases hst
      · split at hst
        · exact hst
        · cases hst
    · exact hst

theorem describes_refresh [Malloc] {fs : DiskAnswers} {conf : StatConf} {name : Buffer} {s : Bytes}
    (h : name.Text s) (hs : IsCStr s) {st : Stat} (hst : fs.stat s = some st)
    (followSymlink : Bool) (curTs : Int) {sce : StatCacheEntry} (hfresh : Fresh st sce)
    (hflags : conf.etagFlags = 0 → sce.etag.Shows []) :
    Describes fs conf s followSymlink (refresh fs conf followSymlink curTs name st sce) := by
  have hlink : ((!followSymlink && isSymlink fs name) = true) ↔
      followSymlink = false ∧ LinkIn fs s := by
    rw [Bool.and_eq_true, isSymlink_iff fs h hs]
    cases followSymlink <;> simp
  have hetag : (etagCreate sce.etag st conf.etagFlags).Shows (etagText st conf.etagFlags) :=
    shows_etagCreate st hflags
  unfold refresh
  dsimp only
  split
  · next hreg =>
    refine ⟨hst, hlink, ?_, ?_⟩
    · simpa [hreg] using hetag
    · simpa [hreg] using shows_contentTypeOf conf h sce.contentType
  · next hreg =>
    have htype := hfresh.contentType.resolve_left hreg
    split
    · next hdir =>
      refine ⟨hst, hlink, ?_, ?_⟩
      · simpa [hdir] using hetag
      · simpa [hreg] using htype
    · next hdir =>
      have hnone := (hfresh.etag.resolve_left hreg).resolve_left hdir
      refine ⟨hst, hlink, ?_, ?_⟩
      · simpa [hreg, hdir] using hnone
      · simpa [hreg] using htype

section Runs

variable [Malloc] (fs : Int → DiskAnswers) (conf : StatConf)

/-- The call does not use the entry of another name, and leaves nothing of an older file in an entry
that it writes again. -/
def Undisturbed (sc : StatCache) (followSymlink : Bool) (curTs : Int) (name : Buffer) : Prop :=
  ∀ sce st, sc.files (hashme (hashBuffer sc.hashKey name followSymlink).str) = some sce →
    statFile (fs curTs) name = some st →
      bufferIsEqual name sce.name = true ∧ (sce.statTs ≠ curTs → Fresh st sce)

/-- The caches that are left by calls at any times, each as `ok` says, and by the cleanup. The system
gives one answer during a second. -/
inductive CacheRun (ok : StatCache → Bool → Int → Buffer → Prop) : StatCache → Prop
  | init : CacheRun ok statCacheInit
  | call {sc : StatCache} {name : Buffer} {s : Bytes} (before : CacheRun ok sc)
      (followSymlink : Bool) (curTs : Int) (text : name.Text s) (cstr : IsCStr s)
      (fits : ok sc followSymlink curTs name) :
      CacheRun ok (statCacheGetEntry (fs curTs) conf followSymlink curTs sc name).2
  | cleanup {sc : StatCache} (before : CacheRun ok sc) (curTs : Int) :
      CacheRun ok (statCacheTriggerCleanup curTs sc)

/-- Each entry describes the name it has, under the setting it was written for. -/
def EntriesDescribe (sc : StatCache) : Prop :=
  ∀ ndx sce, sc.files ndx = some sce → ∃ s followSymlink, IsCStr s ∧ sce.name.Text s ∧
    ndx = keyOf s followSymlink ∧ Describes (fs sce.statTs) conf s followSymlink sce

variable {fs conf}

@[simp] theorem name_refresh (fs : DiskAnswers) (followSymlink : Bool) (curTs : Int) (name : Buffer)
    (st : Stat) (sce : StatCacheEntry) :
    (refresh fs conf followSymlink curTs name st sce).name = sce.name := by
  unfold refresh
  dsimp only
  split
  · rfl
  · split <;> rfl

@[simp] theorem statTs_refresh (fs : DiskAnswers) (followSymlink : Bool) (curTs : Int)
    (name : Buffer) (st : Stat) (sce : StatCacheEntry) :
    (refresh fs conf followSymlink curTs name st sce).statTs = curTs := by
  unfold refresh
  dsimp only
  split
  · rfl
  · split <;> rfl

theorem statCacheUpdate_spec {sc : StatCache} (h : EntriesDescribe fs conf sc) {name : Buffer}
    {s : Bytes} (followSymlink : Bool) (curTs : Int) (htext : name.Text s) (hs : IsCStr s)
    {sce : StatCacheEntry} (hname : sce.name.Text s)
    (hfresh : ∀ st, statFile (fs curTs) name = some st → Fresh st sce)
    (hflags : conf.etagFlags = 0 → sce.etag.Shows [])
    {r : Option StatCacheEntry × StatCache} (hr : statCacheUpdate (fs curTs) conf followSymlink
      curTs sc (keyOf s followSymlink) name sce = r) :
    (∀ sce, r.1 = some sce → Describes (fs curTs) conf s followSymlink sce) ∧
      EntriesDescribe fs conf r.2 := by
  subst hr
  unfold statCacheUpdate
  cases hst : statFile (fs curTs) name with
  | none =>
    refine ⟨?_, h⟩
    intro sce' hsce'
    cases hsce'
  | some st =>
    have hdesc := describes_refresh htext hs (statFile_stat htext hs hst) followSymlink curTs
      (hfresh st hst) hflags
    refine ⟨?_, ?_⟩
    · intro sce' hsce'
      obtain rfl := Option.some.inj hsce'
      exact hdesc
    · intro ndx sce' hsce'
      dsimp only at hsce'
      split at hsce'
      · next hndx =>
        obtain rfl := Option.some.inj hsce'
        refine ⟨s, followSymlink, hs, ?_, hndx, ?_⟩
        · rwa [name_refresh]
        · rwa [statTs_refresh]
      · exact h ndx sce' hsce'

theorem statCacheGetEntry_spec {sc : StatCache} (h : EntriesDescribe fs conf sc) {name : Buffer}
    {s : Bytes} (followSymlink : Bool) (curTs : Int) (htext : name.Text s) (hs : IsCStr s)
    (hok : Undisturbed fs sc followSymlink curTs name) {r : Option StatCacheEntry × StatCache}
    (hr : statCacheGetEntry (fs curTs) conf followSymlink curTs sc name = r) :
    (∀ sce, r.1 = some sce → Describes (fs curTs) conf s followSymlink sce) ∧
      EntriesDescribe fs conf r.2 := by
  have hkey := hashme_hashBuffer sc.hashKey htext hs followSymlink
  have h' : EntriesDescribe fs conf
      { sc with hashKey := hashBuffer sc.hashKey name followSymlink } := h
  unfold statCacheGetEntry at hr
  simp only [hkey] at hr
  cases hfile : sc.files (keyOf s followSymlink) with
  | none =>
    have hempty : bufferInit.Shows [] := Or.inr ⟨rfl, rfl⟩
    have hname : (bufferCopyStringBuffer bufferInit name).Text s := by
      have hu : name.used ≠ 0 := by
        rw [htext.used]
        omega
      unfold bufferCopyStringBuffer
      rw [if_neg hu, take_of_holds htext.holds htext.used]
      exact text_bufferCopyStringLen _ _
    rw [hfile] at hr
    exact statCacheUpdate_spec h' followSymlink curTs htext hs hname
      (fun _ _ => ⟨Or.inr (Or.inr hempty), Or.inr hempty⟩) (fun _ => hempty) hr
  | some sce =>
    obtain ⟨t, f, ht, hname, hndx, hdesc⟩ := h _ sce hfile
    have hflags : conf.etagFlags = 0 → sce.etag.Shows [] := by
      intro h0
      simpa [h0, etagText] using hdesc.etag
    have hfound : ∀ st, statFile (fs curTs) name = some st → t = s ∧
        (sce.statTs ≠ curTs → Fresh st sce) := by
      intro st hst
      obtain ⟨heq, hfresh⟩ := hok sce st (by rwa [hkey]) hst
      exact ⟨((bufferIsEqual_text htext hs hname ht).mp heq).symm, hfresh⟩
    rw [hfile] at hr
    dsimp only at hr
    split at hr
    · next heq =>
      obtain rfl := (bufferIsEqual_text htext hs hname ht).mp heq
      split at hr
      · next hts =>
        subst hr
        refine ⟨?_, h'⟩
        intro sce' hsce'
        obtain rfl := Option.some.inj hsce'
        rw [keyOf_setting hndx, ← hts]
        exact hdesc
      · next hts =>
        exact statCacheUpdate_spec h' followSymlink curTs htext hs hname
          (fun st hst => (hfound st hst).2 hts) hflags hr
    · next heq =>
      -- with another name in the entry, the file is not there
      have hnone : statFile (fs curTs) name = none := by
        cases hst : statFile (fs curTs) name with
        | none => rfl
        | some st =>
          obtain ⟨heq', -⟩ := hok sce st (by rwa [hkey]) hst
          exact absurd heq' heq
      unfold statCacheUpdate at hr
      rw [hnone] at hr
      subst hr
      refine ⟨?_, h'⟩
      intro sce' hsce'
      cases hsce'

theorem CacheRun.entriesDescribe {sc : StatCache} (h : CacheRun fs conf (Undisturbed fs) sc) :
    EntriesDescribe fs conf sc := by
  induction h with
  | init =>
    intro ndx sce hsce
    cases hsce
  | call before followSymlink curTs text cstr fits ih =>
    exact (statCacheGetEntry_spec ih followSymlink curTs text cstr fits rfl).2
  | cleanup before curTs ih =>
    intro ndx sce hsce
    apply ih ndx sce
    simp only [statCacheTriggerCleanup] at hsce
    split at hsce
    · split at hsce
      · cases hsce
      · rwa [← hsce]
    · cases hsce

/-- A run in which no call uses the entry of another name answers each call for its name. -/
theorem statCacheTransparent {sc : StatCache} (h : CacheRun fs conf (Undisturbed fs) sc)
    {name : Buffer} {s : Bytes} (followSymlink : Bool) (curTs : Int) (htext : name.Text s)
    (hs : IsCStr s) (hok : Undisturbed fs sc followSymlink curTs name) {sce : StatCacheEntry}
    {sc' : StatCache}
    (hr : statCacheGetEntry (fs curTs) conf followSymlink curTs sc name = (some sce, sc')) :
    Describes (fs curTs) conf s followSymlink sce :=
  (statCacheGetEntry_spec h.entriesDescribe followSymlink curTs htext hs hok hr).1 sce rfl

def Transparent (fs : Int → DiskAnswers) (conf : StatConf) : Prop :=
  ∀ sc, CacheRun fs conf (fun _ _ _ _ => True) sc →
    ∀ (name : Buffer) (s : Bytes) (followSymlink : Bool) (curTs : Int), name.Text s → IsCStr s →
      ∀ sce sc', statCacheGetEntry (fs curTs) conf followSymlink curTs sc name = (some sce, sc') →
        Describes (fs curTs) conf s followSymlink sce

end Runs

section Collision

def twoFiles : DiskAnswers where
  stat s := if s = ascii "/Az" then some ⟨0o100644, 1, 1, 0⟩
    else if s = ascii "/BY" then some ⟨0o100644, 2, 2, 0⟩ else none
  lstat _ := none
  readable _ := true

def noTypes : StatConf := ⟨arrayInit, 0⟩

def nameAz : Buffer := ⟨ascii "/Az\x00", 4, 1⟩

def nameBY : Buffer := ⟨ascii "/BY\x00", 4, 2⟩

theorem text_nameAz : nameAz.Text (ascii "/Az") := ⟨rfl, rfl⟩

theorem text_nameBY : nameBY.Text (ascii "/BY") := ⟨rfl, rfl⟩

/-- Two names with one hash: the third call, for the first name again, is answered with the data of
the second one. -/
theorem not_transparent_collision :
    ¬ @Transparent zeroMalloc (fun _ => twoFiles) noTypes := by
  let _ : Malloc := zeroMalloc
  intro h
  have hone := @CacheRun.init zeroMalloc (fun _ => twoFiles) noTypes (fun _ _ _ _ => True)
  have htwo := hone.call true 0 text_nameAz (by decide) trivial
  have hthree := htwo.call true 0 text_nameBY (by decide) trivial
  have hdesc := h _ hthree nameAz (ascii "/Az") true 0 text_nameAz (by decide) _ _ rfl
  have hst := hdesc.st
  revert hst
  decide

/-- Two calls for one name. -/
theorem statCacheTransparent_again :
    letI : Malloc := zeroMalloc
    ∃ sce sc', statCacheGetEntry twoFiles noTypes true 0
        (statCacheGetEntry twoFiles noTypes true 0 statCacheInit nameAz).2 nameAz = (some sce, sc') ∧
      Describes twoFiles noTypes (ascii "/Az") true sce := by
  let _ : Malloc := zeroMalloc
  have hone := @CacheRun.init zeroMalloc (fun _ => twoFiles) noTypes
    (Undisturbed (fun _ => twoFiles))
  have hfits : Undisturbed (fun _ => twoFiles) statCacheInit true 0 nameAz := by
    intro sce st hsce
    cases hsce
  have htwo := hone.call true 0 text_nameAz (by decide) hfits
  refine ⟨_, _, rfl, ?_⟩
  refine statCacheTransparent htwo true 0 text_nameAz (by decide) ?_ rfl
  intro sce st hsce hst
  obtain rfl := Option.some.inj hsce
  exact ⟨by decide, fun hne => absurd rfl hne⟩

end Collision

end Lighttpd

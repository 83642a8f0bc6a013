import Lighttpd.Plugins.Webdav
import Mathlib.Data.List.TakeDrop

/-!
# `mod_webdav.c`: what `MOVE` keeps

`MOVE` is safe (`MoveSafe`) when what it removes at the source is at the destination, and when
nothing of the source is touched if something could not be copied. A file is safe unless its copy
ends early without an error (`FileKeeps`). A directory is safe if nothing is copied at all, if the
copy stops at a file with an error, or if every entry arrives (`Arrives`): the loop copies what is
directly in the directory only, and ignores what `stat`, `mkdir` and a short `write` say
(`DirKeeps`). The two trees have to be `Apart`.
-/

namespace Lighttpd

open CLib FileTree

/-- The source is the file, or the directory with everything in it. -/
def InSource (fs₀ : Files.Tree) (src q : Path) : Prop := q = [] ∨ fs₀.node src = some .dir

/-- What is at the source is at `place`. -/
def CopiedTo (fs₀ fs : Files.Tree) (src place : Path) : Prop :=
  ∀ q n, InSource fs₀ src q → fs₀.node (src ++ q) = some n → fs.node (place ++ q) = some n

structure MoveSafe (fs₀ fs : Files.Tree) (src place : Path) (status : Nat) : Prop where
  /-- A file that is gone is at its place, and so is everything in a directory that is gone. -/
  removed : ∀ q n, fs₀.node (src ++ q) = some n → fs.node (src ++ q) = none →
    fs.node (place ++ q) = some n ∧
      (n = .dir → ∀ r m, fs₀.node (src ++ (q ++ r)) = some m →
        fs.node (place ++ (q ++ r)) = some m)
  /-- Where something could not be copied, nothing has happened to the source. -/
  failed : ¬ CopiedTo fs₀ fs src place →
    (∀ q, InSource fs₀ src q → fs.node (src ++ q) = fs₀.node (src ++ q)) ∧
      ¬ (200 ≤ status ∧ status < 300)

namespace MoveSafe

variable {fs₀ fs : Files.Tree} {src place : Path} {status : Nat}

theorem of_untouched (hsrc : ∀ q, fs.node (src ++ q) = none → fs₀.node (src ++ q) = none)
    (hin : ∀ q, InSource fs₀ src q → fs.node (src ++ q) = fs₀.node (src ++ q))
    (hstatus : 300 ≤ status) : MoveSafe fs₀ fs src place status where
  removed q n hn hgone := by
    rw [hsrc q hgone] at hn
    exact nomatch hn
  failed _ := ⟨hin, by omega⟩

theorem of_copied (hdir : fs₀.node src = some .dir) (hcopied : CopiedTo fs₀ fs src place) :
    MoveSafe fs₀ fs src place status where
  removed q n hn _ := ⟨hcopied q n (.inr hdir) hn, fun _ r m => hcopied (q ++ r) m (.inr hdir)⟩
  failed hnot := absurd hcopied hnot

theorem of_moved {n : FileNode Bytes} (hfile : n ≠ .dir) (hsrc : fs₀.node src = some n)
    (hplace : fs.node place = some n)
    (hothers : ∀ q, q ≠ [] → fs.node (src ++ q) = none → fs₀.node (src ++ q) = none) :
    MoveSafe fs₀ fs src place status where
  removed q m hm hgone := by
    by_cases hq : q = []
    · subst hq
      rw [List.append_nil, hsrc] at hm
      obtain rfl := Option.some.inj hm
      exact ⟨by rwa [List.append_nil], fun hdir => absurd hdir hfile⟩
    · rw [hothers q hq hgone] at hm
      exact nomatch hm
  failed hnot := by
    refine absurd ?_ hnot
    rintro q m (rfl | hdir) hm
    · rw [List.append_nil, hsrc] at hm
      rwa [List.append_nil, ← hm]
    · exact absurd (Option.some.inj (hsrc.symm.trans hdir)) hfile

end MoveSafe

section Conditions

variable (sys : DavSystem) (overwrite : Bool) (fs : Files.Tree) (src dst : Path)

/-- The file at `src` cannot be read, or the one at `dst` cannot be opened: nothing is written. -/
def OpenFails (n : FileNode Bytes) (there : Option (FileNode Bytes)) : Prop :=
  (∀ s, n = .file s → s = []) ∨ sys.fails (.streamOpen src) ≠ none ∨
    sys.fails (.openCopy dst) ≠ none ∨ (there.isSome ∧ ¬ overwrite) ∨ there = some .dir

def EntryFails (n : FileNode Bytes) (there : Option (FileNode Bytes)) : Prop :=
  sys.fails (.statCopy src) = none ∧ (∃ s, n = .file s) ∧
    (OpenFails sys overwrite src dst n there ∨ sys.fails (.writeCopy dst) ≠ none)

/-- The entry is at the destination when its turn in the loop is over. -/
def EntryArrives (n : FileNode Bytes) (there : Option (FileNode Bytes)) : Prop :=
  if sys.fails (.statCopy src) = none then
    match n with
    | .dir => there = some .dir ∨ there = none ∧ sys.fails (.mkdirCopy dst) = none
    | .file s => s.length ≤ sys.takes dst ∧ there ≠ some .other
    | .other => there = some .other
  else there = some n

/-- What is not directly in the directory is not copied: it has to be there before. -/
def Arrives (n : FileNode Bytes) : Path → Prop
  | [] => True
  | [name] =>
    if sys.fails .opendirCopy = none then
      EntryArrives sys (src ++ [name]) (dst ++ [name]) n (fs.node (dst ++ [name]))
    else fs.node (dst ++ [name]) = some n
  | q => fs.node (dst ++ q) = some n

def DestRefuses : Prop :=
  ((sys.fails .statDest ≠ none ∨ fs.node dst = none) ∧
    (sys.fails .mkdirDest ≠ none ∨ (fs.node dst).isSome)) ∨
  (sys.fails .statDest = none ∧ (∃ n, fs.node dst = some n ∧ n ≠ .dir) ∧
    (¬ overwrite ∨ sys.fails .unlinkDest ≠ none))

/-- What is at the destination is deleted, and then there is no directory. -/
def DestLost : Prop :=
  sys.fails .statDest = none ∧ (∃ n, fs.node dst = some n ∧ n ≠ .dir) ∧ overwrite ∧
    sys.fails .unlinkDest = none ∧ sys.fails .mkdirDest ≠ none

def Apart : Prop :=
  fs.node src = some .dir → ∀ q, (fs.node (src ++ q)).isSome → ¬ src <+: dst ++ q

def DirKeeps : Prop :=
  DestRefuses sys overwrite fs dst ∨
  Apart fs src dst ∧
    (DestLost sys overwrite fs dst ∨
     (sys.fails .opendirCopy = none ∧
       ∃ name n, fs.node (src ++ [name]) = some n ∧
         EntryFails sys overwrite (src ++ [name]) (dst ++ [name]) n (fs.node (dst ++ [name]))) ∨
     ∀ q n, fs.node (src ++ q) = some n → Arrives sys fs src dst n q)

def FileKeeps (n : FileNode Bytes) : Prop :=
  let (target, found) := moveTarget sys fs src dst
  found = .error .enotdir ∨ ((∃ m, found = .ok m) ∧ ¬ overwrite) ∨
  (sys.fails .rename = none ∧ fs.node target ≠ some .dir) ∨
  OpenFails sys overwrite src target n (fs.node target) ∨
  (target ≠ src ∧
    (sys.fails (.writeCopy target) ≠ none ∨
     fs.node target ≠ some .other ∧ ∀ s, n = .file s → s.length ≤ sys.takes target))

/-- When `MOVE` is safe: see the module docstring. -/
def MoveKeeps : Prop :=
  ∀ n, davStat sys fs .statSource src = .ok n →
    if n = .dir then DirKeeps sys overwrite fs src dst else FileKeeps sys overwrite fs src dst n

def movePlace : Path :=
  if fs.node src = some .dir then dst else (moveTarget sys fs src dst).1

end Conditions

section CopyFile

variable {sys : DavSystem} {overwrite : Bool} {t : Files.Tree} {src dst : Path}
  {n : FileNode Bytes}

theorem openStatus_ge (e : Errno) : 403 ≤ openStatus e := by
  cases e <;> decide

theorem webdavCopyFile_refused (hsrc : t.node src = some n)
    (h : OpenFails sys overwrite src dst n (t.node dst)) :
    ∃ status, 403 ≤ status ∧ webdavCopyFile sys overwrite t src dst = (status, t) := by
  unfold webdavCopyFile
  split
  · exact ⟨403, le_rfl, rfl⟩
  · next s hs =>
    -- the source can be read, so `open` fails
    have hread : n = .file s ∧ s ≠ [] ∧ sys.fails (.streamOpen src) = none := by
      unfold streamOpen at hs
      rw [hsrc] at hs
      split at hs
      · next heq =>
        split at hs
        · next hok =>
          obtain rfl := Option.some.inj hs
          exact ⟨Option.some.inj heq, hok.2, hok.1⟩
        · cases hs
      · cases hs
    obtain ⟨rfl, hne, hstream⟩ := hread
    have hopen : ∃ e, davOpen sys overwrite t dst = .error e := by
      unfold davOpen
      split
      · next e _ => exact ⟨e, rfl⟩
      · next hfails =>
        split
        · exact ⟨.eexist, rfl⟩
        · next hthere =>
          rcases h with hempty | hfail | hfail | hfail | hdir
          · exact absurd (hempty s rfl) hne
          · exact absurd hstream hfail
          · exact absurd hfails hfail
          · exact absurd hfail hthere
          · rw [hdir]
            exact ⟨.eisdir, rfl⟩
    obtain ⟨e, he⟩ := hopen
    rw [he]
    exact ⟨openStatus e, openStatus_ge e, rfl⟩

theorem webdavCopyFile_opened (hsrc : t.node src = some n)
    (h : ¬ OpenFails sys overwrite src dst n (t.node dst)) :
    ∃ s, n = .file s ∧ s ≠ [] ∧ webdavCopyFile sys overwrite t src dst =
      davWrite sys (if t.node dst = some .other then t else t.set dst (.file [])) src dst s := by
  unfold OpenFails at h
  push Not at h
  obtain ⟨⟨s, rfl, hne⟩, hstream, hopen, hthere, hdir⟩ := h
  refine ⟨s, rfl, hne, ?_⟩
  have hs : streamOpen sys t src = some s := by
    unfold streamOpen
    rw [hsrc]
    exact if_pos ⟨hstream, hne⟩
  have ho : davOpen sys overwrite t dst =
      .ok (if t.node dst = some .other then t else t.set dst (.file [])) := by
    unfold davOpen
    rw [hopen]
    simp only
    rw [if_neg (by simpa using hthere)]
    split
    · next heq => exact absurd heq hdir
    · next heq => rw [if_pos heq]
    · next heq => rw [if_neg (by simp [heq])]
    · next heq => rw [if_neg (by simp [heq])]
  unfold webdavCopyFile
  rw [hs, ho]

theorem webdavCopyFile_apart (hsrc : t.node src = some n) (hne : src ≠ dst)
    (hopened : ¬ OpenFails sys overwrite src dst n (t.node dst)) :
    (sys.fails (.writeCopy dst) ≠ none ∧ 403 ≤ (webdavCopyFile sys overwrite t src dst).1) ∨
    (sys.fails (.writeCopy dst) = none ∧ (webdavCopyFile sys overwrite t src dst).1 = 0 ∧
      ∃ s, n = .file s ∧ (webdavCopyFile sys overwrite t src dst).2.node dst =
        if t.node dst = some .other then some .other else some (.file (s.take (sys.takes dst)))) := by
  obtain ⟨s, rfl, -, heq⟩ := webdavCopyFile_opened hsrc hopened
  rw [heq]
  unfold davWrite
  split
  · next e hfails =>
    refine .inl ⟨by rw [hfails]; simp, ?_⟩
    show 403 ≤ if e = .enospc then 507 else 403
    split <;> decide
  · next hfails =>
    refine .inr ⟨hfails, ?_⟩
    have hkept : (if t.node dst = some .other then t else t.set dst (.file [])).node src =
        some (.file s) := by
      split
      · exact hsrc
      · rw [node_set, if_neg hne, hsrc]
    rw [if_neg (not_not.mpr hkept)]
    by_cases hother : t.node dst = some .other
    · rw [if_pos hother, hother]
      exact ⟨rfl, s, rfl, hother⟩
    · rw [if_neg hother, node_set, if_pos rfl]
      exact ⟨rfl, s, rfl, by rw [node_set, if_pos rfl, if_neg hother]⟩

theorem webdavCopyFile_there (hsrc : t.node src = some n)
    (hopened : ¬ OpenFails sys overwrite src dst n (t.node dst)) :
    (webdavCopyFile sys overwrite t src dst).2.node dst ≠ none := by
  obtain ⟨s, rfl, -, heq⟩ := webdavCopyFile_opened hsrc hopened
  have hthere : (if t.node dst = some .other then t else t.set dst (.file [])).node dst ≠ none := by
    split
    · next hother => rw [hother]; simp
    · rw [node_set, if_pos rfl]; simp
  rw [heq]
  generalize (if t.node dst = some .other then t else t.set dst (.file [])) = t' at hthere ⊢
  unfold davWrite
  split
  · exact hthere
  · split
    · exact hthere
    · split
      · rw [node_set, if_pos rfl]; simp
      · exact hthere

theorem webdavCopyFile_self (hsrc : t.node src = some n)
    (hopened : ¬ OpenFails sys overwrite src src n (t.node src)) :
    ∃ s, n = .file s ∧ s ≠ [] ∧ 403 ≤ (webdavCopyFile sys overwrite t src src).1 ∧
      (webdavCopyFile sys overwrite t src src).2.node src = some (.file []) := by
  obtain ⟨s, rfl, hne, heq⟩ := webdavCopyFile_opened hsrc hopened
  refine ⟨s, rfl, hne, ?_⟩
  have hempty : (t.set src (.file [])).node src = some (.file []) := by
    rw [node_set, if_pos rfl]
  rw [heq, if_neg (by rw [hsrc]; exact nofun)]
  unfold davWrite
  split
  · next e _ =>
    refine ⟨?_, hempty⟩
    show 403 ≤ if e = .enospc then 507 else 403
    split <;> decide
  · rw [if_pos (by rw [hempty]; simpa using Ne.symm hne)]
    exact ⟨le_rfl, hempty⟩

end CopyFile

section CopyEntries

variable {sys : DavSystem} {overwrite : Bool} {t : Files.Tree} {src dst : Path}
  {n : FileNode Bytes}

variable (sys overwrite) in
theorem copyEntry_spec {name : Bytes} (hne : src ≠ dst) (hsrc : t.node (src ++ [name]) = some n) :
    (EntryFails sys overwrite (src ++ [name]) (dst ++ [name]) n (t.node (dst ++ [name])) ∧
      403 ≤ (copyEntry sys overwrite src dst name t).1) ∨
    (¬ EntryFails sys overwrite (src ++ [name]) (dst ++ [name]) n (t.node (dst ++ [name])) ∧
      (copyEntry sys overwrite src dst name t).1 = 0 ∧
      ((copyEntry sys overwrite src dst name t).2.node (dst ++ [name]) = some n ↔
        EntryArrives sys (src ++ [name]) (dst ++ [name]) n (t.node (dst ++ [name])))) := by
  have hentries : src ++ [name] ≠ dst ++ [name] := fun h => hne (List.append_cancel_right h)
  unfold copyEntry davStat EntryArrives
  cases hstat : sys.fails (.statCopy (src ++ [name])) with
  | some e =>
    refine .inr ⟨fun h => ?_, rfl, Iff.rfl⟩
    cases hstat.symm.trans h.1
  | none =>
    rw [hsrc]
    cases n with
    | dir =>
      refine .inr ⟨(by rintro ⟨-, ⟨_, h⟩, -⟩; cases h), rfl, ?_⟩
      simp only [if_true]
      unfold davMkdir
      cases hmkdir : sys.fails (.mkdirCopy (dst ++ [name])) with
      | some e => simp
      | none =>
        cases hthere : t.node (dst ++ [name]) with
        | some m => simp [hthere]
        | none => simp [node_set]
    | file s =>
      simp only [if_true]
      by_cases hopened : OpenFails sys overwrite (src ++ [name]) (dst ++ [name]) (.file s)
          (t.node (dst ++ [name]))
      · obtain ⟨status, hge, heq⟩ := webdavCopyFile_refused hsrc hopened
        rw [heq]
        exact .inl ⟨⟨hstat, ⟨s, rfl⟩, .inl hopened⟩, hge⟩
      · rcases webdavCopyFile_apart hsrc hentries hopened with ⟨hwrite, hge⟩ | ⟨hwrite, hzero, hto⟩
        · exact .inl ⟨⟨hstat, ⟨s, rfl⟩, .inr hwrite⟩, hge⟩
        · refine .inr ⟨fun h => ?_, hzero, ?_⟩
          · exact h.2.2.elim hopened (absurd hwrite)
          · obtain ⟨_, heq, hnode⟩ := hto
            obtain rfl := FileNode.file.inj heq
            rw [hnode]
            split
            · next hother => simp [hother]
            · next hother =>
              rw [Option.some_inj, FileNode.file.injEq, List.take_eq_self_iff]
              exact (and_iff_left hother).symm
    | other =>
      refine .inr ⟨(by rintro ⟨-, ⟨_, h⟩, -⟩; cases h), rfl, ?_⟩
      simp only [if_true]

variable (sys overwrite) in
theorem copyEntries_spec {names : List Bytes} (hne : src ≠ dst) (hnodup : names.Nodup)
    (hsrc : ∀ name ∈ names, (t.node (src ++ [name])).isSome) :
    ((∃ name ∈ names, ∃ n, t.node (src ++ [name]) = some n ∧
        EntryFails sys overwrite (src ++ [name]) (dst ++ [name]) n (t.node (dst ++ [name]))) ∧
      403 ≤ (copyEntries sys overwrite src dst names t).1) ∨
    ((∀ name ∈ names, ∀ n, t.node (src ++ [name]) = some n →
        ¬ EntryFails sys overwrite (src ++ [name]) (dst ++ [name]) n (t.node (dst ++ [name]))) ∧
      (copyEntries sys overwrite src dst names t).1 = 0 ∧
      ∀ name ∈ names, ∀ n, t.node (src ++ [name]) = some n →
        ((copyEntries sys overwrite src dst names t).2.node (dst ++ [name]) = some n ↔
          EntryArrives sys (src ++ [name]) (dst ++ [name]) n (t.node (dst ++ [name])))) := by
  induction names generalizing t with
  | nil => exact .inr ⟨by simp, rfl, by simp⟩
  | cons name names ih =>
    obtain ⟨hnot, hnodup⟩ := List.nodup_cons.mp hnodup
    obtain ⟨n, hn⟩ := Option.isSome_iff_exists.mp (hsrc name List.mem_cons_self)
    have hchange := copyEntry_changesIn sys overwrite t src dst name
    have hspec := copyEntry_spec sys overwrite hne hn
    unfold copyEntries
    split
    · next t' heq =>
      rw [heq] at hchange hspec
      obtain ⟨-, hge⟩ | ⟨hfails, -, harrives⟩ := hspec
      · exact absurd hge (Nat.not_succ_le_zero 402)
      -- the entries that are left are as they were
      have hsrc' : ∀ other, t'.node (src ++ [other]) = t.node (src ++ [other]) :=
        fun other => hchange _ fun h => hne (List.append_inj_left' h rfl)
      have hdst' : ∀ other ∈ names, t'.node (dst ++ [other]) = t.node (dst ++ [other]) := by
        intro other hother
        refine hchange _ fun h => hnot ?_
        obtain rfl : other = name := List.singleton_injective (List.append_cancel_left h)
        exact hother
      have hdone := copyEntries_changesIn sys overwrite t' src dst names
        (dst ++ [name]) (by
          rintro ⟨other, hother, h⟩
          obtain rfl : name = other := List.singleton_injective (List.append_cancel_left h)
          exact hnot hother)
      obtain ⟨⟨other, hother, m, hm, hfail⟩, hge⟩ | ⟨hnone, hzero, hall⟩ :=
        ih hnodup fun other hother => (hsrc' other).symm ▸
          hsrc other (List.mem_cons_of_mem name hother)
      · rw [hdst' other hother] at hfail
        exact .inl ⟨⟨other, List.mem_cons_of_mem name hother, m, (hsrc' other).symm.trans hm, hfail⟩,
          hge⟩
      · refine .inr ⟨?_, hzero, ?_⟩
        · refine List.forall_mem_cons.mpr ⟨?_, ?_⟩
          · intro m hm
            obtain rfl := Option.some.inj (hn.symm.trans hm)
            exact hfails
          · intro other hother m hm
            have := hnone other hother m ((hsrc' other).trans hm)
            rwa [hdst' other hother] at this
        · refine List.forall_mem_cons.mpr ⟨?_, ?_⟩
          · intro m hm
            obtain rfl := Option.some.inj (hn.symm.trans hm)
            rw [hdone]
            exact harrives
          · intro other hother m hm
            have := hall other hother m ((hsrc' other).trans hm)
            rwa [hdst' other hother] at this
    · next status t' hstatus heq =>
      rw [heq] at hspec
      obtain ⟨hfails, hge⟩ | ⟨-, hzero, -⟩ := hspec
      · exact .inl ⟨⟨name, List.mem_cons_self, n, hn, hfails⟩, hge⟩
      · exact absurd hzero hstatus

end CopyEntries

section MoveDir

variable {sys : DavSystem} {overwrite : Bool} {fs t : Files.Tree} {src dst : Path}

theorem makeDest_refuses (h : sys.fails .mkdirDest ≠ none ∨ (t.node dst).isSome) :
    makeDest sys t dst = (some 403, t) := by
  unfold makeDest davMkdir
  cases hcall : sys.fails .mkdirDest with
  | some e => rfl
  | none => rw [if_pos (h.resolve_left (absurd hcall))]

theorem makeDest_made (hcall : sys.fails .mkdirDest = none) (hdst : t.node dst = none) :
    makeDest sys t dst = (none, t.set dst .dir) := by
  unfold makeDest davMkdir
  rw [hcall, hdst]
  rfl

theorem davUnlink_fails {call : DavCall} (hcall : sys.fails call ≠ none) :
    davUnlink sys t call dst = t :=
  if_neg fun h => hcall h.1

theorem davUnlink_gone {call : DavCall} (hcall : sys.fails call = none)
    (hdst : t.node dst ≠ some .dir) : (davUnlink sys t call dst).node dst = none := by
  unfold davUnlink
  rw [if_pos ⟨hcall, hdst⟩, node_remove, if_pos rfl]

theorem prepareDest_unseen (h : sys.fails .statDest ≠ none ∨ t.node dst = none) :
    prepareDest sys overwrite t dst = makeDest sys t dst := by
  unfold prepareDest davStat
  cases hcall : sys.fails .statDest with
  | some e => rfl
  | none => rw [h.resolve_left (absurd hcall)]

theorem prepareDest_over {n : FileNode Bytes} (hcall : sys.fails .statDest = none)
    (hn : t.node dst = some n) (hdir : n ≠ .dir) :
    prepareDest sys overwrite t dst =
      if ¬ overwrite then (some 409, t) else makeDest sys (davUnlink sys t .unlinkDest dst) dst := by
  unfold prepareDest davStat
  rw [hcall, hn]
  cases n with
  | dir => exact absurd rfl hdir
  | file s => rfl
  | other => rfl

theorem prepareDest_refuses (h : DestRefuses sys overwrite t dst) :
    ∃ status, 403 ≤ status ∧ prepareDest sys overwrite t dst = (some status, t) := by
  obtain ⟨hstat, hmkdir⟩ | ⟨hstat, ⟨n, hn, hdir⟩, hunlink⟩ := h
  · rw [prepareDest_unseen hstat]
    exact ⟨403, le_rfl, makeDest_refuses hmkdir⟩
  · rw [prepareDest_over hstat hn hdir]
    by_cases hover : overwrite
    · rw [if_neg (not_not.mpr hover), davUnlink_fails (hunlink.resolve_left (not_not.mpr hover))]
      exact ⟨403, le_rfl, makeDest_refuses (.inr (by rw [hn]; rfl))⟩
    · exact ⟨409, by decide, if_pos hover⟩

theorem prepareDest_lost (h : DestLost sys overwrite t dst) :
    (prepareDest sys overwrite t dst).1 = some 403 := by
  obtain ⟨hstat, ⟨n, hn, hdir⟩, hover, -, hmkdir⟩ := h
  rw [prepareDest_over hstat hn hdir, if_neg (not_not.mpr hover), makeDest_refuses (.inl hmkdir)]

theorem prepareDest_made (hrefuses : ¬ DestRefuses sys overwrite t dst)
    (hlost : ¬ DestLost sys overwrite t dst) :
    ∃ t', prepareDest sys overwrite t dst = (none, t') ∧ t'.node dst = some .dir := by
  have hset : ∀ t' : Files.Tree, (t'.set dst .dir).node dst = some .dir := by
    intro t'
    rw [node_set, if_pos rfl]
  by_cases hseen : sys.fails .statDest ≠ none ∨ t.node dst = none
  · -- a new directory
    have hmkdir : sys.fails .mkdirDest = none ∧ t.node dst = none := by
      refine not_not.mp fun h => hrefuses (.inl ⟨hseen, ?_⟩)
      rw [Option.isSome_iff_ne_none]
      exact not_and_or.mp h
    rw [prepareDest_unseen hseen, makeDest_made hmkdir.1 hmkdir.2]
    exact ⟨_, rfl, hset t⟩
  · rw [not_or, not_not] at hseen
    obtain ⟨n, hn⟩ := Option.ne_none_iff_exists'.mp hseen.2
    by_cases hdir : n = .dir
    · subst hdir
      refine ⟨t, ?_, hn⟩
      unfold prepareDest davStat
      rw [hseen.1, hn]
    · -- a directory in the place of a file
      have hover : overwrite ∧ sys.fails .unlinkDest = none := by
        refine not_not.mp fun h => hrefuses (.inr ⟨hseen.1, ⟨n, hn, hdir⟩, ?_⟩)
        exact not_and_or.mp h
      have hmkdir : sys.fails .mkdirDest = none :=
        not_not.mp fun h => hlost ⟨hseen.1, ⟨n, hn, hdir⟩, hover.1, hover.2, h⟩
      have hgone := davUnlink_gone hover.2 (show t.node dst ≠ some .dir by rw [hn]; simpa using hdir)
      rw [prepareDest_over hseen.1 hn hdir, if_neg (not_not.mpr hover.1), makeDest_made hmkdir hgone]
      exact ⟨_, rfl, hset _⟩

section Copied

variable (hdir : fs.node src = some .dir) (hapart : Apart fs src dst)

include hdir hapart in
theorem Apart.ne {q r : Path} (hq : (fs.node (src ++ q)).isSome) : src ++ r ≠ dst ++ q :=
  fun h => hapart hdir q hq ⟨r, h⟩

include hdir in
theorem isSome_source : (fs.node (src ++ [])).isSome := by
  rw [List.append_nil, hdir]
  rfl

variable (sys overwrite) in
include hdir hapart in
theorem webdavCopyDir_spec (ht : ChangesIn {dst} fs t) (hmade : t.node dst = some .dir) :
    (∀ q, (webdavCopyDir sys overwrite t src dst).2.node (src ++ q) = fs.node (src ++ q)) ∧
    (((sys.fails .opendirCopy = none ∧
        ∃ name n, fs.node (src ++ [name]) = some n ∧
          EntryFails sys overwrite (src ++ [name]) (dst ++ [name]) n (fs.node (dst ++ [name]))) ∧
      403 ≤ (webdavCopyDir sys overwrite t src dst).1) ∨
    (¬ (sys.fails .opendirCopy = none ∧
        ∃ name n, fs.node (src ++ [name]) = some n ∧
          EntryFails sys overwrite (src ++ [name]) (dst ++ [name]) n (fs.node (dst ++ [name]))) ∧
      (webdavCopyDir sys overwrite t src dst).1 = 0 ∧
      ∀ q n, fs.node (src ++ q) = some n →
        ((webdavCopyDir sys overwrite t src dst).2.node (dst ++ q) = some n ↔
          Arrives sys fs src dst n q))) := by
  have hroot : ∀ q, src ++ q ≠ dst := by
    intro q h
    exact Apart.ne hdir hapart (isSome_source hdir) (h.trans (List.append_nil dst).symm)
  have hne : src ≠ dst := fun h => hroot [] ((List.append_nil src).trans h)
  have hsrc : ∀ q, t.node (src ++ q) = fs.node (src ++ q) := fun q => ht _ (hroot q)
  have hdst : ∀ q, q ≠ [] → t.node (dst ++ q) = fs.node (dst ++ q) :=
    fun q hq => ht _ fun h => hq (List.append_right_eq_self.mp h)
  unfold webdavCopyDir
  by_cases hopen : sys.fails .opendirCopy = none
  · rw [if_pos hopen]
    have hpresent : ∀ name ∈ t.names src, (t.node (src ++ [name])).isSome :=
      fun name hname => mem_names.mp hname
    have hchange := copyEntries_changesIn sys overwrite t src dst (t.names src)
    have hspec := copyEntries_spec sys overwrite hne (names_nodup t src) hpresent
    refine ⟨fun q => ?_, ?_⟩
    · rw [hchange _ fun ⟨name, hname, h⟩ =>
        Apart.ne hdir hapart (by rw [← hsrc]; exact hpresent name hname) h, hsrc]
    · obtain ⟨⟨name, hname, n, hn, hfail⟩, hge⟩ | ⟨hnone, hzero, hall⟩ := hspec
      · rw [hdst [name] (List.cons_ne_nil name [])] at hfail
        exact .inl ⟨⟨hopen, name, n, (hsrc _).symm.trans hn, hfail⟩, hge⟩
      · refine .inr ⟨?_, hzero, ?_⟩
        · rintro ⟨-, name, n, hn, hfail⟩
          have hname : name ∈ t.names src := mem_names.mpr (by rw [hsrc, hn]; rfl)
          rw [← hdst [name] (List.cons_ne_nil name [])] at hfail
          exact hnone name hname n ((hsrc _).trans hn) hfail
        · intro q n hn
          match q with
          | [] =>
            have hkept := hchange dst fun ⟨name, _, h⟩ =>
              List.cons_ne_nil name [] (List.append_right_eq_self.mp h.symm)
            rw [List.append_nil, hdir] at hn
            rw [List.append_nil, hkept, hmade]
            exact iff_of_true hn trivial
          | [name] =>
            have hname : name ∈ t.names src := mem_names.mpr (by rw [hsrc, hn]; rfl)
            have := hall name hname n ((hsrc _).trans hn)
            rw [hdst [name] (List.cons_ne_nil name [])] at this
            rwa [Arrives, if_pos hopen]
          | a :: b :: q =>
            rw [hchange _ ?_, hdst _ (List.cons_ne_nil a _)]
            · rfl
            · rintro ⟨name, -, h⟩
              have hlen := congrArg List.length (List.append_cancel_left h)
              simp at hlen
  · rw [if_neg hopen]
    refine ⟨hsrc, .inr ⟨fun h => hopen h.1, rfl, ?_⟩⟩
    intro q n hn
    match q with
    | [] =>
      rw [List.append_nil, hdir] at hn
      rw [List.append_nil, hmade]
      exact iff_of_true hn trivial
    | [name] =>
      rw [hdst _ (List.cons_ne_nil name [])]
      rw [Arrives, if_neg hopen]
    | a :: b :: q =>
      rw [hdst _ (List.cons_ne_nil a _)]
      rfl

end Copied

theorem moveDir_safe (hdir : fs.node src = some .dir) :
    (DirKeeps sys overwrite fs src dst →
      MoveSafe fs (moveDir sys overwrite fs src dst).2 src dst
        (moveDir sys overwrite fs src dst).1) ∧
    (Apart fs src dst →
      MoveSafe fs (moveDir sys overwrite fs src dst).2 src dst
        (moveDir sys overwrite fs src dst).1 →
      DirKeeps sys overwrite fs src dst) := by
  by_cases hrefuses : DestRefuses sys overwrite fs dst
  · obtain ⟨status, hge, heq⟩ := prepareDest_refuses hrefuses
    refine ⟨fun _ => ?_, fun _ _ => .inl hrefuses⟩
    unfold moveDir
    rw [heq]
    exact .of_untouched (fun _ h => h) (fun _ _ => rfl) (by show 300 ≤ status; omega)
  suffices h : Apart fs src dst →
      (MoveSafe fs (moveDir sys overwrite fs src dst).2 src dst
        (moveDir sys overwrite fs src dst).1 ↔ DirKeeps sys overwrite fs src dst) by
    exact ⟨fun hkeeps => (h (hkeeps.resolve_left hrefuses).1).mpr hkeeps, fun ha => (h ha).mp⟩
  intro hapart
  have hprepare := prepareDest_changesIn sys overwrite fs dst
  by_cases hlost : DestLost sys overwrite fs dst
  · refine iff_of_true ?_ (.inr ⟨hapart, .inl hlost⟩)
    have h403 := prepareDest_lost hlost
    unfold moveDir
    split
    · next status t heq =>
      rw [heq] at hprepare h403
      obtain rfl := Option.some.inj h403
      have hkept : ∀ q, t.node (src ++ q) = fs.node (src ++ q) := fun q => hprepare _ fun h =>
        Apart.ne hdir hapart (isSome_source hdir) (h.trans (List.append_nil dst).symm)
      exact .of_untouched (fun q h => (hkept q).symm.trans h) (fun q _ => hkept q)
        (by show 300 ≤ 403; decide)
    · next heq => rw [heq] at h403; exact nomatch h403
  obtain ⟨t, heq, hmade⟩ := prepareDest_made hrefuses hlost
  rw [heq] at hprepare
  obtain ⟨hkept, hspec⟩ := webdavCopyDir_spec sys overwrite hdir hapart hprepare hmade
  unfold moveDir
  rw [heq]
  simp only
  split
  · next t' hcopy =>
    rw [hcopy] at hkept hspec
    obtain ⟨-, hge⟩ | ⟨hnofail, -, harrives⟩ := hspec
    · exact absurd hge (Nat.not_succ_le_zero 402)
    -- the destination is not touched any more
    have hdelete : DeletesIn {q | src <+: q} t'
        (davRmdir sys (webdavDeleteDir sys t'.height src t') (.rmdirDelete src) src) := by
      refine (webdavDeleteDir_deletesIn sys t' _ src).trans ((davRmdir_deletesIn sys _ _ src).mono ?_)
      rintro q rfl
      exact List.prefix_rfl
    have hplace : ∀ q n, fs.node (src ++ q) = some n →
        ((davRmdir sys (webdavDeleteDir sys t'.height src t') (.rmdirDelete src) src).node
          (dst ++ q) = some n ↔ Arrives sys fs src dst n q) := by
      intro q n hn
      rw [hdelete.changesIn _ (hapart hdir q (by rw [hn]; rfl))]
      exact harrives q n hn
    constructor
    · intro hsafe
      have hcopied : CopiedTo fs _ src dst :=
        not_not.mp fun h => (hsafe.failed h).2 ⟨by show 200 ≤ 201; decide, by show 201 < 300; decide⟩
      exact .inr ⟨hapart, .inr (.inr fun q n hn => (hplace q n hn).mp (hcopied q n (.inr hdir) hn))⟩
    · rintro (h | ⟨-, h | h | hall⟩)
      · exact absurd h hrefuses
      · exact absurd h hlost
      · exact absurd h hnofail
      · exact .of_copied hdir fun q n _ hn => (hplace q n hn).mpr (hall q n hn)
  · next status t' hzero hcopy =>
    rw [hcopy] at hkept hspec
    obtain ⟨hfail, hge⟩ | ⟨-, h, -⟩ := hspec
    · exact iff_of_true (.of_untouched (fun q h => (hkept q).symm.trans h) (fun q _ => hkept q)
        (by show 300 ≤ status; omega))
        (.inr ⟨hapart, .inr (.inl hfail)⟩)
    · exact absurd h hzero

end MoveDir

section MoveFile

variable {sys : DavSystem} {overwrite : Bool} {fs : Files.Tree} {src dst : Path}
  {n : FileNode Bytes}

theorem davRename_fails (h : ¬ (sys.fails .rename = none ∧ fs.node dst ≠ some .dir)) :
    davRename sys fs src dst = none := by
  refine if_pos ?_
  rw [not_and_or, not_not] at h
  exact h

theorem davRename_safe (status : Nat) (hfile : n ≠ .dir) (hsrc : fs.node src = some n)
    (h : sys.fails .rename = none ∧ fs.node dst ≠ some .dir) :
    ∃ fs', davRename sys fs src dst = some fs' ∧ MoveSafe fs fs' src dst status := by
  have hworks : ¬ (sys.fails .rename ≠ none ∨ fs.node dst = some .dir) := by
    rw [not_or, not_not]
    exact h
  unfold davRename
  rw [if_neg hworks]
  by_cases hsame : src = dst
  · rw [if_pos hsame]
    exact ⟨fs, rfl, .of_moved hfile hsrc (hsame ▸ hsrc) fun q _ hq => hq⟩
  · rw [if_neg hsame, hsrc]
    refine ⟨_, rfl, .of_moved hfile hsrc ?_ ?_⟩
    · rw [node_set, if_pos rfl]
    · intro q hq hnone
      rw [node_set] at hnone
      split at hnone
      · cases hnone
      · rwa [node_remove, if_neg fun h => hq (List.append_right_eq_self.mp h)] at hnone

variable (sys overwrite dst) in
theorem renameOrCopy_safe (status : Nat) (hfile : n ≠ .dir) (hsrc : fs.node src = some n)
    (hstatus : 200 ≤ status ∧ status < 300) :
    MoveSafe fs (renameOrCopy sys overwrite fs src dst status).2 src dst
        (renameOrCopy sys overwrite fs src dst status).1 ↔
      (sys.fails .rename = none ∧ fs.node dst ≠ some .dir) ∨
      OpenFails sys overwrite src dst n (fs.node dst) ∨
      (dst ≠ src ∧ (sys.fails (.writeCopy dst) ≠ none ∨
        fs.node dst ≠ some .other ∧ ∀ s, n = .file s → s.length ≤ sys.takes dst)) := by
  unfold renameOrCopy
  by_cases hrename : sys.fails .rename = none ∧ fs.node dst ≠ some .dir
  · obtain ⟨fs', heq, hsafe⟩ := davRename_safe status hfile hsrc hrename
    rw [heq]
    exact iff_of_true hsafe (.inl hrename)
  rw [davRename_fails hrename, or_iff_right hrename]
  simp only
  by_cases hopen : OpenFails sys overwrite src dst n (fs.node dst)
  · obtain ⟨refused, hge, heq⟩ := webdavCopyFile_refused hsrc hopen
    refine iff_of_true ?_ (.inl hopen)
    rw [heq]
    split
    · next h => exact absurd ((Prod.mk.inj h).1 ▸ hge) (Nat.not_succ_le_zero 402)
    · next h =>
      obtain ⟨rfl, rfl⟩ := Prod.mk.inj h
      exact .of_untouched (fun _ h => h) (fun _ _ => rfl) (by show 300 ≤ refused; omega)
  rw [or_iff_right hopen]
  by_cases hsame : dst = src
  · -- the file has lost its content
    subst hsame
    obtain ⟨s, rfl, hne, hge, hempty⟩ := webdavCopyFile_self hsrc hopen
    refine iff_of_false (fun hsafe => ?_) (fun h => h.1 rfl)
    split at hsafe
    · next heq => rw [heq] at hge; exact absurd hge (Nat.not_succ_le_zero 402)
    · next refused fs' _ heq =>
      rw [heq] at hempty
      have hin := (hsafe.failed fun hcopied => ?_).1 [] (.inl rfl)
      · rw [List.append_nil] at hin
        have := hempty.symm.trans (hin.trans hsrc)
        exact hne (FileNode.file.inj (Option.some.inj this)).symm
      · have := hcopied [] (.file s) (.inl rfl) (by rwa [List.append_nil])
        rw [List.append_nil, hempty] at this
        exact hne (FileNode.file.inj (Option.some.inj this)).symm
  have hchange := webdavCopyFile_changesIn sys overwrite fs src dst
  have happears : ∀ q, (webdavCopyFile sys overwrite fs src dst).2.node (src ++ q) = none →
      fs.node (src ++ q) = none := by
    intro q hnone
    have hne : src ++ q ≠ dst := by
      intro h
      rw [h] at hnone
      exact webdavCopyFile_there hsrc hopen hnone
    exact (hchange _ hne).symm.trans hnone
  obtain ⟨hwrite, hge⟩ | ⟨hwrite, hzero, s, rfl, hnode⟩ :=
    webdavCopyFile_apart hsrc (Ne.symm hsame) hopen
  · refine iff_of_true ?_ ⟨hsame, .inl hwrite⟩
    split
    · next heq => rw [heq] at hge; exact absurd hge (Nat.not_succ_le_zero 402)
    · next refused fs' _ heq =>
      rw [heq] at hge hchange happears
      refine .of_untouched happears ?_ (by show 300 ≤ refused; omega)
      rintro q (rfl | hdir)
      · exact hchange _ fun h => hsame ((List.append_nil src).symm.trans h).symm
      · exact absurd (Option.some.inj (hsrc.symm.trans hdir)) hfile
  · split
    · next fs' heq =>
      rw [heq] at hnode happears
      have hunlink := davUnlink_deletesIn sys fs' (.unlinkDelete src) src
      have hplace : (davUnlink sys fs' (.unlinkDelete src) src).node dst =
          if fs.node dst = some .other then some .other else some (.file (s.take (sys.takes dst))) :=
        (hunlink.changesIn dst hsame).trans hnode
      constructor
      · intro hsafe
        have hcopied : CopiedTo fs _ src dst := not_not.mp fun h => (hsafe.failed h).2 hstatus
        have hfull := hcopied [] (.file s) (.inl rfl) (by rwa [List.append_nil])
        rw [List.append_nil, hplace] at hfull
        split at hfull
        · cases hfull
        · next hother =>
          refine ⟨hsame, .inr ⟨hother, ?_⟩⟩
          rintro _ ⟨rfl⟩
          exact (List.take_eq_self_iff s).mp (FileNode.file.inj (Option.some.inj hfull))
      · rintro ⟨-, hfail | ⟨hother, hlen⟩⟩
        · exact absurd hwrite hfail
        · refine .of_moved hfile hsrc ?_ fun q hq hnone => ?_
          · rw [hplace, if_neg hother, List.take_of_length_le (hlen s rfl)]
          · have hentry : src ++ q ≠ src := fun h => hq (List.append_right_eq_self.mp h)
            exact happears q ((hunlink.changesIn _ hentry).symm.trans hnone)
    · next h heq => exact absurd ((congrArg Prod.fst heq).symm.trans hzero) h

variable (sys overwrite dst) in
theorem moveFile_safe (hfile : n ≠ .dir) (hsrc : fs.node src = some n) :
    MoveSafe fs (moveFile sys overwrite fs src dst).2 src (moveTarget sys fs src dst).1
        (moveFile sys overwrite fs src dst).1 ↔ FileKeeps sys overwrite fs src dst n := by
  unfold moveFile FileKeeps
  rcases moveTarget sys fs src dst with ⟨target, found⟩
  have hsame : ∀ status, 300 ≤ status → MoveSafe fs fs src target status :=
    fun status => .of_untouched (fun _ h => h) (fun _ _ => rfl)
  cases found with
  | error e =>
    by_cases he : e = .enotdir
    · subst he
      exact iff_of_true (hsame 409 (by decide)) (.inl rfl)
    · have hmove := renameOrCopy_safe sys overwrite target 201 hfile hsrc (by decide)
      simpa [he] using hmove
  | ok m =>
    by_cases hover : overwrite
    · have hmove := renameOrCopy_safe sys overwrite target 204 hfile hsrc (by decide)
      simpa [hover] using hmove
    · simp only [hover]
      exact iff_of_true (hsame 412 (by decide)) (.inr (.inl ⟨⟨m, rfl⟩, Bool.false_ne_true⟩))

end MoveFile

def wellSystem : DavSystem where
  fails _ := none
  takes _ := 1024

theorem wellSystem_fails (call : DavCall) : wellSystem.fails call = none := rfl

def homeTree : Files.Tree :=
  ((⟨[], List.nodup_nil⟩ : Files.Tree).set [ascii "a"] .dir).set [ascii "a", ascii "f"]
    (.file (ascii "x"))

theorem homeTree_node {q : Path} {n : FileNode Bytes}
    (h : homeTree.node ([ascii "a"] ++ q) = some n) :
    (q = [] ∧ n = .dir) ∨ (q = [ascii "f"] ∧ n = .file (ascii "x")) := by
  unfold homeTree at h
  rw [node_set, node_set] at h
  split at h
  · next heq => exact .inr ⟨(List.cons.inj heq).2, (Option.some.inj h).symm⟩
  · split at h
    · next heq => exact .inl ⟨(List.cons.inj heq).2, (Option.some.inj h).symm⟩
    · cases h

def nestedTree : Files.Tree :=
  (((⟨[], List.nodup_nil⟩ : Files.Tree).set [ascii "a"] .dir).set [ascii "a", ascii "s"] .dir).set
    [ascii "a", ascii "s", ascii "f"] (.file (ascii "x"))

end Lighttpd

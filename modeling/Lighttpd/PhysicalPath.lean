import Lighttpd.Lib.Walk
import Lighttpd.PathSimplify

/-!
# `response.c`: the file name for the path of a URL

`http_response_prepare` appends the simplified path to the document root. The plugins that move it
elsewhere compare and cut the same text, which is normal in any case (`Simplified`), in lower case
or not.
-/

namespace Lighttpd

open CLib Segments

def Buffer.text (b : Buffer) : Bytes := b.ptr.take (b.used - 1)

def bufferToLower (b : Buffer) : Buffer :=
  if b.used = 0 then b
  else { b with ptr := (cstr b.ptr).map tolower ++ b.ptr.drop (cstr b.ptr).length }

theorem Buffer.Text.text_eq {b : Buffer} {t : Bytes} (h : b.Text t) : b.text = t :=
  take_of_holds h.holds h.used

theorem Buffer.text_of_ptr {b : Buffer} {t behind : Bytes} (hptr : b.ptr = t ++ 0 :: behind)
    (hused : b.used = t.length + 1) : b.Text t := by
  refine ⟨?_, hused⟩
  have hcut : t ++ 0 :: behind = (t ++ [0]) ++ behind := by simp
  rw [Buffer.Holds, Buffer.bytes, hptr, hused, hcut]
  exact List.take_left' (by simp)

theorem text_bufferCopyStringBuffer [Malloc] (b : Buffer) {src : Buffer} (hu : src.used ≠ 0) :
    (bufferCopyStringBuffer b src).Text src.text := by
  unfold bufferCopyStringBuffer
  rw [if_neg hu]
  exact text_bufferCopyStringLen _ _

/-! ## Segments -/

def lastSegment (path : Bytes) : Bytes := (path.splitOn 47).getLastD []

def frontSegments (path : Bytes) : List Bytes := (path.splitOn 47).dropLast

theorem splitOn_front (path : Bytes) :
    path.splitOn 47 = frontSegments path ++ [lastSegment path] := by
  have hne := List.splitOn_ne_nil (47 : UInt8) path
  unfold frontSegments lastSegment
  rw [List.getLastD_eq_getLast?, List.getLast?_eq_getLast_of_ne_nil hne]
  exact (List.dropLast_append_getLast hne).symm

theorem startOf_append (cwd : List Bytes) {path rest : Bytes} (h : path ≠ []) :
    startOf 47 cwd (path ++ rest) = startOf 47 cwd path := by
  cases path with
  | nil => exact absurd rfl h
  | cons x path => rfl

theorem startOf_relative {cwd : List Bytes} {path rest : Bytes}
    (h : ¬ (path = [] ∧ rest.head? = some 47)) :
    startOf 47 cwd (path ++ rest) = startOf 47 cwd path := by
  by_cases hpath : path = []
  · have hhead : rest.head? ≠ some 47 := fun hhead => h ⟨hpath, hhead⟩
    rw [hpath, List.nil_append, startOf, if_neg hhead]
    rfl
  · exact startOf_append cwd hpath

theorem withSlash_eq {d : Bytes} (hd : d ≠ []) : ∃ root, withSlash d = root ++ [47] := by
  unfold withSlash
  by_cases hslash : d.getLast? = some 47
  · rw [if_neg (fun h => h.2 hslash)]
    obtain ⟨root, hroot⟩ := List.getLast?_eq_some_iff.mp hslash
    exact ⟨root, hroot⟩
  · rw [if_pos ⟨hd, hslash⟩]
    exact ⟨d, rfl⟩

theorem withSlash_append (a : Bytes) {b : Bytes} (hb : b ≠ []) :
    withSlash (a ++ b) = a ++ withSlash b := by
  unfold withSlash
  have hne : a ++ b ≠ [] := fun h => hb (List.append_eq_nil_iff.mp h).2
  have hlast : (a ++ b).getLast? = b.getLast? := List.getLast?_append_of_ne_nil a hb
  rw [hlast]
  by_cases hslash : b.getLast? = some 47
  · rw [if_neg fun h => h.2 hslash, if_neg fun h => h.2 hslash]
  · rw [if_pos ⟨hne, hslash⟩, if_pos ⟨hb, hslash⟩, List.append_assoc]

theorem lastSegment_withSlash (t : Bytes) : lastSegment (withSlash t) = [] := by
  by_cases ht : t = []
  · subst ht
    rfl
  · obtain ⟨root, hroot⟩ : ∃ root, withSlash t = root ++ [47] := withSlash_eq ht
    rw [hroot, lastSegment, List.splitOn_append_cons_self, List.splitOn_nil,
      List.getLastD_concat]

theorem splitOn_withSlash (t rest : Bytes) :
    (withSlash t ++ rest).splitOn 47 = frontSegments (withSlash t) ++ rest.splitOn 47 := by
  obtain ⟨first, segs, hrest⟩ := List.exists_cons_of_ne_nil (List.splitOn_ne_nil 47 rest)
  rw [splitOn_append (splitOn_front _) hrest, lastSegment_withSlash, List.nil_append, hrest]

theorem frontSegments_withSlash (t : Bytes) :
    frontSegments (withSlash t) = t.splitOn 47 ∨
      t.splitOn 47 = frontSegments (withSlash t) ++ [[]] := by
  by_cases hslash : t ≠ [] ∧ t.getLast? ≠ some 47
  · left
    rw [withSlash, if_pos hslash, frontSegments, List.splitOn_append_cons_self, List.splitOn_nil,
      List.dropLast_concat]
  · right
    have hsame : withSlash t = t := if_neg hslash
    have hfront := splitOn_front (withSlash t)
    rw [lastSegment_withSlash] at hfront
    rw [← hfront, hsame]

/-! ## Simplified paths -/

/-- A path that was simplified, or an empty one, of which a NUL is in use behind the slash. -/
def Simplified (t : Bytes) : Prop :=
  ∃ u, IsNormal 47 46 u ∧ IsCStr u ∧ (t = u ∨ t = u ++ [0])

theorem tolower_eq {x c : UInt8} (hc : c.toNat < 65) : tolower x = c ↔ x = c := by
  unfold tolower
  by_cases hupper : 65 ≤ x ∧ x ≤ 90
  · rw [if_pos hupper]
    simp only [UInt8.le_iff_toNat_le, ← UInt8.toNat_inj, UInt8.toNat_add, UInt8.reduceToNat]
      at hupper ⊢
    omega
  · rw [if_neg hupper]

theorem isCStr_map_tolower {s : Bytes} (hs : IsCStr s) : IsCStr (s.map tolower) := by
  intro hmem
  obtain ⟨x, hx, h0⟩ := List.mem_map.mp hmem
  exact hs ((tolower_eq (by decide)).mp h0 ▸ hx)

section Physical

variable [Malloc]

omit [Malloc] in
theorem rewritePath_empty {dest : Bytes} {src : Option Bytes} {s rest : Bytes}
    (hsrc : src.getD dest = s ++ 0 :: rest) (hall : s.dropWhile (· == 32) = []) {ptr : Bytes}
    {used : Nat} (h : rewritePath dest src = some (ptr, used)) :
    used = 3 ∧ ptr.take 2 = [47, 0] := by
  have hspaces : (src.getD dest).takeWhile (· == 32) = s := by
    have hs : ∀ a ∈ s, (a == 32) = true := List.dropWhile_eq_nil_iff.mp hall
    rw [hsrc, List.takeWhile_append_of_pos hs]
    simp
  have hread : (src.getD dest)[s.length]? = some 0 := by simp [hsrc]
  simp only [rewritePath, hspaces, hread, Option.bind_eq_bind, Option.bind_some,
    Option.bind_eq_some_iff] at h
  obtain ⟨c, -, st, hfirst, h⟩ := h
  obtain ⟨hptr, hused⟩ := Prod.mk.inj (Option.some.inj h)
  simp only [firstChar, PathWalk.put, storeByte, Option.bind_eq_bind] at hfirst
  by_cases h1 : 1 < dest.length
  · have h0 : 0 < dest.length := by omega
    simp only [h0, h1, List.length_set, if_true, Option.bind_some, ne_eq, Option.some.injEq,
      (by decide : ¬ (0 : UInt8) = 47), not_false_eq_true] at hfirst
    subst hfirst
    refine ⟨hused.symm, ?_⟩
    rw [← hptr]
    have hfirst := take_set_succ h0 47
    have hsecond := take_set_succ (m := dest.set 0 47) (k := 1) (by simpa using h1) 0
    rw [hsecond, hfirst]
    rfl
  · by_cases h0 : 0 < dest.length
    · simp [h0, h1] at hfirst
    · simp [h0] at hfirst

/-- **What `buffer_path_simplify` makes of a string** is simplified. -/
theorem bufferPathSimplify_simplified {dest : PathDest} {src b : Buffer} {s : Bytes} {ret : Int}
    (h : src.Terminated s) (hrun : bufferPathSimplify dest src = some (ret, b)) :
    b.used ≠ 0 ∧ Simplified b.text ∧ b.str = cstr b.text := by
  by_cases hall : s.dropWhile (· == 32) = []
  · have hsize : src.size ≠ 0 := by
      have hlt := h.length_lt
      have hwf := h.wf
      unfold Buffer.WF at hwf
      omega
    -- the block the rewriting writes to and the block it reads from
    obtain ⟨dst, m, rest, hfrom, hrewrite⟩ : ∃ (dst : Bytes) (m : Option Bytes) (rest : Bytes),
        m.getD dst = s ++ 0 :: rest ∧ ∃ ptr used, rewritePath dst m = some (ptr, used) ∧
        b.ptr = ptr ∧ b.used = used := by
      cases dest with
      | src =>
        obtain ⟨-, -, htake⟩ := bufferPrepareAppend_spec h.wf 1
        obtain ⟨rest, hrest⟩ := h.text.trans (htake ▸ List.take_prefix _ _)
        simp only [bufferPathSimplify, if_neg hsize, Option.bind_eq_bind,
          Option.bind_eq_some_iff] at hrun
        obtain ⟨⟨ptr, used⟩, hrewrite, hrun⟩ := hrun
        obtain ⟨-, rfl⟩ := Prod.mk.inj (Option.some.inj hrun)
        exact ⟨_, none, rest, by simp [← hrest], ptr, used, hrewrite, rfl, rfl⟩
      | buffer d =>
        obtain ⟨rest, hrest⟩ := h.text.trans (List.take_prefix _ _)
        simp only [bufferPathSimplify, if_neg hsize, Option.bind_eq_bind,
          Option.bind_eq_some_iff] at hrun
        obtain ⟨⟨ptr, used⟩, hrewrite, hrun⟩ := hrun
        obtain ⟨-, rfl⟩ := Prod.mk.inj (Option.some.inj hrun)
        exact ⟨_, some src.ptr, rest, by simp [← hrest], ptr, used, hrewrite, rfl, rfl⟩
    obtain ⟨ptr, used, hrewrite, rfl, rfl⟩ := hrewrite
    obtain ⟨hused, htake⟩ := rewritePath_empty hfrom hall hrewrite
    have hroot : IsNormal (47 : UInt8) 46 [47] := ⟨[], true, by simp, fun _ => rfl, rfl⟩
    have htext : b.text = [47] ++ [0] := by
      rw [Buffer.text, hused]
      exact htake
    refine ⟨by omega, ⟨[47], hroot, by decide, Or.inr htext⟩, ?_⟩
    rw [Buffer.str, ← List.take_append_drop 2 b.ptr, htake, htext]
    rfl
  · obtain ⟨b', hb', hholds, hused, hterm⟩ := bufferPathSimplify_terminated dest h hall
    obtain ⟨-, rfl⟩ := Prod.mk.inj (Option.some.inj (hb'.symm.trans hrun))
    have htext : b'.text = normalForm 47 46 (s.dropWhile (· == 32)) := take_of_holds hholds hused
    refine ⟨by omega, ⟨_, isNormal_normalForm _, hterm.cstr, Or.inl htext⟩, ?_⟩
    rw [hterm.str, htext, cstr_eq_self hterm.cstr]

/-! ## The request's paths -/

/-- `con->physical.rel_path` -/
def physicalRelPath (forceLowercase : Bool) (relPath uriPath : Buffer) : Buffer :=
  let relPath := bufferCopyStringBuffer relPath uriPath
  if forceLowercase then bufferToLower relPath else relPath

/-- `con->physical.path` and `con->physical.basedir` -/
structure Physical where
  path : Buffer
  basedir : Buffer
  deriving DecidableEq, Repr

/-- `physical.path = docroot + rel_path` -/
def physicalPath (ph : Physical) (docRoot relPath : Buffer) : Physical :=
  let path := bufferAppendSlash (bufferCopyStringBuffer ph.path docRoot)
  let basedir := bufferCopyStringBuffer ph.basedir path
  if relPath.used ≠ 0 ∧ relPath.ptr.head? = some 47 then
    ⟨bufferAppendStringLen path (some ((relPath.ptr.drop 1).take (relPath.used - 2))), basedir⟩
  else ⟨bufferAppendStringBuffer path relPath, basedir⟩

omit [Malloc] in
theorem text_bufferToLower {b : Buffer} {u z : Bytes} (h : b.Text (u ++ z)) (hu : IsCStr u)
    (hz : z = [] ∨ z = [0]) : (bufferToLower b).Text (u.map tolower ++ z) := by
  obtain ⟨behind, hptr⟩ := h.ptr_eq
  have hused := h.used
  rw [List.append_assoc] at hptr
  have hstr : cstr b.ptr = u := by
    rw [hptr, cstr_append hu]
    rcases hz with rfl | rfl
    · simp [cstr]
    · simp [cstr]
  unfold bufferToLower
  rw [if_neg (by omega), hstr, hptr, List.drop_left' rfl]
  exact Buffer.text_of_ptr (by rw [List.append_assoc]) (by rw [hused]; simp)

theorem text_physicalRelPath (forceLowercase : Bool) (relPath : Buffer) {uriPath : Buffer}
    (hu : uriPath.used ≠ 0) (h : Simplified uriPath.text) :
    ∃ t, (physicalRelPath forceLowercase relPath uriPath).Text t ∧ Simplified t ∧
      (cstr t).length = (cstr uriPath.text).length := by
  have hcopy := text_bufferCopyStringBuffer relPath hu
  unfold physicalRelPath
  cases forceLowercase with
  | false => exact ⟨_, hcopy, h, rfl⟩
  | true =>
    obtain ⟨u, hnormal, hcstr, htext⟩ := h
    have hlower := hnormal.map (fun x => tolower_eq (by decide)) (fun x => tolower_eq (by decide))
    have hcstr' := isCStr_map_tolower hcstr
    rcases htext with htext | htext
    · have hlowered := text_bufferToLower (z := []) (by rwa [htext, ← List.append_nil u] at hcopy)
        hcstr (Or.inl rfl)
      rw [List.append_nil] at hlowered
      refine ⟨_, hlowered, ⟨_, hlower, hcstr', Or.inl rfl⟩, ?_⟩
      rw [htext, cstr_eq_self hcstr, cstr_eq_self hcstr', List.length_map]
    · rw [htext] at hcopy
      refine ⟨_, text_bufferToLower hcopy hcstr (Or.inr rfl), ⟨_, hlower, hcstr', Or.inr rfl⟩, ?_⟩
      rw [htext, cstr_append_zero hcstr, cstr_append_zero hcstr', List.length_map]

omit [Malloc] in
theorem Simplified.head {t : Bytes} (h : Simplified t) : ∃ t', t = 47 :: t' := by
  obtain ⟨u, hnormal, -, htext⟩ := h
  have hhead := hnormal.head
  obtain ⟨u', rfl⟩ : ∃ u', u = 47 :: u' := by
    cases u with
    | nil => cases hhead
    | cons x u' => exact ⟨u', by rw [Option.some.inj hhead]⟩
  rcases htext with rfl | rfl
  · exact ⟨u', rfl⟩
  · exact ⟨u' ++ [0], rfl⟩

theorem physicalPath_text {ph : Physical} {docRoot relPath : Buffer} {t : Bytes}
    (hrel : relPath.Text t) (ht : Simplified t)
    (hbase : 2 ≤ (physicalPath ph docRoot relPath).basedir.used) :
    ∃ root, (physicalPath ph docRoot relPath).path.Text (root ++ t) ∧
      (physicalPath ph docRoot relPath).basedir.used = root.length + 2 := by
  obtain ⟨t', rfl⟩ := ht.head
  obtain ⟨behind, hptr⟩ := hrel.ptr_eq
  have hcond : relPath.used ≠ 0 ∧ relPath.ptr.head? = some 47 := by
    refine ⟨?_, by rw [hptr]; rfl⟩
    rw [hrel.used]
    omega
  have htail : (relPath.ptr.drop 1).take (relPath.used - 2) = t' := by
    rw [hptr, hrel.used]
    simp
  unfold physicalPath at hbase ⊢
  simp only [if_pos hcond, htail] at hbase ⊢
  have hu : docRoot.used ≠ 0 := by
    intro h0
    have hcopy : bufferCopyStringBuffer ph.path docRoot = bufferReset ph.path := if_pos h0
    have hreset : (bufferReset ph.path).used = 0 := by simp
    have hslash : bufferAppendSlash (bufferReset ph.path) = bufferReset ph.path := by
      unfold bufferAppendSlash
      rw [if_neg (by rw [hreset]; omega)]
    rw [hcopy, hslash, bufferCopyStringBuffer, if_pos hreset] at hbase
    simp at hbase
  have hslash := text_bufferAppendSlash (text_bufferCopyStringBuffer ph.path hu)
  have hu' : (bufferAppendSlash (bufferCopyStringBuffer ph.path docRoot)).used ≠ 0 := by
    rw [hslash.used]
    omega
  have hbasedir := text_bufferCopyStringBuffer ph.basedir hu'
  rw [hslash.text_eq] at hbasedir
  rw [hbasedir.used] at hbase ⊢
  have hne : docRoot.text ≠ [] := by
    intro hnil
    rw [hnil] at hbase
    exact absurd hbase (by decide)
  obtain ⟨root, hwith⟩ := withSlash_eq hne
  rw [hwith] at hslash hbase ⊢
  refine ⟨root, ?_, by simp⟩
  have happend := text_bufferAppendStringLen hslash t'
  rwa [List.append_assoc] at happend

end Physical

end Lighttpd

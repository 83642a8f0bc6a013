import Lighttpd.Array
import Lighttpd.Lib.Walk

/-!
# `http_auth.c`: the password of a user

The files are mapped and searched with `memchr`. The search for the colon behind the user name is
bounded by the end of the file and not by that of the line, so a line without a colon is read
together with the next one, and whoever is named there has no password.

`files` gives the contents of the files that can be opened. LDAP is not compiled in.
-/

namespace Lighttpd

open CLib Segments

/-- `auth_backend_t` -/
inductive AuthBackend where
  | unset
  | plain
  | ldap
  | htpasswd
  | htdigest
  deriving DecidableEq, Repr

/-- `data_array` -/
structure DataArray where
  key : Buffer
  value : Arr DataString

/-- `mod_auth_plugin_config`; `authRequire` has the elements of the array. -/
structure ModAuthPluginConfig where
  authRequire : List DataArray
  authPlainUserfile : Buffer
  authHtdigestUserfile : Buffer
  authHtpasswdUserfile : Buffer
  authBackend : AuthBackend

/-- `stream_open`; `mmap` refuses a file without a byte. -/
def streamOpenFn (files : Bytes → Option Bytes) (fn : Buffer) : Option Bytes :=
  (files fn.str).filter (!·.isEmpty)

section Operations

variable [Malloc]

/-- The loop over an `htdigest` file, `rest` being the file from `f_line` on. -/
def htdigestLoop (username realm password : Buffer) : Nat → Bytes → Option (Int × Buffer)
  | 0, _ => none
  | fuel + 1, rest =>
    if rest = [] then some (-1, password)
    else
      match strchr rest 58 with
      | none => some (-1, password)
      | some uLen =>
        let fRealm := rest.drop (uLen + 1)
        match strchr fRealm 58 with
        | none => some (-1, password)
        | some rLen =>
          let fPwd := fRealm.drop (rLen + 1)
          let e := strchr fPwd 10
          if username.used - 1 = uLen ∧ realm.used - 1 = rLen ∧
              strneq uLen username.ptr rest = true ∧ strneq rLen realm.ptr fRealm = true then
            some (0, bufferCopyStringLen password (some (fPwd.take (e.getD fPwd.length))))
          else
            match e with
            | none => some (-1, password)
            | some e => htdigestLoop username realm password fuel (fPwd.drop (e + 1))

/-- The loop over an `htpasswd` or plain file. -/
def htpasswdLoop (username password : Buffer) : Nat → Bytes → Option (Int × Buffer)
  | 0, _ => none
  | fuel + 1, rest =>
    if rest = [] then some (-1, password)
    else
      match strchr rest 58 with
      | none => some (-1, password)
      | some uLen =>
        let fPwd := rest.drop (uLen + 1)
        let e := strchr fPwd 10
        if username.used - 1 = uLen ∧ strneq uLen username.ptr rest = true then
          some (0, bufferCopyStringLen password (some (fPwd.take (e.getD fPwd.length))))
        else
          match e with
          | none => some (-1, password)
          | some e => htpasswdLoop username password fuel (fPwd.drop (e + 1))

def httpAuthGetPassword (files : Bytes → Option Bytes) (conf : ModAuthPluginConfig)
    (username realm password : Buffer) : Option (Int × Buffer) :=
  if username.used = 0 ∨ realm.used = 0 then some (-1, password)
  else
    match conf.authBackend with
    | .htdigest =>
      if bufferIsEmpty conf.authHtdigestUserfile then some (-1, password)
      else
        match streamOpenFn files conf.authHtdigestUserfile with
        | none => some (-1, password)
        | some f => htdigestLoop username realm password (f.length + 1) f
    | .ldap => some (0, password)
    | .unset => some (-1, password)
    | backend =>
      let authFn :=
        if backend = .htpasswd then conf.authHtpasswdUserfile else conf.authPlainUserfile
      if bufferIsEmpty authFn then some (-1, password)
      else
        match streamOpenFn files authFn with
        | none => some (-1, password)
        | some f => htpasswdLoop username password (f.length + 1) f

end Operations

/-! ## The lines of a file -/

/-- The text behind the colon of a line that starts with the name and a colon. -/
def linePassword (name line : Bytes) : Option Bytes :=
  if name ++ [58] <+: line then some (line.drop (name.length + 1)) else none

def filePassword (name : Bytes) (lines : List Bytes) : Option Bytes :=
  lines.findSome? (linePassword name)

/-- The lines that do not stand directly behind a line without a colon; `apart` says whether the
first one counts. -/
def apartLines : Bool → List Bytes → List Bytes
  | _, [] => []
  | apart, line :: lines =>
    (if apart then [line] else []) ++ apartLines (decide (58 ∈ line)) lines

variable {name line u pwd : Bytes} {lines : List Bytes}

theorem linePassword_eq_none (h : ¬ name ++ [58] <+: line) : linePassword name line = none :=
  if_neg h

theorem linePassword_colonless (h : 58 ∉ line) : linePassword name line = none :=
  linePassword_eq_none fun hpre => h (hpre.subset (by simp))

theorem linePassword_entry (hname : 58 ∉ name) (hu : 58 ∉ u) :
    linePassword name (u ++ 58 :: pwd) = if name = u then some pwd else none := by
  unfold linePassword
  by_cases heq : name = u
  · subst heq
    have hpre : name ++ [58] <+: name ++ 58 :: pwd := ⟨pwd, by simp⟩
    rw [if_pos hpre, if_pos rfl, drop_append_cons]
  · have hnot : ¬ name ++ [58] <+: u ++ 58 :: pwd := by
      rintro ⟨post, hpost⟩
      rw [List.append_assoc] at hpost
      exact heq (append_inj_of_stopsAt hname hu (Or.inr ⟨_, rfl⟩) (Or.inr ⟨_, rfl⟩) hpost).1
    rw [if_neg hnot, if_neg heq]

theorem filePassword_eq_none : filePassword name lines = none ↔
    ∀ line ∈ lines, ¬ name ++ [58] <+: line := by
  unfold filePassword
  rw [List.findSome?_eq_none_iff]
  refine forall₂_congr fun line _ => ?_
  unfold linePassword
  split <;> simp_all

theorem filePassword_apartLines_colonless {front : List Bytes} (hfront : ∀ l ∈ front, 58 ∉ l)
    (hne : front ≠ []) (apart : Bool) :
    filePassword name (apartLines apart (front ++ line :: lines)) =
      filePassword name (apartLines (decide (58 ∈ line)) lines) := by
  induction front generalizing apart with
  | nil => exact absurd rfl hne
  | cons first front ih =>
    obtain ⟨hfirst, hfront⟩ := List.forall_mem_cons.mp hfront
    have hskip : filePassword name (apartLines apart (first :: (front ++ line :: lines))) =
        filePassword name (apartLines false (front ++ line :: lines)) := by
      unfold filePassword
      rw [apartLines, List.findSome?_append, decide_eq_false hfirst]
      cases apart with
      | false => simp
      | true => simp [linePassword_colonless hfirst]
    rw [List.cons_append, hskip]
    cases front with
    | nil => rfl
    | cons second front => exact ih hfront (by simp) false

theorem filePassword_apartLines_none (h : ∀ l ∈ lines, 58 ∉ l) (apart : Bool) :
    filePassword name (apartLines apart lines) = none := by
  induction lines generalizing apart with
  | nil => rfl
  | cons line lines ih =>
    obtain ⟨hline, hlines⟩ := List.forall_mem_cons.mp h
    unfold filePassword at ih ⊢
    rw [apartLines, List.findSome?_append, ih hlines]
    cases apart with
    | false => rfl
    | true => simp [linePassword_colonless hline]

/-! ## What the loop reads -/

/-- The file as the loop cuts it: a user is what stands in front of the next colon, over the ends of
lines, and a password goes on to the end of its line. -/
inductive Records : Bytes → List (Bytes × Bytes) → Prop
  | stop {rest : Bytes} (h : 58 ∉ rest) : Records rest []
  | last {u pwd : Bytes} (hu : 58 ∉ u) (hpwd : 10 ∉ pwd) : Records (u ++ 58 :: pwd) [(u, pwd)]
  | next {u pwd rest : Bytes} {rs : List (Bytes × Bytes)} (hu : 58 ∉ u) (hpwd : 10 ∉ pwd)
      (h : Records rest rs) : Records (u ++ 58 :: (pwd ++ 10 :: rest)) ((u, pwd) :: rs)

theorem lookup_record (name u pwd : Bytes) (rs : List (Bytes × Bytes)) :
    ((u, pwd) :: rs).lookup name = if name = u then some pwd else rs.lookup name := by
  rw [List.lookup_cons]
  by_cases heq : name = u
  · rw [if_pos heq, beq_iff_eq.mpr heq]
  · rw [if_neg heq, beq_eq_false_iff_ne.mpr heq]

theorem exists_records : ∀ {n : Nat} {rest : Bytes}, rest.length < n → ∃ rs, Records rest rs
  | 0, _, h => absurd h (Nat.not_lt_zero _)
  | n + 1, rest, h => by
    by_cases hcolon : 58 ∈ rest
    · obtain ⟨u, more, rfl, hu⟩ := List.eq_append_cons_of_mem hcolon
      by_cases hend : 10 ∈ more
      · obtain ⟨pwd, rest', rfl, hpwd⟩ := List.eq_append_cons_of_mem hend
        have hshorter : rest'.length < n := by
          simp only [List.length_append, List.length_cons] at h
          omega
        obtain ⟨rs, hrs⟩ := exists_records hshorter
        exact ⟨_, .next hu hpwd hrs⟩
      · exact ⟨_, .last hu hend⟩
    · exact ⟨_, .stop hcolon⟩

theorem Records.of_nil {rs : List (Bytes × Bytes)} (h : Records [] rs) : rs = [] := by
  generalize hrest : ([] : Bytes) = rest at h
  cases h with
  | stop => rfl
  | last => simp at hrest
  | next => simp at hrest

section Loop

variable [Malloc] {username password : Buffer} {rest content : Bytes} {rs : List (Bytes × Bytes)}

def passwordAnswer (password : Buffer) : Option Bytes → Int × Buffer
  | some pwd => (0, bufferCopyStringLen password (some pwd))
  | none => (-1, password)

omit [Malloc] in
theorem matchesUser_iff (hname : username.Text name) (hcstr : IsCStr name) (hu : 58 ∉ u)
    (more : Bytes) : (username.used - 1 = u.length ∧
      strneq u.length username.ptr (u ++ 58 :: more) = true) ↔ name = u := by
  obtain ⟨behind, hptr⟩ := hname.ptr_eq
  have hused := hname.used
  constructor
  · rintro ⟨hlength, heq⟩
    have hlen : u.length = name.length := by omega
    rw [hptr, hlen, strneq_length hcstr] at heq
    obtain ⟨t, ht⟩ := heq
    exact (List.append_inj ht hlen.symm).1
  · rintro rfl
    rw [hptr, strneq_length hcstr]
    exact ⟨by omega, List.prefix_append _ _⟩

theorem htpasswdLoop_records (hname : username.Text name) (hcstr : IsCStr name)
    (h : Records rest rs) : ∀ {n : Nat}, rest.length < n →
      htpasswdLoop username password n rest = some (passwordAnswer password (rs.lookup name)) := by
  induction h with
  | stop hcolon =>
    intro n hn
    obtain ⟨n, rfl⟩ : ∃ m, n = m + 1 := ⟨n - 1, by omega⟩
    unfold htpasswdLoop
    split
    · rfl
    · rw [strchr_eq_none.mpr hcolon]
      rfl
  | @last u pwd hu hpwd =>
    intro n hn
    obtain ⟨n, rfl⟩ : ∃ m, n = m + 1 := ⟨n - 1, by omega⟩
    unfold htpasswdLoop
    rw [if_neg (by simp), strchr_append_cons hu]
    dsimp only
    rw [drop_append_cons, strchr_eq_none.mpr hpwd, Option.getD_none, List.take_length]
    simp only [matchesUser_iff hname hcstr hu]
    rw [lookup_record]
    by_cases heq : name = u
    · rw [if_pos heq, if_pos heq]
      rfl
    · rw [if_neg heq, if_neg heq]
      rfl
  | @next u pwd rest rs hu hpwd h ih =>
    intro n hn
    obtain ⟨n, rfl⟩ : ∃ m, n = m + 1 := ⟨n - 1, by omega⟩
    have hshorter : rest.length < n := by
      simp only [List.length_append, List.length_cons] at hn
      omega
    unfold htpasswdLoop
    rw [if_neg (by simp), strchr_append_cons hu]
    dsimp only
    rw [drop_append_cons, strchr_append_cons hpwd, Option.getD_some, List.take_left' rfl]
    simp only [matchesUser_iff hname hcstr hu]
    rw [lookup_record]
    by_cases heq : name = u
    · rw [if_pos heq, if_pos heq]
      rfl
    · rw [if_neg heq, if_neg heq, drop_append_cons, ih hshorter]

end Loop

/-! ## Records and lines -/

theorem splitOn_record (hpwd : 10 ∉ pwd) {front : List Bytes} {last : Bytes}
    (hu : u.splitOn 10 = front ++ [last]) (rest : Bytes) :
    (u ++ 58 :: pwd).splitOn 10 = front ++ [last ++ 58 :: pwd] ∧
      (u ++ 58 :: (pwd ++ 10 :: rest)).splitOn 10 =
        front ++ (last ++ 58 :: pwd) :: rest.splitOn 10 := by
  have hline : 10 ∉ 58 :: pwd := by simp [hpwd]
  have hrecord : (u ++ 58 :: pwd).splitOn 10 = front ++ [last ++ 58 :: pwd] :=
    splitOn_append hu (List.splitOn_eq_singleton hline)
  refine ⟨hrecord, ?_⟩
  have hassoc : u ++ 58 :: (pwd ++ 10 :: rest) = (u ++ 58 :: pwd) ++ 10 :: rest := by simp
  rw [hassoc, List.splitOn_append_cons_self, hrecord, List.append_assoc]
  rfl

theorem filePassword_record (hname : 58 ∉ name) (hline : 10 ∉ name) (hu : 58 ∉ u)
    {front : List Bytes} {last : Bytes} (hsplit : u.splitOn 10 = front ++ [last]) :
    filePassword name (apartLines true (front ++ (last ++ 58 :: pwd) :: lines)) =
      if name = u then some pwd else filePassword name (apartLines true lines) := by
  have hjoin : [10].intercalate (front ++ [last]) = u := by
    rw [← hsplit, List.intercalate_splitOn]
  have hcolon : ∀ l ∈ front ++ [last], 58 ∉ l := fun l hl hmem =>
    hu (mem_of_mem_splitOn (by rw [hsplit]; exact hl) hmem)
  have hlast : 58 ∉ last := hcolon last (by simp)
  have hhas : decide ((58 : UInt8) ∈ last ++ 58 :: pwd) = true := by simp
  by_cases hfront : front = []
  · subst hfront
    obtain rfl : last = u := by simpa using hjoin
    unfold filePassword
    rw [List.nil_append, apartLines, List.findSome?_append, hhas]
    simp only [if_true, List.findSome?_cons, List.findSome?_nil, linePassword_entry hname hlast]
    by_cases heq : name = last
    · simp [heq]
    · simp [heq]
  · have hne : name ≠ u := by
      rintro rfl
      have hsingle := List.splitOn_eq_singleton hline
      rw [hsplit] at hsingle
      exact hfront (by simpa using congrArg List.length hsingle)
    rw [filePassword_apartLines_colonless (fun l hl => hcolon l (List.mem_append_left _ hl)) hfront,
      hhas, if_neg hne]

theorem Records.lookup_name {rest : Bytes} {rs : List (Bytes × Bytes)} (h : Records rest rs)
    (hname : 58 ∉ name) (hline : 10 ∉ name) :
    rs.lookup name = filePassword name (apartLines true (rest.splitOn 10)) := by
  induction h with
  | stop hcolon =>
    have hnone : ∀ l ∈ List.splitOn (10 : UInt8) _, 58 ∉ l := fun l hl hmem =>
      hcolon (mem_of_mem_splitOn hl hmem)
    rw [filePassword_apartLines_none hnone]
    rfl
  | @last u pwd hu hpwd =>
    have hsplit := (List.dropLast_append_getLast (List.splitOn_ne_nil 10 u)).symm
    rw [(splitOn_record hpwd hsplit []).1, filePassword_record hname hline hu hsplit, lookup_record]
    rfl
  | @next u pwd rest rs hu hpwd h ih =>
    have hsplit := (List.dropLast_append_getLast (List.splitOn_ne_nil 10 u)).symm
    rw [(splitOn_record hpwd hsplit rest).2, filePassword_record hname hline hu hsplit,
      lookup_record, ih]

theorem Records.lookup_colon {rest : Bytes} {rs : List (Bytes × Bytes)} (h : Records rest rs)
    (hname : 58 ∈ name) : rs.lookup name = none := by
  induction h with
  | stop => rfl
  | @last u pwd hu hpwd =>
    rw [lookup_record, if_neg fun heq : name = u => hu (heq ▸ hname)]
    rfl
  | @next u pwd rest rs hu hpwd h ih =>
    rw [lookup_record, if_neg fun heq : name = u => hu (heq ▸ hname), ih]

/-- Where the loop looks for a user: at the start, and behind a line with a colon. -/
def RecordStart (pre : Bytes) : Prop :=
  pre = [] ∨ ∃ front line, pre = front ++ 58 :: (line ++ [10]) ∧ 10 ∉ line

theorem recordStart_newline {pre : Bytes} (h : RecordStart (u ++ 58 :: pre)) : 10 ∈ pre := by
  rcases h with hnil | ⟨front, line, heq, -⟩
  · simp at hnil
  · have hend : front ++ 58 :: (line ++ [10]) = (front ++ 58 :: line) ++ [10] := by simp
    rw [hend] at heq
    rcases List.eq_nil_or_concat' pre with rfl | ⟨pre, c, rfl⟩
    · nomatch (List.append_inj' heq rfl).2
    · have hconcat : u ++ 58 :: (pre ++ [c]) = (u ++ 58 :: pre) ++ [c] := by simp
      rw [hconcat] at heq
      obtain rfl : c = 10 := List.singleton_inj.mp (List.append_inj' heq rfl).2
      exact List.mem_append_right _ List.mem_cons_self

theorem recordStart_next (hpwd : 10 ∉ pwd) (pre : Bytes) :
    RecordStart (u ++ 58 :: (pwd ++ 10 :: pre)) ↔ RecordStart pre := by
  constructor
  · rintro (hnil | ⟨front, line, heq, hline⟩)
    · simp at hnil
    · rcases List.eq_nil_or_concat' pre with rfl | ⟨pre, c, rfl⟩
      · exact Or.inl rfl
      have hleft : u ++ 58 :: (pwd ++ 10 :: (pre ++ [c])) =
          ((u ++ 58 :: pwd) ++ 10 :: pre) ++ [c] := by simp
      have hright : front ++ 58 :: (line ++ [10]) = (front ++ 58 :: line) ++ [10] := by simp
      rw [hleft, hright] at heq
      obtain ⟨hfront, hc⟩ := List.append_inj' heq rfl
      obtain rfl : c = 10 := List.singleton_inj.mp hc
      rcases List.append_eq_append_iff.mp hfront with ⟨a, -, ha⟩ | ⟨a, -, ha⟩
      · cases a with
        | nil => nomatch (List.cons.inj ha).1
        | cons x a =>
          obtain ⟨-, rfl⟩ := List.cons.inj ha
          exact Or.inr ⟨a, line, by simp, hline⟩
      · have hmem : (10 : UInt8) ∈ 58 :: line := by
          rw [ha]
          exact List.mem_append_right _ List.mem_cons_self
        exact absurd ((List.mem_cons.mp hmem).resolve_left (by decide)) hline
  · rintro (rfl | ⟨front, line, rfl, hline⟩)
    · exact Or.inr ⟨u, pwd, rfl, hpwd⟩
    · exact Or.inr ⟨u ++ 58 :: (pwd ++ 10 :: front), line, by simp, hline⟩

/-- `name:` stands in the text where the loop looks for a user. -/
def FoundAtStart (name rest : Bytes) : Prop :=
  ∃ pre post, rest = pre ++ (name ++ 58 :: post) ∧ RecordStart pre

theorem foundAtStart_record (hname : 58 ∉ name) (hu : 58 ∉ u) (more : Bytes) :
    FoundAtStart name (u ++ 58 :: more) ↔ name = u ∨
      ∃ pre post, more = pre ++ (name ++ 58 :: post) ∧ RecordStart (u ++ 58 :: pre) := by
  constructor
  · rintro ⟨pre, post, heq, hstart⟩
    by_cases hcolon : 58 ∈ pre
    · obtain ⟨a, b, rfl, ha⟩ := List.eq_append_cons_of_mem hcolon
      rw [List.append_assoc, List.cons_append] at heq
      obtain ⟨rfl, hmore⟩ := append_inj_of_stopsAt hu ha (Or.inr ⟨_, rfl⟩) (Or.inr ⟨_, rfl⟩) heq
      exact Or.inr ⟨b, post, (List.cons.inj hmore).2, hstart⟩
    · rcases hstart with rfl | ⟨front, line, rfl, -⟩
      · exact Or.inl (append_inj_of_stopsAt hname hu (Or.inr ⟨_, rfl⟩) (Or.inr ⟨_, rfl⟩) heq.symm).1
      · simp at hcolon
  · rintro (rfl | ⟨pre, post, rfl, hstart⟩)
    · exact ⟨[], more, rfl, Or.inl rfl⟩
    · exact ⟨u ++ 58 :: pre, post, by simp, hstart⟩

theorem Records.lookup_isSome {rest : Bytes} {rs : List (Bytes × Bytes)} (h : Records rest rs)
    (hname : 58 ∉ name) : (rs.lookup name).isSome ↔ FoundAtStart name rest := by
  induction h with
  | stop hcolon =>
    refine ⟨fun hsome => (nomatch hsome), ?_⟩
    rintro ⟨pre, post, rfl, -⟩
    simp at hcolon
  | @last u pwd hu hpwd =>
    have hnone : ¬ ∃ pre post,
        pwd = pre ++ (name ++ 58 :: post) ∧ RecordStart (u ++ 58 :: pre) := by
      rintro ⟨pre, post, rfl, hstart⟩
      exact hpwd (List.mem_append_left _ (recordStart_newline hstart))
    rw [foundAtStart_record hname hu, or_iff_left hnone, lookup_record]
    by_cases heq : name = u
    · simp [heq]
    · simp [heq]
  | @next u pwd rest rs hu hpwd h ih =>
    have hnext : (∃ pre post, pwd ++ 10 :: rest = pre ++ (name ++ 58 :: post) ∧
        RecordStart (u ++ 58 :: pre)) ↔ FoundAtStart name rest := by
      constructor
      · rintro ⟨pre, post, heq, hstart⟩
        obtain ⟨a, b, rfl, ha⟩ := List.eq_append_cons_of_mem (recordStart_newline hstart)
        rw [List.append_assoc, List.cons_append] at heq
        obtain ⟨rfl, hrest⟩ :=
          append_inj_of_stopsAt hpwd ha (Or.inr ⟨_, rfl⟩) (Or.inr ⟨_, rfl⟩) heq
        exact ⟨b, post, (List.cons.inj hrest).2, (recordStart_next hpwd b).mp hstart⟩
      · rintro ⟨pre, post, rfl, hstart⟩
        exact ⟨pwd ++ 10 :: pre, post, by simp, (recordStart_next hpwd pre).mpr hstart⟩
    rw [foundAtStart_record hname hu, hnext, ← ih, lookup_record]
    by_cases heq : name = u
    · simp [heq]
    · simp [heq]

section Answer

variable [Malloc] {files : Bytes → Option Bytes} {conf : ModAuthPluginConfig}
  {username realm password : Buffer} {content : Bytes}

/-- The file of an `htpasswd` or plain backend. -/
def ModAuthPluginConfig.userfile (conf : ModAuthPluginConfig) : Buffer :=
  if conf.authBackend = .htpasswd then conf.authHtpasswdUserfile else conf.authPlainUserfile

/-- The password of the first line that starts with the name and a colon is found, or none if there
is no such line. -/
def FindsPassword (files : Bytes → Option Bytes) (conf : ModAuthPluginConfig)
    (username realm password : Buffer) (name content : Bytes) : Prop :=
  ∃ ret password', httpAuthGetPassword files conf username realm password = some (ret, password') ∧
    match filePassword name (content.splitOn 10) with
    | some pwd => ret = 0 ∧ password'.Text pwd
    | none => ret = -1

/-- Lines without a colon do not get between the user and the line. -/
def ReadApart (name content : Bytes) : Prop :=
  if 58 ∈ name then ∀ line ∈ content.splitOn 10, ¬ name ++ [58] <+: line
  else if 10 ∈ name then ¬ FoundAtStart name content
  else filePassword name (apartLines true (content.splitOn 10)) =
    filePassword name (content.splitOn 10)

variable (hbackend : conf.authBackend = .htpasswd ∨ conf.authBackend = .plain)
  (hfn : conf.userfile.used ≠ 0) (hfile : files conf.userfile.str = some content)
  (hname : username.Text name) (hcstr : IsCStr name) (hrealm : realm.used ≠ 0)

include hbackend hfn hfile hname hcstr hrealm

theorem httpAuthGetPassword_records {rs : List (Bytes × Bytes)} (h : Records content rs) :
    httpAuthGetPassword files conf username realm password =
      some (passwordAnswer password (rs.lookup name)) := by
  have hused : ¬ (username.used = 0 ∨ realm.used = 0) := by
    have := hname.used
    omega
  have hempty : bufferIsEmpty conf.userfile = false := beq_eq_false_iff_ne.mpr hfn
  have hloop : (if bufferIsEmpty conf.userfile = true then some ((-1 : Int), password)
      else
        match streamOpenFn files conf.userfile with
        | none => some (-1, password)
        | some f => htpasswdLoop username password (f.length + 1) f) =
        some (passwordAnswer password (rs.lookup name)) := by
    rw [hempty, if_neg Bool.false_ne_true, streamOpenFn, hfile]
    cases content with
    | nil =>
      obtain rfl : rs = [] := h.of_nil
      rfl
    | cons c rest => exact htpasswdLoop_records hname hcstr h (Nat.lt_succ_self _)
  unfold httpAuthGetPassword
  rw [if_neg hused]
  unfold ModAuthPluginConfig.userfile at hloop
  rcases hbackend with hb | hb <;> rw [hb] at hloop ⊢ <;> exact hloop

/-- **The password is found line by line** exactly where no line without a colon is in front of the
one that counts. -/
theorem findsPassword_iff :
    FindsPassword files conf username realm password name content ↔ ReadApart name content := by
  obtain ⟨rs, hrs⟩ := exists_records (Nat.lt_succ_self content.length)
  have hget : httpAuthGetPassword files conf username realm password =
      some (passwordAnswer password (rs.lookup name)) :=
    httpAuthGetPassword_records hbackend hfn hfile hname hcstr hrealm hrs
  have hfinds : FindsPassword files conf username realm password name content ↔
      rs.lookup name = filePassword name (content.splitOn 10) := by
    unfold FindsPassword
    rw [hget]
    constructor
    · rintro ⟨ret, password', heq, hfound⟩
      obtain ⟨hret, htext⟩ := Prod.mk.inj (Option.some.inj heq)
      cases hrecord : rs.lookup name with
      | none =>
        rw [hrecord] at hret
        subst hret
        cases hpwd : filePassword name (content.splitOn 10) with
        | none => rfl
        | some pwd =>
          rw [hpwd] at hfound
          nomatch hfound.1
      | some pwd' =>
        rw [hrecord] at hret htext
        subst hret htext
        cases hpwd : filePassword name (content.splitOn 10) with
        | none =>
          rw [hpwd] at hfound
          nomatch hfound
        | some pwd =>
          rw [hpwd] at hfound
          have hcopied := text_bufferCopyStringLen password pwd'
          exact congrArg some (List.append_cancel_right (hcopied.holds.symm.trans hfound.2.holds))
    · intro heq
      rw [heq]
      refine ⟨_, _, rfl, ?_⟩
      cases filePassword name (content.splitOn 10) with
      | none => rfl
      | some pwd => exact ⟨rfl, text_bufferCopyStringLen password pwd⟩
  rw [hfinds]
  unfold ReadApart
  split
  · next hcolon => rw [hrs.lookup_colon hcolon, eq_comm, filePassword_eq_none]
  · next hcolon =>
    split
    · next hend =>
      have hnone : filePassword name (content.splitOn 10) = none := by
        refine filePassword_eq_none.mpr fun line hline hpre => ?_
        exact not_mem_of_mem_splitOn line hline (hpre.subset (List.mem_append_left _ hend))
      rw [hnone, ← hrs.lookup_isSome hcolon, Bool.not_eq_true, Option.isSome_eq_false_iff,
        Option.isNone_iff_eq_none]
    · next hend => rw [hrs.lookup_name hcolon hend]

end Answer

def htpasswdConf : ModAuthPluginConfig where
  authRequire := []
  authPlainUserfile := bufferInit
  authHtdigestUserfile := bufferInit
  authHtpasswdUserfile := textBuffer (ascii "/users")
  authBackend := .htpasswd

def usersFile : Bytes := ascii "bob:x\nalice:secret\n"

theorem readApart_alice : ReadApart (ascii "alice") usersFile := by
  rw [ReadApart, if_neg (by decide), if_neg (by decide)]
  decide +kernel

theorem findsPassword_iff_alice :
    @FindsPassword zeroMalloc (fun _ => some usersFile) htpasswdConf (textBuffer (ascii "alice"))
      (textBuffer (ascii "realm")) bufferInit (ascii "alice") usersFile :=
  letI : Malloc := zeroMalloc
  have hfn : htpasswdConf.userfile.used ≠ 0 := by decide
  have hcstr : IsCStr (ascii "alice") := by decide
  have hrealm : (textBuffer (ascii "realm")).used ≠ 0 := by decide
  have hfile : (fun _ => some usersFile : Bytes → Option Bytes) htpasswdConf.userfile.str =
      some usersFile := rfl
  (findsPassword_iff (Or.inl rfl) hfn hfile (text_textBuffer _) hcstr hrealm).mpr readApart_alice

/-- A comment in front of her line locks the user out. -/
theorem not_findsPassword_comment :
    ¬ @FindsPassword zeroMalloc (fun _ => some (ascii "# users\nalice:secret\n")) htpasswdConf
      (textBuffer (ascii "alice")) (textBuffer (ascii "realm")) bufferInit (ascii "alice")
      (ascii "# users\nalice:secret\n") := by
  have hget : (@httpAuthGetPassword zeroMalloc (fun _ => some (ascii "# users\nalice:secret\n"))
      htpasswdConf (textBuffer (ascii "alice")) (textBuffer (ascii "realm")) bufferInit).map
        Prod.fst = some (-1) := by decide +kernel
  have hline : filePassword (ascii "alice") ((ascii "# users\nalice:secret\n").splitOn 10) =
      some (ascii "secret") := by decide +kernel
  rintro ⟨ret, password', heq, hfound⟩
  rw [heq] at hget
  rw [hline] at hfound
  exact absurd (hfound.1.symm.trans (Option.some.inj hget)) (by decide)

end Lighttpd

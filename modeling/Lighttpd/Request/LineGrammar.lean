import Lighttpd.Request.KeepAlive

/-!
# The grammar of the request line

The loop over the first line cuts it at its two blanks. What it takes of the three words is read as
C strings and the version with `strtol`, and of an absolute uri only the path is looked at. A line of
the grammar is taken apart as it should be, and without these liberties no other line is taken
(`requestLine_grammar`).
-/

namespace Lighttpd

open CLib

/-! ## The grammar -/

/-- A uri with scheme and host, and the path from the `/` behind them. -/
structure AbsoluteUri (uri host path : Bytes) : Prop where
  scheme : uri = ascii "http://" ++ (host ++ path) ∨ uri = ascii "https://" ++ (host ++ path)
  host : 47 ∉ host
  path : path.head? = some 47

inductive StoredUri : Bytes → Bytes → Prop
  | absolute {uri host path : Bytes} (h : AbsoluteUri uri host path) : StoredUri uri path
  | plain {uri : Bytes} (h : ∀ host path, ¬ AbsoluteUri uri host path) : StoredUri uri uri

/-- `METHOD SP URI SP "HTTP/" 1*DIGIT "." 1*DIGIT` with a known method, a version 1.0 or 1.1 and the
characters of the uri in `ok`. -/
structure RequestLineGrammar (ok : UInt8 → Prop) (line : Bytes) (method : HttpMethod) (uri : Bytes)
    (minor : Nat) : Prop where
  words : ∃ name majorText minorText, (method, name) ∈ httpMethods ∧ Digits majorText ∧
    Digits minorText ∧ digitsValue majorText = 1 ∧ digitsValue minorText = minor ∧
      line = name ++ 32 :: (uri ++ 32 :: (ascii "HTTP/" ++ (majorText ++ 46 :: minorText)))
  minor : minor ≤ 1
  blank : 32 ∉ uri
  nonempty : uri ≠ []
  chars : ∀ c ∈ uri, ok c

def Printed (c : UInt8) : Prop := 32 ≤ c ∧ c ≠ 127

def UriChar (c : UInt8) : Prop := requestUriIsValidChar c = true

/-! ## What is taken -/

/-- A version as `strtol` reads it. -/
structure TakenVersion (proto : Bytes) (minor : Nat) : Prop where
  parts : ∃ majorText minorText, proto = ascii "HTTP/" ++ (majorText ++ 46 :: minorText) ∧
    46 ∉ majorText ∧ majorText ≠ [] ∧ minorText ≠ [] ∧ strtol majorText = (1, []) ∧
      strtol minorText = ((minor : Int), [])
  minor : minor ≤ 1

structure TakenLine (line : Bytes) (method : HttpMethod) (uri : Bytes) (minor : Nat) : Prop where
  words : ∃ name proto, IsRequestLine line name uri proto ∧
    getHttpMethodKey (cstr name) = some method ∧ TakenVersion (cstr proto) minor
  nonempty : (splitUri uri).2 ≠ []
  chars : (splitUri uri).2.all requestUriIsValidChar = true

/-- A line on which the code takes no liberties: no NUL in the method and the version, no blank and
no sign in the version, and no invalid character in the host of an absolute uri. -/
def CleanLine (line : Bytes) : Prop :=
  ∀ name uri proto, IsRequestLine line name uri proto → 0 ∉ name ∧ 0 ∉ proto ∧
    (∀ c ∈ proto, isSpace c = false) ∧ 43 ∉ proto ∧ 45 ∉ proto ∧
      ∀ host path, AbsoluteUri uri host path → ∀ c ∈ host, UriChar c

def storedVersion (allowHttp11 : Bool) (minor : Nat) : HttpVersion :=
  if minor = 1 ∧ allowHttp11 = true then .v11 else .v10

section Words

variable {proto uri line : Bytes} {method : HttpMethod} {minor : Nat}

theorem getHttpMethodKey_eq_some {name : Bytes} :
    getHttpMethodKey name = some method ↔ (method, name) ∈ httpMethods := by
  have hall : ∀ kv ∈ httpMethods, getHttpMethodKey kv.2 = some kv.1 := by decide
  constructor
  · intro h
    obtain ⟨kv, hfind, hmethod⟩ := Option.map_eq_some_iff.mp h
    have hname := List.find?_some hfind
    have hmem := List.mem_of_find?_eq_some hfind
    rw [beq_iff_eq] at hname
    rw [← hmethod, ← hname]
    exact hmem
  · exact fun h => hall _ h

theorem requestVersion_next (splitVals : Arr DataString) (con : Connection)
    (h : TakenVersion proto minor) : requestVersion splitVals proto con =
      .next (con.mapRequest fun r =>
        { r with httpVersion := storedVersion con.conf.allowHttp11 minor }) := by
  obtain ⟨⟨majorText, minorText, rfl, hdot, hne, hne', hmajor, hminor⟩, hle⟩ := h
  have hnum : versionNumbers (majorText ++ 46 :: minorText) = some (1, (minor : Int)) :=
    versionNumbers_eq_some.mpr ⟨majorText, minorText, rfl, hdot, hne, hne', hmajor, hminor⟩
  have hdrop : (ascii "HTTP/" ++ (majorText ++ 46 :: minorText)).drop 5 =
      majorText ++ 46 :: minorText := rfl
  have hpre : (ascii "HTTP/").isPrefixOf (ascii "HTTP/" ++ (majorText ++ 46 :: minorText)) = true :=
    List.isPrefixOf_iff_prefix.mpr (List.prefix_append _ _)
  unfold requestVersion storedVersion
  rw [if_pos hpre, hdrop, hnum]
  obtain rfl | rfl : minor = 0 ∨ minor = 1 := by omega
  · simp
  · simp

theorem takenVersion_of_next {splitVals : Arr DataString} {con con' : Connection}
    (h : requestVersion splitVals proto con = .next con') : ∃ minor, TakenVersion proto minor := by
  unfold requestVersion at h
  split at h
  · next hpre =>
    obtain ⟨t, rfl⟩ := List.isPrefixOf_iff_prefix.mp hpre
    have hdrop : (ascii "HTTP/" ++ t).drop 5 = t := rfl
    rw [hdrop] at h
    split at h
    · cases h
    · next majorNum minorNum hnum =>
      obtain ⟨majorText, minorText, rfl, hdot, hne, hne', hmajor, hminor⟩ :=
        versionNumbers_eq_some.mp hnum
      have htaken : ∀ n : Nat, n ≤ 1 → majorNum = 1 → minorNum = n →
          TakenVersion (ascii "HTTP/" ++ (majorText ++ 46 :: minorText)) n := by
        rintro n hn rfl rfl
        exact ⟨⟨majorText, minorText, rfl, hdot, hne, hne', hmajor, hminor⟩, hn⟩
      split at h
      · next h11 => exact ⟨1, htaken 1 (Nat.le_refl 1) h11.1 h11.2⟩
      · split at h
        · next h10 => exact ⟨0, htaken 0 (Nat.zero_le 1) h10.1 h10.2⟩
        · cases h
  · cases h

/-! ### The uri -/

theorem schemeAndHost_eq_some {scheme : Bytes} {n : Nat} (h : schemeAndHost scheme uri = some n) :
    ∃ host path, uri = scheme ++ (host ++ path) ∧ 47 ∉ host ∧ path.head? = some 47 ∧
      n = scheme.length + host.length := by
  unfold schemeAndHost at h
  split at h
  · next hpre =>
    obtain ⟨t, rfl⟩ := List.isPrefixOf_iff_prefix.mp hpre
    rw [List.drop_left' rfl] at h
    obtain ⟨k, hk, rfl⟩ := Option.map_eq_some_iff.mp h
    obtain ⟨host, b, hcut, hhost, hlen⟩ := strchr_eq_some hk
    obtain ⟨rest, hrest⟩ : cstr t <+: t := List.takeWhile_prefix _
    refine ⟨host, 47 :: b ++ rest, ?_, hhost, rfl, by rw [hlen]⟩
    rw [← hrest, hcut, List.append_assoc, List.cons_append]
  · cases h

theorem schemeAndHost_eq_none {scheme : Bytes} (hnul : 0 ∉ uri)
    (h : schemeAndHost scheme uri = none) {host path : Bytes} (hpath : path.head? = some 47) :
    uri ≠ scheme ++ (host ++ path) := by
  rintro rfl
  unfold schemeAndHost at h
  rw [if_pos (List.isPrefixOf_iff_prefix.mpr (List.prefix_append _ _)), List.drop_left' rfl,
    cstr_eq_self fun hmem => hnul (List.mem_append_right _ hmem), Option.map_eq_none_iff,
    strchr_eq_none] at h
  refine h (List.mem_append_right _ ?_)
  exact List.mem_of_mem_head? (Option.mem_def.mpr hpath)

theorem splitUri_cases (uri : Bytes) :
    (∃ host, AbsoluteUri uri host (splitUri uri).2) ∨ (splitUri uri).2 = uri ∧
      schemeAndHost (ascii "http://") uri = none ∧ schemeAndHost (ascii "https://") uri = none := by
  have hdrop : ∀ {scheme host path : Bytes}, (scheme ++ (host ++ path)).drop
      (scheme.length + host.length) = path := by
    intro scheme host path
    rw [← List.append_assoc, List.drop_left' (by rw [List.length_append])]
  unfold splitUri
  cases hhttp : schemeAndHost (ascii "http://") uri with
  | some n =>
    obtain ⟨host, path, rfl, hhost, hpath, rfl⟩ := schemeAndHost_eq_some hhttp
    refine Or.inl ⟨host, ?_⟩
    dsimp only
    rw [hdrop]
    exact ⟨Or.inl rfl, hhost, hpath⟩
  | none =>
    cases hhttps : schemeAndHost (ascii "https://") uri with
    | some n =>
      obtain ⟨host, path, rfl, hhost, hpath, rfl⟩ := schemeAndHost_eq_some hhttps
      refine Or.inl ⟨host, ?_⟩
      dsimp only
      rw [hdrop]
      exact ⟨Or.inr rfl, hhost, hpath⟩
    | none => exact Or.inr ⟨rfl, rfl, rfl⟩

theorem splitUri_stored (hnul : 0 ∉ uri) : StoredUri uri (splitUri uri).2 := by
  rcases splitUri_cases uri with ⟨host, habsolute⟩ | ⟨hwhole, hhttp, hhttps⟩
  · exact .absolute habsolute
  · rw [hwhole]
    refine .plain fun host path h => ?_
    rcases h.scheme with heq | heq
    · exact schemeAndHost_eq_none hnul hhttp h.path heq
    · exact schemeAndHost_eq_none hnul hhttps h.path heq

theorem uriChars_of_path (hpath : (splitUri uri).2.all requestUriIsValidChar = true)
    (hhost : ∀ host path, AbsoluteUri uri host path → ∀ c ∈ host, UriChar c) :
    ∀ c ∈ uri, UriChar c := by
  have hvalid := List.all_eq_true.mp hpath
  rcases splitUri_cases uri with ⟨host, habsolute⟩ | ⟨hwhole, -, -⟩
  · have hscheme : (∀ c ∈ ascii "http://", UriChar c) ∧ ∀ c ∈ ascii "https://", UriChar c := by
      unfold UriChar
      decide
    intro c hc
    have hparts : (c ∈ ascii "http://" ∨ c ∈ ascii "https://") ∨ c ∈ host ∨ c ∈ (splitUri uri).2 := by
      rcases habsolute.scheme with heq | heq
      · rw [heq, List.mem_append, List.mem_append] at hc
        exact hc.imp_left Or.inl
      · rw [heq, List.mem_append, List.mem_append] at hc
        exact hc.imp_left Or.inr
    rcases hparts with (hc | hc) | hc | hc
    · exact hscheme.1 c hc
    · exact hscheme.2 c hc
    · exact hhost host _ habsolute c hc
    · exact hvalid c hc
  · rw [hwhole] at hvalid
    exact hvalid

theorem splitUri_path (hne : uri ≠ []) (hchars : ∀ c ∈ uri, UriChar c) :
    (splitUri uri).2 ≠ [] ∧ (splitUri uri).2.all requestUriIsValidChar = true := by
  rcases splitUri_cases uri with ⟨host, habsolute⟩ | ⟨hwhole, -, -⟩
  · refine ⟨fun hnil => ?_, List.all_eq_true.mpr fun c hc => hchars c ?_⟩
    · have hhead := habsolute.path
      rw [hnil] at hhead
      cases hhead
    · rcases habsolute.scheme with heq | heq
      · rw [heq]
        exact List.mem_append_right _ (List.mem_append_right _ hc)
      · rw [heq]
        exact List.mem_append_right _ (List.mem_append_right _ hc)
  · rw [hwhole]
    exact ⟨hne, List.all_eq_true.mpr hchars⟩

/-! ### Lines of the grammar -/

theorem RequestLineGrammar.taken (h : RequestLineGrammar UriChar line method uri minor) :
    TakenLine line method uri minor := by
  obtain ⟨name, majorText, minorText, hname, hmajor, hminor, hone, hvalue, hline⟩ := h.words
  have hmethod : 32 ∉ name ∧ 0 ∉ name := by
    have hall : ∀ kv ∈ httpMethods, 32 ∉ kv.2 ∧ 0 ∉ kv.2 := by decide
    exact hall _ hname
  have hproto : ∀ c ∈ ascii "HTTP/" ++ (majorText ++ 46 :: minorText),
      c ∈ ascii "HTTP/" ∨ c = 46 ∨ isDigit c = true := by
    intro c hc
    rw [List.mem_append, List.mem_append, List.mem_cons] at hc
    rcases hc with hc | hc | rfl | hc
    · exact Or.inl hc
    · exact Or.inr (Or.inr (hmajor.2 c hc))
    · exact Or.inr (Or.inl rfl)
    · exact Or.inr (Or.inr (hminor.2 c hc))
  have hblank : 32 ∉ ascii "HTTP/" ++ (majorText ++ 46 :: minorText) := fun hc =>
    absurd (hproto 32 hc) (by decide)
  have hnul : IsCStr (ascii "HTTP/" ++ (majorText ++ 46 :: minorText)) := fun hc =>
    absurd (hproto 0 hc) (by decide)
  obtain ⟨hnonempty, hchars⟩ := splitUri_path h.nonempty h.chars
  refine ⟨⟨name, _, ⟨hline, hmethod.1, h.blank, hblank⟩, ?_, ?_⟩, hnonempty, hchars⟩
  · rw [cstr_eq_self hmethod.2]
    exact getHttpMethodKey_eq_some.mpr hname
  · rw [cstr_eq_self hnul]
    refine ⟨⟨majorText, minorText, rfl, hmajor.notMem rfl, hmajor.1, hminor.1, ?_, ?_⟩, h.minor⟩
    · rw [strtol_digits hmajor, hone]
      rfl
    · rw [strtol_digits hminor, hvalue]
      have hle := h.minor
      have hsaturate : saturate (minor : Int) = minor := saturate_eq (by omega) (by omega)
      rw [hsaturate]

theorem TakenLine.grammar (h : TakenLine line method uri minor) (hclean : CleanLine line) :
    RequestLineGrammar UriChar line method uri minor := by
  obtain ⟨name, proto, hline, hmethod, hversion⟩ := h.words
  obtain ⟨hname, hnul, hspace, h43, h45, hhost⟩ := hclean name uri proto hline
  rw [cstr_eq_self hname] at hmethod
  rw [cstr_eq_self hnul] at hversion
  obtain ⟨majorText, minorText, rfl, hdot, hne, hne', hmajor, hminor⟩ := hversion.parts
  have hin : ∀ {t : Bytes}, t = majorText ∨ t = minorText → ∀ c ∈ t,
      c ∈ ascii "HTTP/" ++ (majorText ++ 46 :: minorText) := by
    rintro t (rfl | rfl) c hc
    · exact List.mem_append_right _ (List.mem_append_left _ hc)
    · exact List.mem_append_right _ (List.mem_append_right _ (List.mem_cons_of_mem _ hc))
  have hdigits : ∀ {t : Bytes}, t = majorText ∨ t = minorText → t ≠ [] → (strtol t).2 = [] →
      Digits t := fun ht hne hend =>
    digits_of_strtol hne (fun c hc => hspace c (hin ht c hc)) (fun hc => h43 (hin ht _ hc))
      (fun hc => h45 (hin ht _ hc)) hend
  have hmajorDigits := hdigits (Or.inl rfl) hne (by rw [hmajor])
  have hminorDigits := hdigits (Or.inr rfl) hne' (by rw [hminor])
  have hle := hversion.minor
  refine ⟨⟨name, majorText, minorText, getHttpMethodKey_eq_some.mp hmethod, hmajorDigits,
    hminorDigits, ?_, ?_, hline.line⟩, hle, hline.uri, ?_, uriChars_of_path h.chars hhost⟩
  · have hvalue := (strtol_digits hmajorDigits).symm.trans hmajor
    exact (saturate_nat 1 (by decide)).mp (Prod.mk.inj hvalue).1
  · have hvalue := (strtol_digits hminorDigits).symm.trans hminor
    exact (saturate_nat minor (by omega)).mp (Prod.mk.inj hvalue).1
  · rintro rfl
    exact h.nonempty rfl

end Words

section Line

variable [Malloc] {con : Connection} {splitVals : Arr DataString} {text line rest uri : Bytes}
  {method : HttpMethod} {minor : Nat} {r : ReqLineEnd}

structure StoresLine (r : ReqLineEnd) (method : HttpMethod) (uri : Bytes) (version : HttpVersion) :
    Prop where
  status : r.con.httpStatus = 0
  method : r.con.request.httpMethod = method
  version : r.con.request.httpVersion = version
  uri : ∃ path, StoredUri uri path ∧ r.con.request.uri.Text path

theorem requestLineLoop_taken (splitVals : Arr DataString) (con : Connection)
    (hfirst : FirstLine text line rest) (h : TakenLine line method uri minor) :
    ∃ r, requestLineLoop text splitVals con text 0 ⟨0, 0, 0, 0⟩ = .next r ∧
      r.con.httpStatus = 0 ∧ r.con.request.httpMethod = method ∧
      r.con.request.httpVersion = storedVersion con.conf.allowHttp11 minor ∧
      r.con.request.uri.Text (splitUri uri).2 := by
  obtain ⟨name, proto, hl, hmethod, hversion⟩ := h.words
  obtain ⟨hs1, hs2, hs3⟩ := hl.slices hfirst
  rw [requestLineLoop_three splitVals text con hfirst hl]
  unfold requestLineEnd
  dsimp only
  rw [if_neg (by simp), hs1, hs2, hs3, hmethod]
  dsimp only
  rw [requestVersion_next splitVals _ hversion, Flow.next_bind]
  unfold requestUri
  dsimp only
  rw [if_pos h.chars, Flow.next_bind]
  exact ⟨_, rfl, rfl, rfl, rfl, text_bufferCopyStringLen _ _⟩

theorem takenLine_of_next (hfirst : FirstLine text line rest)
    (h : requestLineLoop text splitVals con text 0 ⟨0, 0, 0, 0⟩ = .next r)
    (hused : r.con.request.uri.used ≠ 1) :
    ∃ method uri minor, TakenLine line method uri minor := by
  have hcount : line.count 32 = 2 := by
    by_contra hne
    have hrefused := requestLineLoop_refused_of_count splitVals text con 0 ⟨0, 0, 0, 0⟩
      hfirst.text hfirst.line (by simpa using hne)
    rw [h] at hrefused
    exact hrefused
  obtain ⟨name, uri, proto, hl⟩ := exists_isRequestLine hcount
  obtain ⟨hs1, hs2, hs3⟩ := hl.slices hfirst
  rw [requestLineLoop_three splitVals text con hfirst hl] at h
  unfold requestLineEnd at h
  dsimp only at h
  rw [if_neg (by simp), hs1, hs2, hs3] at h
  cases hkey : getHttpMethodKey (cstr name) with
  | none =>
    rw [hkey] at h
    cases h
  | some method =>
    rw [hkey] at h
    dsimp only at h
    obtain ⟨con₁, hversion, h⟩ := Flow.bind_eq_next h
    obtain ⟨minor, hversion⟩ := takenVersion_of_next hversion
    obtain ⟨⟨con₂, host⟩, huri, h⟩ := Flow.bind_eq_next h
    unfold requestUri at huri
    dsimp only at huri
    split at huri
    · next hchars =>
      obtain ⟨rfl, -⟩ := Prod.mk.inj (Flow.next.inj huri)
      obtain rfl := Flow.next.inj h
      refine ⟨method, uri, minor, ⟨name, proto, hl, hkey, hversion⟩, fun hnil => hused ?_, hchars⟩
      rw [hnil]
      rfl
    · cases huri

theorem requestLineEnd_exit (m : Bytes) (splitVals : Arr DataString) (con : Connection) (i : Nat)
    (st : ReqLine) : (∃ r, requestLineEnd m splitVals con i st = .next r) ∨
      ∃ con', requestLineEnd m splitVals con i st = .ret (con', splitVals) ∧ con'.httpStatus ≠ 0 := by
  unfold requestLineEnd
  dsimp only
  split
  · exact Or.inr ⟨_, rfl, show (400 : Int) ≠ 0 by decide⟩
  · split
    · exact Or.inr ⟨_, rfl, show (501 : Int) ≠ 0 by decide⟩
    · generalize Connection.mapRequest _ _ = con₁
      have hversion : (∃ con₂, requestVersion splitVals (cstr (slice m st.first i)) con₁ =
          .next con₂) ∨ ∃ con', requestVersion splitVals (cstr (slice m st.first i)) con₁ =
            .ret (con', splitVals) ∧ con'.httpStatus ≠ 0 := by
        unfold requestVersion
        split
        · split
          · exact Or.inr ⟨_, rfl, show (400 : Int) ≠ 0 by decide⟩
          · split
            · exact Or.inl ⟨_, rfl⟩
            · split
              · exact Or.inl ⟨_, rfl⟩
              · exact Or.inr ⟨_, rfl, show (505 : Int) ≠ 0 by decide⟩
        · exact Or.inr ⟨_, rfl, show (400 : Int) ≠ 0 by decide⟩
      rcases hversion with ⟨con₂, hnext⟩ | ⟨con', hret, hstatus⟩
      · rw [hnext, Flow.next_bind]
        unfold requestUri
        dsimp only
        split
        · exact Or.inl ⟨_, rfl⟩
        · exact Or.inr ⟨_, rfl, show (400 : Int) ≠ 0 by decide⟩
      · rw [hret]
        exact Or.inr ⟨con', rfl, hstatus⟩

theorem requestLineLoop_exit (m : Bytes) (splitVals : Arr DataString) (con : Connection) :
    ∀ (s : Bytes) (i : Nat) (st : ReqLine),
      (∃ r, requestLineLoop m splitVals con s i st = .next r) ∨
        ∃ con', requestLineLoop m splitVals con s i st = .ret (con', splitVals) ∧
          con'.httpStatus ≠ 0
  | [], i, st => Or.inl ⟨_, rfl⟩
  | c :: s, i, st => by
    unfold requestLineLoop
    split
    · exact requestLineEnd_exit m splitVals con i st
    · split
      · split
        · exact requestLineLoop_exit m splitVals con s _ _
        · exact requestLineLoop_exit m splitVals con s _ _
        · exact Or.inr ⟨_, rfl, show (400 : Int) ≠ 0 by decide⟩
      · exact requestLineLoop_exit m splitVals con s _ _

end Line

section Parser

variable [Malloc] {srv : Server} {con : Connection} {line rest : Bytes}

def PastRequestLine (srv : Server) (con : Connection) (r : ReqLineEnd) : Prop :=
  ∃ b, copyRequest con = some b ∧
    requestLineLoop b.bytes srv.splitVals { con with parseRequest := b } b.bytes 0 ⟨0, 0, 0, 0⟩ =
      .next r ∧ r.con.request.uri.used ≠ 1

/-- The grammar decides which lines are taken, and names the parts that are stored. -/
def FollowsGrammar (srv : Server) (con : Connection) (line : Bytes) : Prop :=
  ((∃ r, PastRequestLine srv con r) ↔
    ∃ method uri minor, RequestLineGrammar Printed line method uri minor) ∧
    ∀ r method uri minor, PastRequestLine srv con r →
      RequestLineGrammar Printed line method uri minor →
        StoresLine r method uri (storedVersion true minor)

theorem copyRequest_firstLine (hfirst : FirstLine (requestText con) line rest) :
    ∃ b, copyRequest con = some b ∧ FirstLine b.bytes line (rest ++ [0]) := by
  have hne : requestText con ≠ [] := by
    intro hnil
    have hlen := congrArg List.length (hnil.symm.trans hfirst.text)
    simp [crlf] at hlen
  cases hcopy : copyRequest con with
  | none =>
    refine absurd ?_ hne
    have hnil : con.request.request.ptr = [] := by
      unfold copyRequest at hcopy
      dsimp only at hcopy
      split at hcopy
      · next hc => exact hc.2
      · split at hcopy <;> cases hcopy
    simp [requestText, hnil, crlf]
  | some b =>
    refine ⟨b, rfl, ?_⟩
    rcases copyRequest_bytes hcopy with hbytes | ⟨-, hnil⟩
    · rw [hbytes]
      exact firstLine_append_nul.mpr ⟨rest, rfl, hfirst⟩
    · exact absurd hnil hne

theorem httpRequestParse_refused {b : Buffer} (hcopy : copyRequest con = some b)
    (h : ¬ ∃ r, PastRequestLine srv con r) :
    ∃ con', httpRequestParse srv con = some (0, con', srv) ∧ con'.httpStatus ≠ 0 := by
  have hline : ∃ con', parseRequestLine srv { con with parseRequest := b } b.bytes =
      .ret (con', srv.splitVals) ∧ con'.httpStatus ≠ 0 := by
    unfold parseRequestLine
    rcases requestLineLoop_exit b.bytes srv.splitVals { con with parseRequest := b } b.bytes 0
      ⟨0, 0, 0, 0⟩ with ⟨r, hnext⟩ | ⟨con', hret, hstatus⟩
    · have hused : r.con.request.uri.used = 1 :=
        not_not.mp fun hne => h ⟨r, b, hcopy, hnext, hne⟩
      rw [hnext, Flow.next_bind, if_pos hused]
      exact ⟨_, rfl, show (400 : Int) ≠ 0 by decide⟩
    · rw [hret]
      exact ⟨con', rfl, hstatus⟩
  obtain ⟨con', hret, hstatus⟩ := hline
  refine ⟨con', ?_, hstatus⟩
  unfold httpRequestParse
  rw [hcopy]
  unfold parseCopy
  dsimp only
  rw [hret]
  rfl

/-- **The grammar of the request line**: a line of the grammar is taken, with its parts; a clean line
that is taken is one of the grammar; and what is not taken is answered with an error. -/
theorem requestLine_grammar (srv : Server) (con : Connection)
    (hfirst : FirstLine (requestText con) line rest) :
    (∀ method uri minor, RequestLineGrammar UriChar line method uri minor → ∃ r,
      PastRequestLine srv con r ∧
        StoresLine r method uri (storedVersion con.conf.allowHttp11 minor)) ∧
      (CleanLine line → (∃ r, PastRequestLine srv con r) →
        ∃ method uri minor, RequestLineGrammar UriChar line method uri minor) ∧
      ((¬ ∃ r, PastRequestLine srv con r) →
        ∃ con', httpRequestParse srv con = some (0, con', srv) ∧ con'.httpStatus ≠ 0) := by
  obtain ⟨b, hcopy, hfirst⟩ := copyRequest_firstLine hfirst
  refine ⟨?_, ?_, httpRequestParse_refused hcopy⟩
  · intro method uri minor hgrammar
    have hnul : 0 ∉ uri := fun hc => absurd (hgrammar.chars 0 hc) (by unfold UriChar; decide)
    have htaken := hgrammar.taken
    obtain ⟨r, hrun, hstatus, hmethod, hversion, huri⟩ :=
      requestLineLoop_taken srv.splitVals { con with parseRequest := b } hfirst htaken
    refine ⟨r, ⟨b, hcopy, hrun, ?_⟩, hstatus, hmethod, hversion, _, splitUri_stored hnul, huri⟩
    have hpath := List.length_pos_iff.mpr htaken.nonempty
    rw [huri.used]
    omega
  · rintro hclean ⟨r, b', hcopy', hrun, hused⟩
    obtain rfl := Option.some.inj (hcopy.symm.trans hcopy')
    obtain ⟨method, uri, minor, htaken⟩ := takenLine_of_next hfirst hrun hused
    exact ⟨method, uri, minor, htaken.grammar hclean⟩

end Parser

/-- `GET uri HTTP/1.1` -/
def getLine (uri : Bytes) : Bytes := ascii "GET " ++ uri ++ ascii " HTTP/1.1"

theorem getLine_grammar {ok : UInt8 → Prop} {uri : Bytes} (hblank : 32 ∉ uri) (hne : uri ≠ [])
    (hchars : ∀ c ∈ uri, ok c) : RequestLineGrammar ok (getLine uri) .get uri 1 := by
  refine ⟨⟨ascii "GET", ascii "1", ascii "1", ?_, ?_, ?_, rfl, rfl, ?_⟩, Nat.le_refl 1, hblank, hne,
    hchars⟩
  · decide
  · exact ⟨by decide, by decide⟩
  · exact ⟨by decide, by decide⟩
  · unfold getLine
    rw [List.append_assoc]
    rfl

theorem requestLine_grammar_root :
    ∃ r, @PastRequestLine zeroMalloc (serverInit 0)
      (keptConnection (getLine (ascii "/") ++ crlf ++ crlf)) r ∧
        StoresLine r .get (ascii "/") .v11 := by
  have hfirst : FirstLine (requestText (keptConnection (getLine (ascii "/") ++ crlf ++ crlf)))
      (getLine (ascii "/")) crlf :=
    ⟨by decide +kernel, fun hcrlf => absurd (hcrlf.subset List.mem_cons_self) (by decide)⟩
  refine (@requestLine_grammar zeroMalloc _ _ (serverInit 0) _ hfirst).1 .get (ascii "/") 1 ?_
  refine getLine_grammar (by decide) (by decide) ?_
  unfold UriChar
  decide

/-- `GET /\xff HTTP/1.1` -/
def highLine : Bytes := getLine (ascii "/" ++ [255])

def oldConnection (text : Bytes) : Connection :=
  { keptConnection text with conf := { (keptConnection text).conf with allowHttp11 := false } }

/-- The version and the uri that the request line leaves, if it is taken. -/
def lineResult [Malloc] (srv : Server) (con : Connection) : Option (HttpVersion × Bytes) :=
  (copyRequest con).bind fun b =>
    match requestLineLoop b.bytes srv.splitVals { con with parseRequest := b } b.bytes 0
      ⟨0, 0, 0, 0⟩ with
    | .next r => some (r.con.request.httpVersion, r.con.request.uri.bytes)
    | _ => none

theorem PastRequestLine.result [Malloc] {srv : Server} {con : Connection} {r : ReqLineEnd}
    (h : PastRequestLine srv con r) :
    lineResult srv con = some (r.con.request.httpVersion, r.con.request.uri.bytes) := by
  obtain ⟨b, hcopy, hrun, -⟩ := h
  unfold lineResult
  rw [hcopy, Option.bind_some, hrun]

theorem pastRequestLine_of_result [Malloc] {srv : Server} {con : Connection} {v : HttpVersion}
    {uri : Bytes} (h : lineResult srv con = some (v, uri)) (huri : 1 < uri.length) :
    ∃ r, PastRequestLine srv con r ∧ r.con.request.httpVersion = v := by
  unfold lineResult at h
  obtain ⟨b, hcopy, h⟩ := Option.bind_eq_some_iff.mp h
  split at h
  · next r hrun =>
    obtain ⟨rfl, rfl⟩ := Prod.mk.inj (Option.some.inj h)
    refine ⟨r, ⟨b, hcopy, hrun, fun hused => ?_⟩, rfl⟩
    unfold Buffer.bytes at huri
    rw [hused] at huri
    exact absurd huri (Nat.not_lt.mpr (List.length_take_le 1 _))
  · cases h

/-- A uri with a character that may not stand there, and HTTP/1.1 where it is not allowed. -/
theorem not_followsGrammar :
    ¬ @FollowsGrammar zeroMalloc (serverInit 0) (keptConnection (highLine ++ crlf ++ crlf)) highLine ∧
      ¬ @FollowsGrammar zeroMalloc (serverInit 0)
        (oldConnection (getLine (ascii "/") ++ crlf ++ crlf)) (getLine (ascii "/")) := by
  constructor
  · rintro ⟨hiff, -⟩
    have hgrammar : RequestLineGrammar Printed highLine .get (ascii "/" ++ [255]) 1 := by
      refine getLine_grammar (by decide) (by decide) ?_
      unfold Printed
      decide
    obtain ⟨r, hr⟩ := hiff.mpr ⟨_, _, _, hgrammar⟩
    have hnone : @lineResult zeroMalloc (serverInit 0)
        (keptConnection (highLine ++ crlf ++ crlf)) = none := by decide +kernel
    have hresult := @PastRequestLine.result zeroMalloc _ _ _ hr
    rw [hnone] at hresult
    cases hresult
  · rintro ⟨-, hparts⟩
    have hgrammar : RequestLineGrammar Printed (getLine (ascii "/")) .get (ascii "/") 1 := by
      refine getLine_grammar (by decide) (by decide) ?_
      unfold Printed
      decide
    obtain ⟨r, hr, hversion⟩ := @pastRequestLine_of_result zeroMalloc (serverInit 0)
      (oldConnection (getLine (ascii "/") ++ crlf ++ crlf)) .v10 [47, 0] (by decide +kernel) (by decide)
    have hstored := (hparts r .get (ascii "/") 1 hr hgrammar).version
    rw [hversion] at hstored
    cases hstored

end Lighttpd

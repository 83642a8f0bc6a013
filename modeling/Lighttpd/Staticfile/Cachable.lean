import Lighttpd.Base

/-!
# `http-header-glue.c`: `http_response_handle_cachable`

A conditional request is finished with a status of 304 or 412, or goes on. A date that is only the
beginning of the file's is taken for the same one, but the status is set only if it is the whole
date (`handleCachable_iff`). `strptime` and `mktime` are any functions on any `struct tm`.
-/

namespace Lighttpd

open CLib

/-- `strptime` with the format of the dates, whose result may be `NULL`, and `mktime`; `noDst` sets
`tm_isdst` to 0, and `uninit` is what an uninitialized `tm` holds. -/
structure TimeLib where
  Tm : Type
  strptime : Bytes → Tm → Bool × Tm
  mktime : Tm → Int × Tm
  noDst : Tm → Tm
  uninit : Tm

/-- The C strings at `http_if_none_match` and `http_if_modified_since`. -/
structure Conditions where
  ifNoneMatch : Option Bytes
  ifModifiedSince : Option Bytes
  deriving DecidableEq, Repr

def etagIsEqual (etag : Buffer) (pattern : Bytes) : Bool :=
  !bufferIsEmpty etag && etag.str == pattern

/-- The date without what comes behind a semicolon; `used_len` is its length. -/
def dateText (ims : Bytes) : Bytes := ims.take ((strchr ims 59).getD ims.length)

/-- `sizeof("Sat, 23 Jul 2005 21:20:01 GMT")` -/
def DATE_SIZE : Nat := 30

section Cachable

variable (lib : TimeLib)

/-- The file was modified after the date; without a value if the date cannot be read. -/
def modifiedAfter (date mtime : Bytes) : Option Bool :=
  if date.length ≥ DATE_SIZE then none
  else
    let (ok, tm) := lib.strptime date lib.uninit
    if ¬ ok then none
    else
      let (tHeader, tm) := lib.mktime (lib.noDst tm)
      let (_, tm) := lib.strptime mtime tm
      let (tFile, _) := lib.mktime (lib.noDst tm)
      some (tFile > tHeader)

/-- The check of a date, which the function has twice; `unreadable` is what it does if the date
cannot be read. -/
def checkModifiedSince (unreadable : HandlerT × RespondingConnection) (con : RespondingConnection)
    (ims mtime : Bytes) : HandlerT × RespondingConnection :=
  let date := dateText ims
  if date <+: mtime then
    (.finished, if mtime.length = date.length then { con with httpStatus := 304 } else con)
  else
    match modifiedAfter lib date mtime with
    | none => unreadable
    | some true => (.goOn, con)
    | some false => (.finished, { con with httpStatus := 304 })

def httpResponseHandleCachable (con : RespondingConnection) (c : Conditions) (mtime : Buffer) :
    HandlerT × RespondingConnection :=
  let failed : HandlerT × RespondingConnection :=
    (.finished, { con with httpStatus := 412, mode := DIRECT })
  match c.ifNoneMatch with
  | some inm =>
    if etagIsEqual con.etag inm then
      if con.request.httpMethod = .get ∨ con.request.httpMethod = .head then
        match c.ifModifiedSince with
        | some ims => checkModifiedSince lib failed con ims mtime.str
        | none => (.finished, { con with httpStatus := 304 })
      else failed
    else (.goOn, con)
  | none =>
    match c.ifModifiedSince with
    | some ims => checkModifiedSince lib (.goOn, con) con ims mtime.str
    | none => (.goOn, con)

/-! ## The status -/

/-- A finished request has a status of 304 or 412, another one the status it had. -/
def Answered (con : RespondingConnection) (r : HandlerT × RespondingConnection) : Prop :=
  (r.1 = .finished ∧ (r.2.httpStatus = 304 ∨ r.2.httpStatus = 412)) ∨
    (r.1 = .goOn ∧ r.2.httpStatus = con.httpStatus)

/-- A date is checked that is only the beginning of the file's. -/
def PartOfDate (con : RespondingConnection) (c : Conditions) (mtime : Buffer) : Prop :=
  (∀ inm ∈ c.ifNoneMatch, etagIsEqual con.etag inm ∧
    (con.request.httpMethod = .get ∨ con.request.httpMethod = .head)) ∧
  ∃ ims ∈ c.ifModifiedSince, dateText ims <+: mtime.str ∧ mtime.str.length ≠ (dateText ims).length

variable {con : RespondingConnection} {c : Conditions} {mtime : Buffer}

theorem checkModifiedSince_part {unreadable : HandlerT × RespondingConnection} {ims date : Bytes}
    (hbegins : dateText ims <+: date) (hlen : date.length ≠ (dateText ims).length) :
    checkModifiedSince lib unreadable con ims date = (.finished, con) := by
  unfold checkModifiedSince
  simp only [if_pos hbegins, if_neg hlen]

theorem checkModifiedSince_answered {unreadable : HandlerT × RespondingConnection} {ims date : Bytes}
    (hfailed : Answered con unreadable)
    (hwhole : ¬ (dateText ims <+: date ∧ date.length ≠ (dateText ims).length)) :
    Answered con (checkModifiedSince lib unreadable con ims date) := by
  unfold checkModifiedSince
  by_cases hbegins : dateText ims <+: date
  · have hlen : date.length = (dateText ims).length := by
      by_contra hne
      exact hwhole ⟨hbegins, hne⟩
    simp only [if_pos hbegins, if_pos hlen]
    exact Or.inl ⟨rfl, Or.inl rfl⟩
  · simp only [if_neg hbegins]
    cases modifiedAfter lib (dateText ims) date with
    | none => exact hfailed
    | some after =>
      cases after with
      | true => exact Or.inr ⟨rfl, rfl⟩
      | false => exact Or.inl ⟨rfl, Or.inl rfl⟩

theorem handleCachable_part (h : PartOfDate con c mtime) :
    httpResponseHandleCachable lib con c mtime = (.finished, con) := by
  obtain ⟨hinm, ims, hsome, hbegins, hlen⟩ := h
  have hims : c.ifModifiedSince = some ims := hsome
  unfold httpResponseHandleCachable
  cases hc : c.ifNoneMatch with
  | none =>
    simp only [hims]
    exact checkModifiedSince_part lib hbegins hlen
  | some inm =>
    obtain ⟨hequal, hmethod⟩ := hinm inm hc
    simp only [if_pos hequal, if_pos hmethod, hims]
    exact checkModifiedSince_part lib hbegins hlen

theorem handleCachable_answered (h : ¬ PartOfDate con c mtime) :
    Answered con (httpResponseHandleCachable lib con c mtime) := by
  have hfailed : Answered con (.finished, { con with httpStatus := 412, mode := DIRECT }) :=
    Or.inl ⟨rfl, Or.inr rfl⟩
  have hgoOn : Answered con (.goOn, con) := Or.inr ⟨rfl, rfl⟩
  unfold httpResponseHandleCachable
  cases hc : c.ifNoneMatch with
  | none =>
    cases hims : c.ifModifiedSince with
    | none => exact hgoOn
    | some ims =>
      apply checkModifiedSince_answered lib hgoOn
      rintro ⟨hbegins, hlen⟩
      refine h ⟨?_, ims, hims, hbegins, hlen⟩
      rw [hc]
      intro inm hinm
      cases hinm
  | some inm =>
    by_cases hequal : etagIsEqual con.etag inm
    · simp only [if_pos hequal]
      by_cases hmethod : con.request.httpMethod = .get ∨ con.request.httpMethod = .head
      · simp only [if_pos hmethod]
        cases hims : c.ifModifiedSince with
        | none => exact Or.inl ⟨rfl, Or.inl rfl⟩
        | some ims =>
          apply checkModifiedSince_answered lib hfailed
          rintro ⟨hbegins, hlen⟩
          refine h ⟨?_, ims, hims, hbegins, hlen⟩
          rw [hc]
          intro inm' hinm
          obtain rfl := Option.some.inj hinm
          exact ⟨hequal, hmethod⟩
      · simp only [if_neg hmethod]
        exact hfailed
    · simp only [if_neg hequal]
      exact hgoOn

inductive CachableOutcome (con : RespondingConnection) : RespondingConnection → Prop
  | same : CachableOutcome con con
  | notModified : CachableOutcome con { con with httpStatus := 304 }
  | failed : CachableOutcome con { con with httpStatus := 412, mode := DIRECT }

theorem checkModifiedSince_outcome {unreadable : HandlerT × RespondingConnection}
    (ims date : Bytes) (h : CachableOutcome con unreadable.2) :
    CachableOutcome con (checkModifiedSince lib unreadable con ims date).2 := by
  unfold checkModifiedSince
  dsimp only
  split
  · split
    · exact .notModified
    · exact .same
  · split
    · exact h
    · exact .same
    · exact .notModified

theorem handleCachable_outcome (con : RespondingConnection) (c : Conditions) (mtime : Buffer) :
    CachableOutcome con (httpResponseHandleCachable lib con c mtime).2 := by
  unfold httpResponseHandleCachable
  cases c.ifNoneMatch with
  | none =>
    cases c.ifModifiedSince with
    | none => exact .same
    | some ims => exact checkModifiedSince_outcome lib ims _ .same
  | some inm =>
    dsimp only
    by_cases hetag : etagIsEqual con.etag inm = true
    · rw [if_pos hetag]
      by_cases hmethod : con.request.httpMethod = .get ∨ con.request.httpMethod = .head
      · rw [if_pos hmethod]
        cases c.ifModifiedSince with
        | none => exact .notModified
        | some ims => exact checkModifiedSince_outcome lib ims _ .failed
      · rw [if_neg hmethod]
        exact .failed
    · rw [if_neg hetag]
      exact .same

theorem handleCachable_queue (con : RespondingConnection) (c : Conditions) (mtime : Buffer) :
    (httpResponseHandleCachable lib con c mtime).2.writeQueue = con.writeQueue ∧
      (httpResponseHandleCachable lib con c mtime).2.fileFinished = con.fileFinished := by
  have houtcome := handleCachable_outcome lib con c mtime
  generalize (httpResponseHandleCachable lib con c mtime).2 = con' at houtcome ⊢
  cases houtcome with
  | same => exact ⟨rfl, rfl⟩
  | notModified => exact ⟨rfl, rfl⟩
  | failed => exact ⟨rfl, rfl⟩

theorem handleCachable_iff (con : RespondingConnection) (c : Conditions) (mtime : Buffer) :
    Answered con (httpResponseHandleCachable lib con c mtime) ↔
      con.httpStatus = 304 ∨ con.httpStatus = 412 ∨ ¬ PartOfDate con c mtime := by
  constructor
  · intro hanswered
    by_cases hpart : PartOfDate con c mtime
    · rw [handleCachable_part lib hpart] at hanswered
      rcases hanswered with ⟨-, h304 | h412⟩ | ⟨hne, -⟩
      · exact Or.inl h304
      · exact Or.inr (Or.inl h412)
      · cases hne
    · exact Or.inr (Or.inr hpart)
  · intro h
    by_cases hpart : PartOfDate con c mtime
    · rw [handleCachable_part lib hpart]
      rcases h with h304 | h412 | hno
      · exact Or.inl ⟨rfl, Or.inl h304⟩
      · exact Or.inl ⟨rfl, Or.inr h412⟩
      · exact absurd hpart hno
    · exact handleCachable_answered lib hpart

end Cachable

end Lighttpd

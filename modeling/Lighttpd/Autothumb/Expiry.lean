import Lighttpd.Autothumb.Output
import Lighttpd.TimeCache

/-!
# `mod_autothumb.c`: when a picture expires

`_subrequest_output` formats the time of expiry into a buffer that has no memory yet, so there is no
date in `Expires`. The age in `Cache-Control` is counted from the time the picture was created, and
is negative for a picture that is older than ten days.
-/

namespace Lighttpd

open CLib

def expiry (fi : FileInfo) : Int := fi.createTimestamp + 864000

/-- The values of `long`. -/
def IsLong (v : Int) : Prop := -2147483648 ≤ v ∧ v ≤ 2147483647

section Expiry

variable [Malloc] {srv : Server} {fi : FileInfo} {expire : Buffer}

/-- `Expires` holds the date, in memory of its buffer, and `Cache-Control` the seconds up to it,
which are not negative. -/
structure AnnouncesExpiry (srv : Server) (fi : FileInfo) : Prop where
  expires : ∃ expire, expires fi = some expire ∧ expire.Text (dateOf (expiry fi)) ∧
    (maxAge srv expire fi).Text (ascii "max-age=" ++ decimal (expiry fi - srv.curTs))
  nonneg : 0 ≤ expiry fi - srv.curTs

omit [Malloc] in
theorem strftime_null (max : Nat) (t : Int) : ∃ lens, strftime [] max t = some ([], lens) := by
  unfold strftime
  generalize formatTm (gmtime t) = text
  dsimp only
  rw [if_pos rfl]
  split
  · exact ⟨_, rfl⟩
  · exact ⟨_, rfl⟩

omit [Malloc] in
theorem exists_expires (fi : FileInfo) :
    ∃ lens, expires fi = some { bufferInit with ptr := [], used := lens } := by
  obtain ⟨lens, hnull⟩ := strftime_null 32 (fi.createTimestamp + 864000)
  unfold expires
  dsimp only
  rw [show bufferInit.ptr = [] from rfl, hnull]
  exact ⟨lens + 1, rfl⟩

omit [Malloc] in
theorem expires_ptr (h : expires fi = some expire) : expire.ptr = [] := by
  obtain ⟨lens, hsome⟩ := exists_expires fi
  obtain rfl := Option.some.inj (hsome.symm.trans h)
  rfl

omit [Malloc] in
theorem expires_no_text (h : expires fi = some expire) (date : Bytes) : ¬ expire.Text date := by
  intro htext
  have hlen := congrArg List.length htext.holds
  rw [Buffer.bytes, expires_ptr h, List.take_nil, List.length_nil, List.length_append] at hlen
  cases hlen

theorem not_announcesExpiry (srv : Server) (fi : FileInfo) : ¬ AnnouncesExpiry srv fi := by
  rintro ⟨⟨expire, hexpire, htext, -⟩, -⟩
  exact expires_no_text hexpire _ htext

theorem text_maxAge (srv : Server) (expire : Buffer) (fi : FileInfo) :
    (maxAge srv expire fi).Text (ascii "max-age=" ++ decimal (expiry fi - srv.curTs)) :=
  text_bufferAppendLong (text_bufferCopyStringLen expire _) _

theorem maxAge_unsigned_iff (srv : Server) (expire : Buffer) (fi : FileInfo) :
    (∃ n : Nat, (maxAge srv expire fi).Text (ascii "max-age=" ++ decimal n)) ↔
      srv.curTs ≤ expiry fi := by
  have htext := text_maxAge srv expire fi
  constructor
  · rintro ⟨n, hn⟩
    have heq := Option.some.inj (hn.constBufLen.symm.trans htext.constBufLen)
    have hsame := decimal_injective (List.append_cancel_left heq)
    omega
  · intro hle
    refine ⟨(expiry fi - srv.curTs).toNat, ?_⟩
    rw [Int.toNat_of_nonneg (by omega)]
    exact htext

/-- **No picture announces when it expires**: there is no memory for the date, and the age is not
negative only in the first ten days. -/
theorem announcesExpiry_never (srv : Server) (fi : FileInfo) :
    ¬ AnnouncesExpiry srv fi ∧
    (∃ expire, expires fi = some expire ∧ expire.ptr = []) ∧
    (IsLong (expiry fi - srv.curTs) → ∀ expire, expires fi = some expire →
      (maxAge srv expire fi).Text (ascii "max-age=" ++ decimal (expiry fi - srv.curTs)) ∧
      ((∃ n : Nat, (maxAge srv expire fi).Text (ascii "max-age=" ++ decimal n)) ↔
        srv.curTs ≤ expiry fi)) := by
  refine ⟨not_announcesExpiry srv fi, ?_, fun _ expire _ =>
    ⟨text_maxAge srv expire fi, maxAge_unsigned_iff srv expire fi⟩⟩
  obtain ⟨lens, hexpire⟩ := exists_expires fi
  exact ⟨_, hexpire, rfl⟩

end Expiry

/-- A picture of this second, and one that is ten days and a second old. -/
theorem not_announcesExpiry_now :
    ¬ @AnnouncesExpiry zeroMalloc (serverInit 1000) { fileInfoInit with createTimestamp := 1000 } ∧
    (expires fileInfoInit).map (fun expire =>
      (@maxAge zeroMalloc (serverInit 864001) expire fileInfoInit).constBufLen) =
        some (some (ascii "max-age=-1")) :=
  ⟨@not_announcesExpiry zeroMalloc _ _, by decide +kernel⟩

end Lighttpd

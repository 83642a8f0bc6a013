import Lighttpd.Autothumb.UriBounds

/-!
# Names of stored thumbnails

`parse_uri` puts the stored name together from the stem, the format, the numbers and the extension.
Two accepted URIs with the same stored name ask for the same picture, unless what is the beginning
of the suffix in one of them belongs to the stem of the other.
-/

namespace Lighttpd

open CLib

def uriStem (uri : Bytes) : Bytes :=
  match strrchr (skipSlash uri) 46 with
  | none => []
  | some dot =>
    let name := (skipSlash uri).take dot
    match strchr name 61 with
    | none => name
    | some eq => name.take eq

/-- There are formats: a `'='` before the extension. -/
def HasFormats (uri : Bytes) : Prop :=
  61 ∈ (skipSlash uri).take ((strrchr (skipSlash uri) 46).getD 0)

/-- A text that is the beginning of the suffix of `u₁` belongs to the stem of `u₂`. -/
def Shifted (u₁ u₂ : Bytes) (fi₁ fi₂ : FileInfo) : Prop :=
  ∃ t, t ≠ [] ∧ uriStem u₂ = uriStem u₁ ++ t ∧ fi₁.suffix.str [] = t ++ fi₂.suffix.str []

/-! ## The suffix is unambiguous -/

theorem stopsAt_numberText (tag : String) (htag : ∃ r, ascii tag = 95 :: r) (v : UInt32) :
    StopsAt 95 (numberText tag v) := by
  unfold numberText numberPart
  obtain ⟨r, hr⟩ := htag
  split
  · exact Or.inr ⟨_, by rw [hr, List.cons_append]⟩
  · exact Or.inl rfl

theorem toInt_injective {v w : UInt32} (h : v.toInt32.toInt = w.toInt32.toInt) : v = w := by
  have hbits : v.toInt32 = w.toInt32 := Int32.toInt_inj.mp h
  have := congrArg Int32.toUInt32 hbits
  simpa using this

theorem numberText_append_inj {tag : String} {v w : UInt32} {t u : Bytes}
    (ht : StopsAt 95 t) (hu : StopsAt 95 u)
    (hskip : ∀ x, t ≠ ascii tag ++ x ∧ u ≠ ascii tag ++ x)
    (h : numberText tag v ++ t = numberText tag w ++ u) : v = w ∧ t = u := by
  unfold numberText numberPart at h
  by_cases hv : v > 0 <;> by_cases hw : w > 0
  · rw [if_pos hv, if_pos hw, List.append_assoc, List.append_assoc] at h
    obtain ⟨hd, htu⟩ := append_inj_of_stopsAt (notMem_decimal rfl (by decide) _)
      (notMem_decimal rfl (by decide) _) ht hu
      (List.append_cancel_left h)
    exact ⟨toInt_injective (decimal_injective hd), htu⟩
  · rw [if_pos hv, if_neg hw, List.append_assoc, List.nil_append] at h
    exact absurd h.symm (hskip _).2
  · rw [if_neg hv, if_pos hw, List.append_assoc, List.nil_append] at h
    exact absurd h (hskip _).1
  · rw [if_neg hv, if_neg hw] at h
    have h0 : ∀ {x : UInt32}, ¬ x > 0 → x = 0 := by
      intro x hx
      have hz : ¬ 0 < x.toNat := hx
      exact UInt32.toNat_inj.mp (by simpa using hz)
    exact ⟨(h0 hv).trans (h0 hw).symm, h⟩

theorem numberText_r_ne (r : UInt32) (x : Bytes) : numberText "_r" r ≠ ascii "_q" ++ x := by
  have hr : ascii "_r" = [95, 114] := rfl
  have hq : ascii "_q" = [95, 113] := rfl
  unfold numberText numberPart
  rw [hr, hq]
  split <;> simp

theorem suffixText_inj {o o' : Bytes} {q r q' r' : UInt32} (ho : 95 ∉ o) (ho' : 95 ∉ o')
    (h : suffixText o q r = suffixText o' q' r') : o = o' ∧ (o ≠ [] → q = q' ∧ r = r') := by
  have hstop : ∀ q r, StopsAt 95 (numberText "_q" q ++ numberText "_r" r) := by
    intro q r
    rcases stopsAt_numberText "_q" ⟨_, rfl⟩ q with hq | ⟨x, hq⟩
    · rw [hq, List.nil_append]
      exact stopsAt_numberText "_r" ⟨_, rfl⟩ r
    · exact Or.inr ⟨x ++ numberText "_r" r, by rw [hq, List.cons_append]⟩
  have hu : ascii "_" = [95] := rfl
  unfold suffixText at h
  by_cases hn : o = [] <;> by_cases hn' : o' = []
  · exact ⟨hn.trans hn'.symm, fun hne => absurd hn hne⟩
  · rw [if_pos hn, if_neg hn'] at h
    simp [hu] at h
  · rw [if_neg hn, if_pos hn'] at h
    simp [hu] at h
  · rw [if_neg hn, if_neg hn', List.append_assoc, List.append_assoc, List.append_assoc,
      List.append_assoc] at h
    obtain ⟨hoo, hnumbers⟩ := append_inj_of_stopsAt ho ho' (hstop q r) (hstop q' r')
      (List.append_cancel_left h)
    refine ⟨hoo, fun _ => ?_⟩
    obtain ⟨hq, hr⟩ := numberText_append_inj (stopsAt_numberText "_r" ⟨_, rfl⟩ r)
      (stopsAt_numberText "_r" ⟨_, rfl⟩ r')
      (fun x => ⟨numberText_r_ne r x, numberText_r_ne r' x⟩) hnumbers
    have hr' : numberText "_r" r ++ [] = numberText "_r" r' ++ [] := by rw [hr]
    obtain ⟨hrr, -⟩ := numberText_append_inj (Or.inl rfl) (Or.inl rfl)
      (fun x => ⟨by simp [ascii], by simp [ascii]⟩) hr'
    exact ⟨hq, hrr⟩

/-! ## Accepted URIs -/

structure Accepted (uri : Bytes) (fi : FileInfo) (ext o : Bytes) (q r : UInt32) : Prop where
  named : Named (uriStem uri) ext o q r fi
  extension : 46 ∉ ext
  outer : 95 ∉ o
  plain : ¬ HasFormats uri → o = []

theorem not_mem_format (params : Bytes) : 95 ∉ format params := by
  intro h
  have := List.mem_takeWhile_imp h
  simp at this

theorem accepted_of_run {g : Residue} {uri : Bytes} {fi : FileInfo} (h : IsCStr uri)
    (hrun : parseUri g uri fileInfoInit = some (0, fi)) :
    ∃ ext o q r, Accepted uri fi ext o q r := by
  rcases uri_cases uri with hdot | ⟨name, ext, huri, hext, heq⟩ |
    ⟨stem, params, ext, huri, hext, heq⟩
  · rw [parseUri_no_dot hdot] at hrun
    simp at hrun
  · have hc := huri ▸ isCStr_skipSlash h
    have hname : IsCStr name := hc.of_append_left
    have hextc : IsCStr ext := fun hm => hc (by simp [hm])
    have hstem : uriStem uri = name := by
      simp only [uriStem, huri, strrchr_append_cons name hext, List.take_left',
        strchr_eq_none.mpr heq]
    rcases parseUri_dot (g := g) h huri hext with
      ⟨hnone, -⟩ | ⟨full, more, hle, -, hmore, hparse⟩
    · rw [hnone] at hrun
      cases hrun
    · have hmc : IsCStr more := by
        rw [hmore]
        split
        · exact List.not_mem_nil
        · exact isCStr_cstr _
      rw [hparse] at hrun
      by_cases hm : 61 ∈ more
      · -- a name that fills its array has no room for the extension
        exfalso
        obtain ⟨a, b, rfl, ha⟩ := List.eq_append_cons_of_mem hm
        have hfull : ¬ name.length < FI_FULL_FILENAME_SIZE := fun hlt => by
          rw [if_pos hlt] at hmore
          simp at hmore
        rw [← List.append_assoc] at hrun
        obtain ⟨-, hcase⟩ := uriOriginal_format_spec (by simpa using hname.append hmc) hextc
          (by simp [heq, ha]) hrun
        rcases hcase with ⟨-, hret⟩ | ⟨-, -, hfits, -⟩
        · cases hret
        · have := hfits.full
          rw [List.length_append] at this
          omega
      · obtain ⟨-, hfits, hnamed⟩ := uriOriginal_plain_spec (hname.append hmc) hextc
          (by simp [heq, hm]) hrun
        have hlt := hfits.full
        rw [List.length_append] at hlt
        have hnil : more = [] := by rw [hmore, if_pos (by omega)]
        rw [hnil, List.append_nil] at hnamed
        exact ⟨ext, [], 0, 0, hstem ▸ hnamed, hext, by simp, fun _ => rfl⟩
  · have hstem : uriStem uri = stem := by
      simp only [uriStem, huri, strrchr_append_cons _ hext, List.take_left',
        strchr_append_cons heq]
    have hformats : HasFormats uri := by
      rw [HasFormats, huri, strrchr_append_cons _ hext, Option.getD_some, List.take_left' rfl]
      simp
    obtain ⟨more, -, -, hcase⟩ := parseUri_params h huri hext heq hrun
    rcases hcase with ⟨-, hret⟩ | ⟨-, -, -, hnamed⟩
    · cases hret
    · exact ⟨ext, _, _, _, hstem ▸ hnamed, hext, not_mem_format _, fun hn => absurd hformats hn⟩

theorem Accepted.full_eq {u₁ u₂ : Bytes} {fi₁ fi₂ : FileInfo} {e₁ o₁ e₂ o₂ : Bytes}
    {q₁ r₁ q₂ r₂ : UInt32} (h₁ : Accepted u₁ fi₁ e₁ o₁ q₁ r₁) (h₂ : Accepted u₂ fi₂ e₂ o₂ q₂ r₂)
    (hfull : fi₁.fullFilename.str [] = fi₂.fullFilename.str []) :
    e₁ = e₂ ∧ (uriStem u₁ = uriStem u₂ ∧ suffixText o₁ q₁ r₁ = suffixText o₂ q₂ r₂ ∨
      Shifted u₁ u₂ fi₁ fi₂ ∨ Shifted u₂ u₁ fi₂ fi₁) := by
  rw [h₁.named.full, h₂.named.full] at hfull
  have hdot : ascii "." = [46] := rfl
  have hsplit : ∀ n e : Bytes, n ++ ascii "." ++ e = n ++ 46 :: e := by simp [hdot]
  rw [hsplit, hsplit] at hfull
  obtain ⟨hnames, hext⟩ := split_last_unique h₁.extension h₂.extension hfull
  refine ⟨hext, ?_⟩
  unfold Shifted
  rw [h₁.named.suffix, h₂.named.suffix]
  rcases List.append_eq_append_iff.mp hnames with ⟨t, hstem, hsuf⟩ | ⟨t, hstem, hsuf⟩
  · by_cases ht : t = []
    · subst ht
      exact Or.inl ⟨by simpa using hstem.symm, by simpa using hsuf⟩
    · exact Or.inr (Or.inl ⟨t, ht, hstem, hsuf⟩)
  · by_cases ht : t = []
    · subst ht
      exact Or.inl ⟨by simpa using hstem, by simpa using hsuf.symm⟩
    · exact Or.inr (Or.inr ⟨t, ht, hstem, hsuf⟩)

/-- **The stored name tells pictures apart**, unless stem and suffix are cut at different places;
and a picture with a format is stored neither under the name of its original nor under the name of
another one, unless the stem of that one ends in the whole suffix. -/
theorem fullFilename_tells_apart (g₁ g₂ : Residue) (u₁ u₂ : Bytes) (fi₁ fi₂ : FileInfo)
    (hu₁ : IsCStr u₁) (hu₂ : IsCStr u₂) (h₁ : parseUri g₁ u₁ fileInfoInit = some (0, fi₁))
    (h₂ : parseUri g₂ u₂ fileInfoInit = some (0, fi₂)) :
    (¬ Shifted u₁ u₂ fi₁ fi₂ → ¬ Shifted u₂ u₁ fi₂ fi₁ →
      fi₁.fullFilename.str [] = fi₂.fullFilename.str [] →
      fi₁.origFilename.str [] = fi₂.origFilename.str [] ∧
      fi₁.outerFormat.str [] = fi₂.outerFormat.str [] ∧
      fi₁.fileExtension.str [] = fi₂.fileExtension.str [] ∧
      (fi₁.outerFormat.str [] ≠ [] →
        fi₁.quality = fi₂.quality ∧ fi₁.rotateDegree = fi₂.rotateDegree)) ∧
    (fi₁.outerFormat.str [] ≠ [] → fi₁.fullFilename.str [] ≠ fi₁.origFilename.str []) ∧
    (fi₁.outerFormat.str [] ≠ [] → ¬ HasFormats u₂ →
      uriStem u₂ ≠ uriStem u₁ ++ fi₁.suffix.str [] →
      fi₁.fullFilename.str [] ≠ fi₂.fullFilename.str []) := by
  obtain ⟨e₁, o₁, q₁, r₁, ha₁⟩ := accepted_of_run hu₁ h₁
  obtain ⟨e₂, o₂, q₂, r₂, ha₂⟩ := accepted_of_run hu₂ h₂
  have hsuf : o₁ ≠ [] → suffixText o₁ q₁ r₁ ≠ [] := by
    intro hne
    rw [suffixText, if_neg hne]
    simp [ascii]
  refine ⟨fun hl hr hfull => ?_, fun ho hfull => ?_, fun ho hplain hl hfull => ?_⟩
  · obtain ⟨hext, hcase⟩ := ha₁.full_eq ha₂ hfull
    obtain ⟨hstem, hsuffix⟩ := hcase.resolve_right fun hn => hn.elim hl hr
    obtain ⟨hoo, hnumbers⟩ := suffixText_inj ha₁.outer ha₂.outer hsuffix
    refine ⟨by rw [ha₁.named.orig, ha₂.named.orig, hstem, hext],
      by rw [ha₁.named.outer, ha₂.named.outer, hoo],
      by rw [ha₁.named.extension, ha₂.named.extension, hext], fun hne => ?_⟩
    rw [ha₁.named.outer] at hne
    obtain ⟨hq, hrr⟩ := hnumbers hne
    rw [ha₁.named.quality, ha₂.named.quality, ha₁.named.degree, ha₂.named.degree, hoo, hq, hrr]
    exact ⟨rfl, rfl⟩
  · rw [ha₁.named.outer] at ho
    rw [ha₁.named.full, ha₁.named.orig, List.append_assoc, List.append_assoc,
      List.append_assoc] at hfull
    have hlen := congrArg List.length (List.append_cancel_left hfull)
    rw [List.length_append] at hlen
    exact hsuf ho (List.eq_nil_of_length_eq_zero (by omega))
  · rw [ha₁.named.outer] at ho
    obtain ⟨-, hcase⟩ := ha₁.full_eq ha₂ hfull
    have hnil : suffixText o₂ q₂ r₂ = [] := by rw [suffixText, if_pos (ha₂.plain hplain)]
    rcases hcase with ⟨-, hsuffix⟩ | ⟨t, -, hstem, hsuffix⟩ | ⟨t, ht, -, hsuffix⟩
    · exact hsuf ho (hsuffix.trans hnil)
    · rw [ha₂.named.suffix, hnil, List.append_nil] at hsuffix
      exact hl (hsuffix ▸ hstem)
    · rw [ha₂.named.suffix, hnil] at hsuffix
      exact ht (List.append_eq_nil_iff.mp hsuffix.symm).1

def zeroResidue : Residue := ⟨.zero _, .zero _, [], []⟩

/-- What `parse_uri` makes of an accepted URI. -/
def parsed (uri : Bytes) : FileInfo :=
  ((parseUri zeroResidue uri fileInfoInit).getD (0, fileInfoInit)).2

theorem fullFilename_tells_apart_thumbnail :
    (parsed (ascii "/a=small_r9.jpg")).fullFilename.str [] ≠
      (parsed (ascii "/a.jpg")).fullFilename.str [] :=
  (fullFilename_tells_apart zeroResidue zeroResidue (ascii "/a=small_r9.jpg") (ascii "/a.jpg")
    (parsed (ascii "/a=small_r9.jpg")) (parsed (ascii "/a.jpg")) (by decide) (by decide)
    (by decide +kernel) (by decide +kernel)).2.2 (by decide +kernel)
    (by unfold HasFormats; decide) (by decide +kernel)

/-- `a=b.jpg` is stored under the name of the picture `a_b.jpg`, whose original is another one. -/
theorem fullFilename_not_injective : ¬ ∀ (g₁ g₂ : Residue) (u₁ u₂ : Bytes) (fi₁ fi₂ : FileInfo),
    IsCStr u₁ → IsCStr u₂ → parseUri g₁ u₁ fileInfoInit = some (0, fi₁) →
    parseUri g₂ u₂ fileInfoInit = some (0, fi₂) →
    (fi₁.origFilename.str [], fi₁.outerFormat.str [], fi₁.quality, fi₁.rotateDegree,
        fi₁.fileExtension.str []) ≠
      (fi₂.origFilename.str [], fi₂.outerFormat.str [], fi₂.quality, fi₂.rotateDegree,
        fi₂.fileExtension.str []) →
    fi₁.fullFilename.str [] ≠ fi₂.fullFilename.str [] := by
  intro h
  exact h zeroResidue zeroResidue (ascii "/a=b.jpg") (ascii "/a_b.jpg")
    (parsed (ascii "/a=b.jpg")) (parsed (ascii "/a_b.jpg")) (by decide) (by decide)
    (by decide +kernel) (by decide +kernel) (by decide +kernel) (by decide +kernel)

end Lighttpd

import Lighttpd.Lib.CString
import Lighttpd.Lib.Compare
import Lighttpd.Lib.Exchange

/-!
# `mod_dirlisting.c`: the entries of a directory are sorted by name

`http_dirls_sort` compares entries at a distance that shrinks to 1 and then goes through neighbours
until nothing is exchanged. The distance is 11 where it would be 9 or 10, but also then less than
before (`combGap_lt`), and each pass over neighbours but the last one leaves fewer pairs in the
wrong order; so it ends, with the entries in the order of `strcmp` (`httpDirlsSort_sorted`).
-/

namespace Lighttpd

open CLib Compare Exchange

/-! ## The code -/

/-- `dirls_entry_t`, and the name behind it, which is a string. -/
structure DirlsEntry where
  namelen : Nat
  mtime : Int
  size : Int
  name : Bytes
  isCStr : IsCStr name
  deriving DecidableEq

/-- `strcmp(DIRLIST_ENT_NAME(a), DIRLIST_ENT_NAME(b)) > 0` -/
def nameGreater (a b : DirlsEntry) : Bool := strcmp a.name b.name > 0

/-- The next distance; the product is an `int`. -/
def combGap (gap : Int) : Int :=
  let gap := ((gap * 10).bmod (2 ^ 32)).tdiv 13
  let gap := if gap = 9 ∨ gap = 10 then 11 else gap
  if gap < 1 then 1 else gap

/-- The loop; `fuel` bounds the number of passes, and an access behind the array has no value. -/
def combLoop (num : Int) : Nat → Int → List DirlsEntry → Option (List DirlsEntry)
  | 0, _, _ => none
  | fuel + 1, gap, ent => do
    let gap := combGap gap
    let (ent, swapped) ← exchangePass nameGreater gap.toNat (num - gap).toNat 0 ent false
    if gap > 1 ∨ swapped then combLoop num fuel gap ent else some ent

def httpDirlsSort (fuel : Nat) (ent : List DirlsEntry) (num : Int) : Option (List DirlsEntry) :=
  combLoop num fuel num ent

/-- The loop ends, and what it leaves is the same however many passes it may make. -/
def SortsTo (num gap : Int) (ent sorted : List DirlsEntry) : Prop :=
  ∃ passes, ∀ fuel, passes ≤ fuel → combLoop num fuel gap ent = some sorted

/-! ## The order of the names -/

theorem strcmp_cons (x y : UInt8) (s t : Bytes) : strcmp (x :: s) (y :: t) =
    if x = y then strcmp s t else (x.toNat : Int) - y.toNat := by
  rw [strcmp]

theorem strcmp_neg (s t : Bytes) : strcmp t s = -strcmp s t := by
  induction s generalizing t with
  | nil => cases t <;> simp [strcmp]
  | cons x s ih =>
    cases t with
    | nil => simp [strcmp]
    | cons y t =>
      rw [strcmp_cons, strcmp_cons, ih t]
      by_cases hxy : x = y
      · rw [if_pos hxy, if_pos hxy.symm]
      · rw [if_neg hxy, if_neg (Ne.symm hxy)]
        omega

theorem strcmp_trans {r s t : Bytes} (hr : IsCStr r) (hs : IsCStr s) (hrs : strcmp r s ≤ 0)
    (hst : strcmp s t ≤ 0) : strcmp r t ≤ 0 := by
  have hpos : ∀ {c : UInt8} {u : Bytes}, IsCStr (c :: u) → 0 < c.toNat := by
    intro c u hu
    have hc : c ≠ 0 := fun h => hu (h ▸ List.mem_cons_self)
    exact Nat.pos_of_ne_zero fun h => hc (UInt8.toNat_inj.mp h)
  induction r generalizing s t with
  | nil =>
    cases t with
    | nil => exact Int.le_refl 0
    | cons z t =>
      simp only [strcmp]
      omega
  | cons x r ih =>
    cases s with
    | nil =>
      have := hpos hr
      simp only [strcmp] at hrs
      omega
    | cons y s =>
      cases t with
      | nil =>
        have := hpos hs
        simp only [strcmp] at hst
        omega
      | cons z t =>
        have hne : ∀ {a b : UInt8}, a ≠ b → a.toNat ≠ b.toNat := fun h h' =>
          h (UInt8.toNat_inj.mp h')
        rw [strcmp_cons] at hrs hst ⊢
        by_cases hxy : x = y
        · subst hxy
          by_cases hxz : x = z
          · rw [if_pos rfl] at hrs
            rw [if_pos hxz] at hst ⊢
            exact ih (hr ∘ List.mem_cons_of_mem x) (hs ∘ List.mem_cons_of_mem x) hrs hst
          · rw [if_neg hxz] at hst ⊢
            exact hst
        · have hlt := hne hxy
          rw [if_neg hxy] at hrs
          by_cases hyz : y = z
          · rw [if_neg fun hxz => hxy (hxz.trans hyz.symm), ← hyz]
            exact hrs
          · have hlt' := hne hyz
            rw [if_neg hyz] at hst
            by_cases hxz : x = z
            · rw [hxz] at hrs
              omega
            · rw [if_neg hxz]
              omega

theorem preorderOn_strcmp : PreorderOn strcmp IsCStr where
  antisymm {s t} _ _ := by
    rw [strcmp_neg s t]
    omega
  trans hr hs _ hrs hst := strcmp_trans hr hs hrs hst

theorem nameGreater_eq_false {a b : DirlsEntry} :
    nameGreater a b = false ↔ strcmp a.name b.name ≤ 0 := by
  unfold nameGreater
  rw [decide_eq_false_iff_not]
  omega

theorem nameGreater_asymm (a b : DirlsEntry) (h : nameGreater a b = true) :
    nameGreater b a = false := by
  have hgt : strcmp a.name b.name > 0 := of_decide_eq_true h
  rw [nameGreater_eq_false, strcmp_neg]
  omega

theorem nameGreater_trans (a b c : DirlsEntry) (hab : nameGreater a b = false)
    (hbc : nameGreater b c = false) : nameGreater a c = false := by
  rw [nameGreater_eq_false] at *
  exact preorderOn_strcmp.trans a.isCStr b.isCStr c.isCStr hab hbc

/-! ## The distance -/

theorem combGap_eq {gap : Int} (hpos : 1 ≤ gap) (hint : gap * 10 < 2 ^ 31) :
    combGap gap = max 1 (if gap * 10 / 13 = 9 ∨ gap * 10 / 13 = 10 then 11 else gap * 10 / 13) := by
  have hbmod : (gap * 10).bmod (2 ^ 32) = gap * 10 :=
    Int.bmod_eq_of_le_mul_two (by omega) (by omega)
  have hdiv : (gap * 10).tdiv 13 = gap * 10 / 13 := Int.tdiv_eq_ediv_of_nonneg (by omega)
  unfold combGap
  dsimp only
  rw [hbmod, hdiv]
  split <;> split <;> omega

theorem combGap_lt {gap : Int} (hpos : 1 ≤ gap) (hint : gap * 10 < 2 ^ 31) :
    1 ≤ combGap gap ∧ combGap gap ≤ gap ∧ (1 < gap → combGap gap < gap) := by
  rw [combGap_eq hpos hint]
  split <;> omega

section Loop

variable {num gap : Int} {ent sorted : List DirlsEntry}

theorem sortsTo_of_pass {next : List DirlsEntry} {swapped : Bool}
    (hpass : exchangePass nameGreater (combGap gap).toNat (num - combGap gap).toNat 0 ent false =
      some (next, swapped))
    (hrest : combGap gap > 1 ∨ swapped = true → SortsTo num (combGap gap) next sorted)
    (hdone : ¬ (combGap gap > 1 ∨ swapped = true) → next = sorted) : SortsTo num gap ent sorted := by
  by_cases hmore : combGap gap > 1 ∨ swapped = true
  · obtain ⟨passes, hrun⟩ := hrest hmore
    refine ⟨passes + 1, fun fuel hfuel => ?_⟩
    obtain ⟨rest, rfl⟩ : ∃ rest, fuel = rest + 1 := ⟨fuel - 1, by omega⟩
    rw [combLoop]
    dsimp only
    rw [hpass, Option.bind_eq_bind, Option.bind_some]
    dsimp only
    rw [if_pos hmore]
    exact hrun rest (by omega)
  · refine ⟨1, fun fuel hfuel => ?_⟩
    obtain ⟨rest, rfl⟩ : ∃ rest, fuel = rest + 1 := ⟨fuel - 1, by omega⟩
    rw [combLoop]
    dsimp only
    rw [hpass, Option.bind_eq_bind, Option.bind_some]
    dsimp only
    rw [if_neg hmore, hdone hmore]

/-- At the distance 1: by induction on the number of pairs in the wrong order. -/
theorem sortsTo_neighbours (hnum : num = ent.length) (hgap : combGap gap = 1) :
    ∃ sorted, SortsTo num gap ent sorted ∧ sorted.Perm ent ∧
      sorted.Pairwise fun a b => strcmp a.name b.name ≤ 0 := by
  induction hcount : inversions nameGreater ent using Nat.strong_induction_on
    generalizing ent gap with
  | _ count ih =>
    have hrounds : (num - combGap gap).toNat = ent.length - 1 := by
      rw [hgap]
      omega
    have hone : (combGap gap).toNat = 1 := by
      rw [hgap]
      rfl
    obtain ⟨next, swapped, hpass, hperm⟩ :=
      @exchangePass_perm _ nameGreater 1 (ent.length - 1) 0 ent false (by omega)
    have hround : exchangePass nameGreater (combGap gap).toNat (num - combGap gap).toNat 0 ent
        false = some (next, swapped) := by
      rw [hone, hrounds]
      exact hpass
    cases swapped with
    | true =>
      have hless := (exchangePass_inversions nameGreater_asymm hpass).2 rfl rfl
      have hlen : num = next.length := by rw [hnum, hperm.length_eq]
      have hstay : combGap (combGap gap) = 1 := by
        rw [hgap]
        decide
      obtain ⟨sorted, hsorts, hperm', hpairs⟩ := ih _ (hcount ▸ hless) hlen hstay rfl
      exact ⟨sorted, sortsTo_of_pass hround (fun _ => hsorts) (fun hnot => absurd (.inr rfl) hnot),
        hperm'.trans hperm, hpairs⟩
    | false =>
      obtain ⟨rfl, hpairs⟩ := pairwise_of_exchangePass nameGreater_trans hpass
      refine ⟨next, sortsTo_of_pass hround (fun hmore => ?_) (fun _ => rfl), List.Perm.refl _,
        hpairs.imp nameGreater_eq_false.mp⟩
      rw [hgap] at hmore
      exact absurd hmore (by decide)

/-- At any distance: by induction on it. -/
theorem sortsTo_gap (hnum : num = ent.length) (hpos : 1 ≤ gap) (hint : gap * 10 < 2 ^ 31) :
    ∃ sorted, SortsTo num gap ent sorted ∧ sorted.Perm ent ∧
      sorted.Pairwise fun a b => strcmp a.name b.name ≤ 0 := by
  induction hn : gap.toNat using Nat.strong_induction_on generalizing gap ent with
  | _ n ih =>
    obtain ⟨hnext, hle, hless⟩ := combGap_lt hpos hint
    rcases Int.lt_or_eq_of_le hnext with hbig | hone
    · have hlt := hless (by omega)
      obtain ⟨next, swapped, hpass, hperm⟩ := @exchangePass_perm _ nameGreater (combGap gap).toNat
        (num - combGap gap).toNat 0 ent false (by omega)
      have hlen : num = next.length := by rw [hnum, hperm.length_eq]
      obtain ⟨sorted, hsorts, hperm', hpairs⟩ :=
        ih (combGap gap).toNat (by omega) hlen hnext (by omega) rfl
      exact ⟨sorted, sortsTo_of_pass hpass (fun _ => hsorts) (fun hnot => absurd (.inl hbig) hnot),
        hperm'.trans hperm, hpairs⟩
    · exact sortsTo_neighbours hnum hone.symm

end Loop

/-- **The entries are sorted**: the comb sort ends, and leaves the same entries in the order of
`strcmp`. -/
theorem httpDirlsSort_sorted {ent : List DirlsEntry} (hsome : 1 ≤ ent.length)
    (hint : ent.length * 10 < 2 ^ 31) : ∃ passes sorted,
    (∀ fuel, passes ≤ fuel → httpDirlsSort fuel ent ent.length = some sorted) ∧ sorted.Perm ent ∧
      sorted.Pairwise fun a b => strcmp a.name b.name ≤ 0 := by
  obtain ⟨sorted, ⟨passes, hruns⟩, hperm, hpairs⟩ :=
    @sortsTo_gap ent.length ent.length ent rfl (by omega) (by omega)
  exact ⟨passes, sorted, hruns, hperm, hpairs⟩

/-- Two files. -/
theorem httpDirlsSort_sorted_two : ∃ passes sorted,
    (∀ fuel, passes ≤ fuel →
      httpDirlsSort fuel [⟨1, 0, 5, ascii "b", by decide⟩, ⟨1, 0, 7, ascii "a", by decide⟩] 2 =
        some sorted) ∧
    sorted.Perm [⟨1, 0, 5, ascii "b", by decide⟩, ⟨1, 0, 7, ascii "a", by decide⟩] ∧
      sorted.Pairwise fun a b => strcmp a.name b.name ≤ 0 :=
  httpDirlsSort_sorted (by decide) (by decide)

example : (httpDirlsSort 9 [⟨1, 0, 5, ascii "b", by decide⟩, ⟨1, 0, 7, ascii "a", by decide⟩] 2).map
    (List.map DirlsEntry.name) = some [ascii "a", ascii "b"] := by decide

end Lighttpd

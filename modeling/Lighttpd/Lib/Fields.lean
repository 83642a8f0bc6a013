import Mathlib.Data.List.Pairwise
import Mathlib.Data.List.Basic

/-!
# Lists of named fields

A name may be spelled in several ways: two names are the same if they have the same key. A field that
is inserted is merged into the one with its name, or else is the last one (`insert`). In a list whose
names are distinct it is then the only one with its name, and the others are as before.
-/

namespace Fields

variable {ν κ ω : Type} [DecidableEq κ] (key : ν → κ) (merge : ω → ω → ω)

def values (fs : List (ν × ω)) (name : ν) : List ω :=
  (fs.filter fun f => key f.1 = key name).map Prod.snd

def insert : List (ν × ω) → ν → ω → List (ν × ω)
  | [], name, v => [(name, v)]
  | f :: fs, name, v =>
    if key f.1 = key name then (f.1, merge f.2 v) :: fs else f :: insert fs name v

/-- No name is there twice. -/
def Distinct (fs : List (ν × ω)) : Prop := fs.Pairwise fun f g => key f.1 ≠ key g.1

/-- The value of a field that is merged with the one that is there, if any. -/
def mergedWith : List ω → ω → ω
  | [], v => v
  | w :: _, v => merge w v

variable {key merge} {fs : List (ν × ω)} {f g : ν × ω} {name name' : ν} {v w : ω}

theorem values_cons (f : ν × ω) (fs : List (ν × ω)) (name : ν) : values key (f :: fs) name =
    if key f.1 = key name then f.2 :: values key fs name else values key fs name := by
  unfold values
  rw [List.filter_cons]
  by_cases h : key f.1 = key name <;> simp [h]

theorem values_eq_nil : values key fs name = [] ↔ ∀ f ∈ fs, key f.1 ≠ key name := by
  unfold values
  simp

theorem values_of_mem (hd : Distinct key fs) (hf : f ∈ fs) : values key fs f.1 = [f.2] := by
  induction fs with
  | nil => nomatch hf
  | cons g fs ih =>
    obtain ⟨hg, hd⟩ := List.pairwise_cons.mp hd
    rw [values_cons]
    rcases List.mem_cons.mp hf with rfl | hf
    · rw [if_pos rfl, values_eq_nil.mpr fun g hg' => (hg g hg').symm]
    · rw [if_neg (hg f hf), ih hd hf]

theorem values_filter {p : ν × ω → Bool} (h : ∀ f ∈ fs, key f.1 = key name → p f = true) :
    values key (fs.filter p) name = values key fs name := by
  unfold values
  rw [List.filter_filter]
  congr 1
  refine List.filter_congr fun f hf => ?_
  by_cases hk : key f.1 = key name
  · simp [hk, h f hf hk]
  · simp [hk]

/-! ## Insertion -/

theorem insert_of_notMem (h : ∀ f ∈ fs, key f.1 ≠ key name) :
    insert key merge fs name v = fs ++ [(name, v)] := by
  induction fs with
  | nil => rfl
  | cons f fs ih =>
    unfold insert
    rw [if_neg (h f List.mem_cons_self), ih fun g hg => h g (List.mem_cons_of_mem _ hg)]
    rfl

theorem insert_of_mem {pre post : List (ν × ω)} (hpre : ∀ f ∈ pre, key f.1 ≠ key name)
    (hf : key f.1 = key name) : insert key merge (pre ++ f :: post) name v =
      pre ++ (f.1, merge f.2 v) :: post := by
  induction pre with
  | nil =>
    show insert key merge (f :: post) name v = _
    unfold insert
    rw [if_pos hf]
    rfl
  | cons g pre ih =>
    rw [List.cons_append]
    unfold insert
    rw [if_neg (hpre g List.mem_cons_self), ih fun f hf => hpre f (List.mem_cons_of_mem _ hf)]
    rfl

theorem values_insert_ne (h : key name' ≠ key name) :
    values key (insert key merge fs name v) name' = values key fs name' := by
  induction fs with
  | nil =>
    show values key [(name, v)] name' = _
    rw [values_cons, if_neg (Ne.symm h)]
  | cons f fs ih =>
    unfold insert
    split
    · next hf =>
      have hne : key f.1 ≠ key name' := fun hk => h (hk.symm.trans hf)
      rw [values_cons, values_cons, if_neg hne, if_neg hne]
    · rw [values_cons, values_cons, ih]

theorem values_insert (hd : Distinct key fs) : values key (insert key merge fs name v) name =
    [mergedWith merge (values key fs name) v] := by
  induction fs with
  | nil =>
    show values key [(name, v)] name = _
    rw [values_cons, if_pos rfl]
    rfl
  | cons f fs ih =>
    obtain ⟨hf, hd⟩ := List.pairwise_cons.mp hd
    unfold insert
    split
    · next hk =>
      have hrest : values key fs name = [] :=
        values_eq_nil.mpr fun g hg hgk => hf g hg (hk.trans hgk.symm)
      rw [values_cons, values_cons, if_pos hk, if_pos hk, hrest]
      rfl
    · next hk => rw [values_cons, values_cons, if_neg hk, if_neg hk, ih hd]

theorem mem_insert (h : f ∈ insert key merge fs name v) : f.1 = name ∨ ∃ g ∈ fs, g.1 = f.1 := by
  induction fs with
  | nil =>
    obtain rfl := List.mem_singleton.mp h
    exact Or.inl rfl
  | cons g fs ih =>
    unfold insert at h
    split at h
    · rcases List.mem_cons.mp h with rfl | h
      · exact Or.inr ⟨g, List.mem_cons_self, rfl⟩
      · exact Or.inr ⟨f, List.mem_cons_of_mem _ h, rfl⟩
    · rcases List.mem_cons.mp h with rfl | h
      · exact Or.inr ⟨f, List.mem_cons_self, rfl⟩
      · rcases ih h with hname | ⟨g', hg', hname⟩
        · exact Or.inl hname
        · exact Or.inr ⟨g', List.mem_cons_of_mem _ hg', hname⟩

theorem exists_mem_insert (hg : g ∈ fs) : ∃ f ∈ insert key merge fs name v, f.1 = g.1 := by
  induction fs with
  | nil => nomatch hg
  | cons f fs ih =>
    unfold insert
    split
    · rcases List.mem_cons.mp hg with rfl | hg
      · exact ⟨_, List.mem_cons_self, rfl⟩
      · exact ⟨g, List.mem_cons_of_mem _ hg, rfl⟩
    · rcases List.mem_cons.mp hg with rfl | hg
      · exact ⟨g, List.mem_cons_self, rfl⟩
      · obtain ⟨f', hf', hname⟩ := ih hg
        exact ⟨f', List.mem_cons_of_mem _ hf', hname⟩

theorem Distinct.insert (hd : Distinct key fs) (name : ν) (v : ω) :
    Distinct key (Fields.insert key merge fs name v) := by
  induction fs with
  | nil => exact List.pairwise_singleton _ _
  | cons f fs ih =>
    obtain ⟨hf, hd⟩ := List.pairwise_cons.mp hd
    unfold Fields.insert
    split
    · exact List.pairwise_cons.mpr ⟨hf, hd⟩
    · next hk =>
      refine List.pairwise_cons.mpr ⟨fun g hg => ?_, ih hd⟩
      rcases mem_insert hg with hname | ⟨g', hg', hname⟩
      · rwa [hname]
      · rw [← hname]
        exact hf g' hg'

end Fields

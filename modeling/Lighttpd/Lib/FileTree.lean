import Mathlib.Data.List.MinMax
import Mathlib.Data.List.Nodup
import Mathlib.Data.Set.Insert

/-!
# Trees of files

A tree says what is at a path: a directory, a file with its content, or something else. No path is
there twice (`FileTree.nodup`). A change at one path leaves the others as they are (`node_set`,
`node_remove`), and the names in a directory are those with something behind them (`mem_names`).
What an operation may touch, or delete, is a set of paths (`ChangesIn`, `DeletesIn`).
-/

inductive FileNode (σ : Type) where
  | dir
  | file (content : σ)
  | other
  deriving DecidableEq, Repr

/-- Paths are names from the root on. -/
structure FileTree (ν σ : Type) where
  nodes : List (List ν × FileNode σ)
  nodup : (nodes.map Prod.fst).Nodup

namespace FileTree

variable {ν σ : Type} [DecidableEq ν]

def node (t : FileTree ν σ) (p : List ν) : Option (FileNode σ) := t.nodes.lookup p

def remove (t : FileTree ν σ) (p : List ν) : FileTree ν σ where
  nodes := t.nodes.filter (·.1 ≠ p)
  nodup := t.nodup.sublist (List.filter_sublist.map Prod.fst)

def set (t : FileTree ν σ) (p : List ν) (n : FileNode σ) : FileTree ν σ where
  nodes := (p, n) :: (t.remove p).nodes
  nodup := by
    refine List.nodup_cons.mpr ⟨?_, (t.remove p).nodup⟩
    simp [remove]

/-- The name of a path in the directory `p`. -/
def nameIn (p q : List ν) : Option ν := if q.dropLast = p then q.getLast? else none

def names (t : FileTree ν σ) (p : List ν) : List ν := (t.nodes.map Prod.fst).filterMap (nameIn p)

variable {t : FileTree ν σ} {p q : List ν} {n : ν}

theorem lookup_filter (nodes : List (List ν × FileNode σ)) (p q : List ν) :
    (nodes.filter (·.1 ≠ p)).lookup q = if q = p then none else nodes.lookup q := by
  induction nodes with
  | nil => simp
  | cons e nodes ih =>
    obtain ⟨r, m⟩ := e
    rw [List.filter_cons]
    by_cases hr : r = p
    · subst hr
      rw [if_neg (by simp), ih]
      split
      · rfl
      · next hne => rw [List.lookup_cons, beq_eq_false_iff_ne.mpr hne]
    · rw [if_pos (by simpa using hr), List.lookup_cons, List.lookup_cons, ih]
      split
      · next heq =>
        obtain rfl := beq_iff_eq.mp heq
        rw [if_neg hr]
      · rfl

theorem node_remove (t : FileTree ν σ) (p q : List ν) :
    (t.remove p).node q = if q = p then none else t.node q :=
  lookup_filter t.nodes p q

theorem node_set (t : FileTree ν σ) (p q : List ν) (m : FileNode σ) :
    (t.set p m).node q = if q = p then some m else t.node q := by
  unfold node set
  rw [List.lookup_cons]
  by_cases hq : q = p
  · rw [beq_iff_eq.mpr hq, if_pos hq]
  · rw [beq_eq_false_iff_ne.mpr hq, if_neg hq]
    exact (lookup_filter t.nodes p q).trans (if_neg hq)

theorem nameIn_eq_some : nameIn p q = some n ↔ q = p ++ [n] := by
  unfold nameIn
  split
  · next h =>
    subst h
    rw [List.getLast?_eq_some_iff]
    constructor
    · rintro ⟨front, rfl⟩
      rw [List.dropLast_concat]
    · exact fun h => ⟨_, h⟩
  · next h =>
    refine ⟨nofun, ?_⟩
    rintro rfl
    exact absurd List.dropLast_concat h

theorem mem_names : n ∈ t.names p ↔ (t.node (p ++ [n])).isSome := by
  unfold names node
  rw [List.lookup_isSome_iff, List.mem_filterMap]
  constructor
  · rintro ⟨q, hq, hname⟩
    obtain ⟨e, he, rfl⟩ := List.mem_map.mp hq
    exact ⟨e, he, beq_iff_eq.mpr (nameIn_eq_some.mp hname).symm⟩
  · rintro ⟨e, he, heq⟩
    exact ⟨e.1, List.mem_map_of_mem he, nameIn_eq_some.mpr (beq_iff_eq.mp heq).symm⟩

theorem names_nodup (t : FileTree ν σ) (p : List ν) : (t.names p).Nodup := by
  refine t.nodup.filterMap ?_
  intro q r n hq hr
  exact (nameIn_eq_some.mp hq).trans (nameIn_eq_some.mp hr).symm

theorem names_eq_nil (h : ∀ q, p.length < q.length → t.node q = none) : t.names p = [] := by
  refine List.eq_nil_iff_forall_not_mem.mpr ?_
  intro n hn
  have hsome : (t.node (p ++ [n])).isSome := mem_names.mp hn
  rw [h _ (by simp)] at hsome
  exact nomatch hsome

def height (t : FileTree ν σ) : Nat := (t.nodes.map (·.1.length)).foldr max 0

theorem node_of_height (h : t.height < q.length) : t.node q = none := by
  unfold node
  rw [List.lookup_eq_none_iff]
  intro e he
  rw [bne_iff_ne]
  rintro rfl
  have hle : e.1.length ≤ t.height :=
    List.le_max_of_le' 0 (List.mem_map_of_mem (f := fun e => e.1.length) he) le_rfl
  omega

/-- Outside the set, both trees agree. -/
def ChangesIn (S : Set (List ν)) (t t' : FileTree ν σ) : Prop := ∀ p, p ∉ S → t'.node p = t.node p

namespace ChangesIn

variable {S S' : Set (List ν)} {t' t'' : FileTree ν σ}

theorem refl (S : Set (List ν)) (t : FileTree ν σ) : ChangesIn S t t := fun _ _ => rfl

theorem mono (h : ChangesIn S t t') (hsub : S ⊆ S') : ChangesIn S' t t' :=
  fun p hp => h p fun hin => hp (hsub hin)

theorem trans (h : ChangesIn S t t') (h' : ChangesIn S t' t'') : ChangesIn S t t'' :=
  fun p hp => (h' p hp).trans (h p hp)

end ChangesIn

theorem changesIn_set (t : FileTree ν σ) (p : List ν) (m : FileNode σ) :
    ChangesIn {p} t (t.set p m) := by
  intro q hq
  exact (node_set t p q m).trans (if_neg hq)

/-- Nothing happens but that paths of the set go away. -/
def DeletesIn (S : Set (List ν)) (t t' : FileTree ν σ) : Prop :=
  ∀ p, t'.node p = t.node p ∨ p ∈ S ∧ t'.node p = none

namespace DeletesIn

variable {S S' : Set (List ν)} {t' t'' : FileTree ν σ}

theorem refl (S : Set (List ν)) (t : FileTree ν σ) : DeletesIn S t t := fun _ => .inl rfl

theorem mono (h : DeletesIn S t t') (hsub : S ⊆ S') : DeletesIn S' t t' :=
  fun p => (h p).imp_right fun hin => ⟨hsub hin.1, hin.2⟩

theorem trans (h : DeletesIn S t t') (h' : DeletesIn S t' t'') : DeletesIn S t t'' := by
  intro p
  rcases h' p with heq | hgone
  · rw [heq]
    exact h p
  · exact .inr hgone

theorem changesIn (h : DeletesIn S t t') : ChangesIn S t t' :=
  fun p hp => (h p).resolve_right fun hin => hp hin.1

theorem absent (h : DeletesIn S t t') (hp : t.node p = none) : t'.node p = none := by
  rcases h p with heq | hgone
  · exact heq.trans hp
  · exact hgone.2

end DeletesIn

theorem deletesIn_remove (t : FileTree ν σ) (p : List ν) : DeletesIn {p} t (t.remove p) := by
  intro q
  by_cases hq : q = p
  · exact .inr ⟨hq, (node_remove t p q).trans (if_pos hq)⟩
  · exact .inl ((node_remove t p q).trans (if_neg hq))

end FileTree

/-!
# Vectors with one entry per node or edge

The network and the forest keep one entry for each node and one for each edge,
in vectors that are read and written at positions that cannot be out of range.
One rule says what a vector holds after one of its entries has been replaced.
-/

namespace MinCut

/-- **Replacing an entry** of a vector leaves the others alone. -/
theorem get_set {α : Type} {n : Nat} (xs : Vector α n) (i j : Fin n) (x : α) :
    (xs.set i x i.isLt).get j = if j = i then x else xs.get j := by
  have h : (xs.set i x i.isLt).get j = if i.val = j.val then x else xs.get j :=
    Vector.getElem_set i.isLt j.isLt
  by_cases hj : j = i
  · rw [h, if_pos hj, if_pos (congrArg Fin.val hj.symm)]
  · have hv : ¬i.val = j.val := fun hij => hj (Fin.ext hij.symm)
    rw [h, if_neg hj, if_neg hv]

/-- An entry of a vector that is made from a function. -/
theorem get_ofFn {α : Type} {n : Nat} (f : Fin n → α) (i : Fin n) :
    (Vector.ofFn f).get i = f i :=
  Vector.getElem_ofFn i.isLt

/-- An entry of a vector to whose entries a function has been applied. -/
theorem get_map {α β : Type} {n : Nat} (xs : Vector α n) (f : α → β) (i : Fin n) :
    (xs.map f).get i = f (xs.get i) :=
  Vector.getElem_map f i.isLt

end MinCut

/-!
# Double-ended queues

The search keeps two waiting lines. Active nodes join theirs at the back and
leave at the front; orphans may join at either end. `Deque` serves both with a
pair of lists, the second one reversed, so that every operation but an
occasional turn of the back list is immediate.

The list a deque stands for is `Deque.toList`, front first, and each operation
has one lemma saying what it does to that list. Nothing else needs to look
inside.
-/

namespace MinCut

/-- A queue open at both ends: `front` in order, then `back` in reverse. -/
structure Deque (α : Type) where
  /-- The elements nearest the front, in order. -/
  front : List α
  /-- The elements nearest the back, last one first. -/
  back : List α
deriving DecidableEq

namespace Deque

variable {α : Type}

/-- The elements from front to back. -/
def toList (d : Deque α) : List α := d.front ++ d.back.reverse

/-- The deque of the elements of a list, its head in front. -/
def ofList (l : List α) : Deque α := ⟨l, []⟩

/-- The deque without elements. -/
def empty : Deque α := ofList []

/-- How many elements wait. -/
def length (d : Deque α) : Nat := d.front.length + d.back.length

/-- Puts an element before all others. -/
def pushFront (a : α) (d : Deque α) : Deque α := { d with front := a :: d.front }

/-- Puts an element behind all others. -/
def pushBack (d : Deque α) (a : α) : Deque α := { d with back := a :: d.back }

/-- Takes the first element off, if there is one. If all elements are in the back list, it is turned
round first and becomes the front list. -/
def popFront? (d : Deque α) : Option (α × Deque α) :=
  match d.front with
  | a :: rest => some (a, { d with front := rest })
  | [] =>
    match d.back.reverse with
    | a :: rest => some (a, ofList rest)
    | [] => none

@[simp] theorem toList_ofList (l : List α) : (ofList l).toList = l := by
  simp [toList, ofList]

@[simp] theorem toList_empty : (empty : Deque α).toList = [] := rfl

/-- An element that is pushed in front is the first of the list. -/
@[simp] theorem toList_pushFront (a : α) (d : Deque α) :
    (d.pushFront a).toList = a :: d.toList := rfl

/-- An element that is pushed at the back is the last of the list. -/
@[simp] theorem toList_pushBack (d : Deque α) (a : α) :
    (d.pushBack a).toList = d.toList ++ [a] := by
  simp [toList, pushBack]

/-- The length is that of the list the deque stands for. -/
theorem length_eq (d : Deque α) : d.length = d.toList.length := by
  simp [length, toList]

/-- What is left after the first element is taken is the tail of the list. -/
theorem toList_of_popFront? {d rest : Deque α} {a : α}
    (h : d.popFront? = some (a, rest)) : d.toList = a :: rest.toList := by
  obtain ⟨front, back⟩ := d
  cases front with
  | cons x xs =>
    simp only [popFront?, Option.some.injEq, Prod.mk.injEq] at h
    obtain ⟨rfl, rfl⟩ := h
    rfl
  | nil =>
    cases hb : back.reverse with
    | nil => simp [popFront?, hb] at h
    | cons x xs =>
      simp only [popFront?, hb, Option.some.injEq, Prod.mk.injEq] at h
      obtain ⟨rfl, rfl⟩ := h
      simp [toList, ofList, hb]

/-- Nothing can be taken exactly from the empty deque. -/
theorem popFront?_eq_none_iff {d : Deque α} :
    d.popFront? = none ↔ d.toList = [] := by
  obtain ⟨front, back⟩ := d
  cases front with
  | cons x xs => simp [popFront?, toList]
  | nil =>
    cases h : back.reverse with
    | nil => simp [popFront?, toList, h]
    | cons x xs => simp [popFront?, toList, h]

/-- Taking an element shortens the queue by one. -/
theorem length_of_popFront? {d rest : Deque α} {a : α}
    (h : d.popFront? = some (a, rest)) : d.length = rest.length + 1 := by
  rw [length_eq, length_eq, toList_of_popFront? h, List.length_cons]

end Deque

end MinCut

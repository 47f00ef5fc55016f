/-!
Sorting by insertion. Equal elements keep their order. The main statements say that a sorted list
holds the same elements, and holds them in order.
-/

set_option autoImplicit false

namespace JobFlow.Sorted

variable {α : Type}

/-- Puts an element in front of the first one that it may precede. -/
def insert (le : α → α → Bool) (a : α) : List α → List α
  | [] => [a]
  | b :: bs => if le a b then a :: b :: bs else b :: insert le a bs

def sort (le : α → α → Bool) (xs : List α) : List α :=
  xs.foldr (insert le) []

def names (xs : List String) : List String :=
  sort (fun a b => decide (a ≤ b)) xs

/-- Puts a name into increasing names, unless it is one of them. -/
def insertNew (a : String) : List String → List String
  | [] => [a]
  | b :: bs => if a = b then b :: bs else if a < b then a :: b :: bs else b :: insertNew a bs

/-- Names in increasing order, each once. -/
def distinct (xs : List String) : List String :=
  xs.foldr insertNew []

theorem insert_perm (le : α → α → Bool) (a : α) (xs : List α) :
    (insert le a xs).Perm (a :: xs) := by
  induction xs with
  | nil => exact List.Perm.refl _
  | cons b bs ih =>
    unfold insert
    split
    · exact List.Perm.refl _
    · exact (ih.cons b).trans (List.Perm.swap a b bs)

/-- Sorting loses and repeats nothing. -/
theorem sort_perm (le : α → α → Bool) (xs : List α) : (sort le xs).Perm xs := by
  induction xs with
  | nil => exact List.Perm.refl _
  | cons a as ih => exact (insert_perm le a (sort le as)).trans (ih.cons a)

theorem mem_insert {le : α → α → Bool} {a x : α} {xs : List α} :
    x ∈ insert le a xs ↔ x = a ∨ x ∈ xs := by
  rw [(insert_perm le a xs).mem_iff, List.mem_cons]

theorem pairwise_insert {le : α → α → Bool}
    (trans : ∀ a b c, le a b = true → le b c = true → le a c = true)
    (total : ∀ a b, le a b = true ∨ le b a = true) (a : α) {xs : List α}
    (ordered : xs.Pairwise fun x y => le x y = true) :
    (insert le a xs).Pairwise fun x y => le x y = true := by
  induction xs with
  | nil => simp [insert]
  | cons b bs ih =>
    have before := (List.pairwise_cons.1 ordered).1
    have later := (List.pairwise_cons.1 ordered).2
    unfold insert
    split
    · next first =>
      refine List.pairwise_cons.2 ⟨?_, ordered⟩
      intro x inList
      rcases List.mem_cons.1 inList with rfl | inRest
      · exact first
      · exact trans a b x first (before x inRest)
    · next notFirst =>
      refine List.pairwise_cons.2 ⟨?_, ih later⟩
      intro x inList
      rcases mem_insert.1 inList with rfl | inRest
      · exact (total x b).resolve_left notFirst
      · exact before x inRest

/-- A sorted list is in order. -/
theorem pairwise_sort {le : α → α → Bool}
    (trans : ∀ a b c, le a b = true → le b c = true → le a c = true)
    (total : ∀ a b, le a b = true ∨ le b a = true) (xs : List α) :
    (sort le xs).Pairwise fun x y => le x y = true := by
  induction xs with
  | nil => exact List.Pairwise.nil
  | cons a as ih => exact pairwise_insert trans total a ih

theorem names_perm (xs : List String) : (names xs).Perm xs :=
  sort_perm ..

theorem pairwise_names (xs : List String) : (names xs).Pairwise fun a b => a ≤ b := by
  have ordered : (names xs).Pairwise fun a b => decide (a ≤ b) = true :=
    pairwise_sort (fun a b c => by simpa using String.le_trans)
      (fun a b => by simpa using String.le_total a b) xs
  exact ordered.imp fun h => by simpa using h

theorem mem_insertNew {a x : String} {xs : List String} :
    x ∈ insertNew a xs ↔ x = a ∨ x ∈ xs := by
  induction xs with
  | nil => simp [insertNew]
  | cons b bs ih =>
    unfold insertNew
    split
    · next same => simp [same]
    · split
      · simp
      · simp only [List.mem_cons, ih]
        constructor
        · rintro (h | h | h) <;> simp [h]
        · rintro (h | h | h) <;> simp [h]

theorem mem_distinct {x : String} {xs : List String} : x ∈ distinct xs ↔ x ∈ xs := by
  induction xs with
  | nil => simp [distinct]
  | cons a as ih =>
    show x ∈ insertNew a (distinct as) ↔ x ∈ a :: as
    rw [mem_insertNew, ih, List.mem_cons]

theorem lt_of_not_lt_of_ne {a b : String} (notLess : ¬ a < b) (distinct : ¬ a = b) : b < a := by
  apply Classical.byContradiction
  intro notGreater
  exact distinct (String.le_antisymm notGreater notLess)

theorem pairwise_insertNew (a : String) {xs : List String}
    (increasing : xs.Pairwise fun x y => x < y) :
    (insertNew a xs).Pairwise fun x y => x < y := by
  induction xs with
  | nil => simp [insertNew]
  | cons b bs ih =>
    have before := (List.pairwise_cons.1 increasing).1
    have later := (List.pairwise_cons.1 increasing).2
    unfold insertNew
    split
    · exact increasing
    · next other =>
      split
      · next first =>
        refine List.pairwise_cons.2 ⟨?_, increasing⟩
        intro x inList
        rcases List.mem_cons.1 inList with rfl | inRest
        · exact first
        · exact String.lt_trans first (before x inRest)
      · next notFirst =>
        refine List.pairwise_cons.2 ⟨?_, ih later⟩
        intro x inList
        rcases mem_insertNew.1 inList with rfl | inRest
        · exact lt_of_not_lt_of_ne notFirst other
        · exact before x inRest

theorem pairwise_distinct (xs : List String) : (distinct xs).Pairwise fun a b => a < b := by
  induction xs with
  | nil => exact List.Pairwise.nil
  | cons a as ih => exact pairwise_insertNew a ih

theorem nodup_distinct (xs : List String) : (distinct xs).Nodup :=
  (pairwise_distinct xs).imp String.ne_of_lt

end JobFlow.Sorted

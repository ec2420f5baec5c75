import Mathlib.Data.List.Basic

/-!
A list cut into windows of one size, of which only the last may be shorter, and the
position of an item in them.
-/

namespace Windows

variable {α β : Type}

def cut (size : Nat) (xs : List α) : List (List α) :=
  (List.range ((xs.length + size - 1) / size)).map fun k => (xs.drop (k * size)).take size

def Regular (size : Nat) : List (List α) → Prop
  | [] => True
  | [row] => row.length ≤ size
  | row :: rest => row.length = size ∧ Regular size rest

@[simp] theorem cut_nil (size : Nat) : cut size ([] : List α) = [] := by
  have none : (0 + size - 1) / size = 0 := by
    cases size with
    | zero => rfl
    | succ size => exact Nat.div_eq_of_lt (by omega)
  simp only [cut, List.length_nil, none, List.range_zero, List.map_nil]

theorem cut_cons {size : Nat} (positive : 0 < size) {xs : List α} (some_ : xs ≠ []) :
    cut size xs = xs.take size :: cut size (xs.drop size) := by
  have long := List.length_pos_iff.mpr some_
  have count : (xs.length + size - 1) / size = ((xs.drop size).length + size - 1) / size + 1 := by
    rw [List.length_drop]
    by_cases short : xs.length ≤ size
    · rw [Nat.sub_eq_zero_of_le short, Nat.zero_add, Nat.div_eq_of_lt (by omega : size - 1 < size)]
      exact Nat.div_eq_of_lt_le (by omega) (by omega)
    · rw [← Nat.add_div_right _ positive]
      congr 1
      omega
  rw [cut, count, List.range_succ_eq_map]
  simp only [List.map_cons, Nat.zero_mul, List.drop_zero, List.map_map, cut, List.cons.injEq, true_and]
  refine List.map_congr_left fun k _ => ?_
  simp only [Function.comp_apply, List.drop_drop, Nat.succ_mul]
  rw [Nat.add_comm (k * size)]

/-- Induction over the windows of a list. -/
theorem cut_induction {size : Nat} (positive : 0 < size) {motive : List α → Prop} (nil : motive [])
    (cons : ∀ xs, xs ≠ [] → motive (xs.drop size) → motive xs) (xs : List α) : motive xs := by
  induction n : xs.length using Nat.strongRecOn generalizing xs with
  | _ n ih =>
      by_cases none : xs = []
      · exact none ▸ nil
      · have long := List.length_pos_iff.mpr none
        exact cons xs none (ih (xs.drop size).length (by rw [List.length_drop]; omega) _ rfl)

theorem cut_flatten {size : Nat} (positive : 0 < size) (xs : List α) : (cut size xs).flatten = xs := by
  induction xs using cut_induction positive with
  | nil => simp
  | cons xs some_ ih => rw [cut_cons positive some_, List.flatten_cons, ih, List.take_append_drop]

theorem cut_regular {size : Nat} (positive : 0 < size) (xs : List α) : Regular size (cut size xs) := by
  induction xs using cut_induction positive with
  | nil => simp [Regular]
  | cons xs some_ ih =>
      rw [cut_cons positive some_]
      by_cases last : xs.drop size = []
      · rw [last, cut_nil]
        exact List.length_take_le size xs
      · have more : size < xs.length := by
          by_contra short
          exact last (List.drop_eq_nil_of_le (by omega))
        rw [cut_cons positive last] at ih ⊢
        exact ⟨by rw [List.length_take]; omega, ih⟩

theorem cut_ne_nil {size : Nat} (positive : 0 < size) (xs : List α) : ∀ row ∈ cut size xs, row ≠ [] := by
  induction xs using cut_induction positive with
  | nil => simp
  | cons xs some_ ih =>
      have long := List.length_pos_iff.mpr some_
      rw [cut_cons positive some_, List.forall_mem_cons]
      refine ⟨fun empty => ?_, ih⟩
      have short := congrArg List.length empty
      simp only [List.length_take, List.length_nil] at short
      omega

theorem Regular.tail {size : Nat} {row : List α} {rest : List (List α)}
    (regular : Regular size (row :: rest)) : Regular size rest ∧ row.length ≤ size ∧
      (rest ≠ [] → row.length = size) := by
  cases rest with
  | nil => exact ⟨trivial, regular, fun some_ => absurd rfl some_⟩
  | cons next rest => exact ⟨regular.2, Nat.le_of_eq regular.1, fun _ => regular.1⟩

theorem Regular.row {size : Nat} {rows : List (List α)} (regular : Regular size rows) {k : Nat}
    {row : List α} (found : rows[k]? = some row) :
    row.length ≤ size ∧ (k + 1 < rows.length → row.length = size) := by
  induction rows generalizing k with
  | nil => simp at found
  | cons first rest ih =>
      obtain ⟨others, short, full⟩ := regular.tail
      cases k with
      | zero =>
          obtain rfl : first = row := by simpa using found
          refine ⟨short, fun more => full ?_⟩
          rintro rfl
          simp at more
      | succ k =>
          rw [List.getElem?_cons_succ] at found
          obtain ⟨bounded, exact_⟩ := ih others found
          exact ⟨bounded, fun more => exact_ (by simpa using more)⟩

/-- Position `i` of the whole is position `i % size` of row `i / size`. -/
theorem getElem?_flatten {size : Nat} (positive : 0 < size) {rows : List (List α)}
    (regular : Regular size rows) (i : Nat) :
    rows.flatten[i]? = rows[i / size]?.bind fun row => row[i % size]? := by
  induction rows generalizing i with
  | nil => simp
  | cons row rest ih =>
      obtain ⟨others, short, full⟩ := regular.tail
      rw [List.flatten_cons]
      by_cases early : i < size
      · rw [Nat.div_eq_of_lt early, Nat.mod_eq_of_lt early]
        by_cases inside : i < row.length
        · simp [List.getElem?_append_left inside]
        · have last : rest = [] := by
            by_contra some_
            have exact_ := full some_
            omega
          simp [last]
      · have later : i / size = (i - size) / size + 1 := by
          rw [← Nat.add_div_right _ positive, Nat.sub_add_cancel (by omega)]
        have offset : i % size = (i - size) % size := Nat.mod_eq_sub_mod (by omega)
        rw [later, offset, List.getElem?_cons_succ, ← ih others, List.getElem?_append_right (by omega)]
        by_cases last : rest = []
        · simp [last]
        · rw [full last]

theorem Regular.of_lengths {size : Nat} {rows : List (List α)} {others : List (List β)}
    (regular : Regular size rows) (same : others.map List.length = rows.map List.length) :
    Regular size others := by
  induction others generalizing rows with
  | nil => trivial
  | cons row rest ih =>
      cases rows with
      | nil => simp at same
      | cons first more =>
          simp only [List.map_cons, List.cons.injEq] at same
          obtain ⟨others, short, full⟩ := regular.tail
          cases rest with
          | nil =>
              show row.length ≤ size
              omega
          | cons next rest =>
              have some_ : more ≠ [] := by
                rintro rfl
                simp at same
              exact ⟨same.1.trans (full some_), ih others same.2⟩

theorem row_of_position {size : Nat} (positive : 0 < size) {rows : List (List α)}
    (regular : Regular size rows) {i : Nat} (bound : i < rows.flatten.length) :
    ∃ row, rows[i / size]? = some row ∧ i % size < row.length := by
  have here := getElem?_flatten positive regular i
  rw [List.getElem?_eq_getElem bound] at here
  obtain ⟨row, found, inside⟩ := Option.bind_eq_some_iff.mp here.symm
  exact ⟨row, found, (List.getElem?_eq_some_iff.mp inside).1⟩

end Windows

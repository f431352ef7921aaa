/-! # Lists with one element replaced, and tallies

A step of one worker or of one call replaces one element of a list. A tally adds up what each element
of a list weighs, so then it changes by the difference of two weights.
-/

namespace KeyedJobs

variable {α β : Type}

theorem exists_split {list : List α} {i : Nat} {x : α} (found : list[i]? = some x) :
    ∃ before after, list = before ++ x :: after ∧ list.eraseIdx i = before ++ after ∧
      ∀ y, list.set i y = before ++ y :: after := by
  obtain ⟨inRange, rfl⟩ := List.getElem?_eq_some_iff.mp found
  refine ⟨list.take i, list.drop (i + 1), ?_, List.eraseIdx_eq_take_drop_succ .., fun y => ?_⟩
  · rw [← List.drop_eq_getElem_cons inRange, List.take_append_drop]
  · rw [List.set_eq_take_append_cons_drop, if_pos inRange]

theorem append_singleton_eq_split {list past future : List α} {last x : α}
    (split : list ++ [last] = past ++ x :: future) :
    (past = list ∧ x = last ∧ future = []) ∨
      ∃ rest, future = rest ++ [last] ∧ list = past ++ x :: rest := by
  rcases List.eq_nil_or_concat future with rfl | ⟨rest, other, rfl⟩
  · obtain ⟨rfl, same⟩ := List.append_inj' split rfl
    exact .inl ⟨rfl, (List.cons.inj same).1.symm, rfl⟩
  · have split : list ++ [last] = (past ++ x :: rest) ++ [other] := by simpa using split
    obtain ⟨rfl, same⟩ := List.append_inj' split rfl
    obtain rfl := (List.cons.inj same).1
    exact .inr ⟨rest, by simp, rfl⟩

theorem perm_eraseIdx {list : List α} {i : Nat} {x : α} (found : list[i]? = some x) :
    list.Perm (x :: list.eraseIdx i) := by
  obtain ⟨before, after, split, erased, -⟩ := exists_split found
  rw [erased, split]
  exact List.perm_middle

theorem perm_set {list : List α} {i : Nat} {x : α} (found : list[i]? = some x) (y : α) :
    (list.set i y).Perm (y :: list.eraseIdx i) := by
  obtain ⟨before, after, -, erased, set⟩ := exists_split found
  rw [erased, set]
  exact List.perm_middle

theorem perm_flatMap (f : α → List β) {list : List α} {i : Nat} {x : α}
    (found : list[i]? = some x) : (list.flatMap f).Perm (f x ++ (list.eraseIdx i).flatMap f) :=
  (perm_eraseIdx found).flatMap_right f

theorem perm_flatMap_set (f : α → List β) {list : List α} {i : Nat} {x : α}
    (found : list[i]? = some x) (y : α) :
    ((list.set i y).flatMap f).Perm (f y ++ (list.eraseIdx i).flatMap f) :=
  (perm_set found y).flatMap_right f

theorem flatMap_set_of_eq {f : α → List β} {list : List α} {i : Nat} {old new : α}
    (found : list[i]? = some old) (same : f new = f old) :
    (list.set i new).flatMap f = list.flatMap f := by
  obtain ⟨before, after, split, -, set⟩ := exists_split found
  rw [set, split, List.flatMap_append, List.flatMap_append, List.flatMap_cons, List.flatMap_cons, same]

theorem flatMap_eraseIdx_of_nil {f : α → List β} {list : List α} {i : Nat} {old : α}
    (found : list[i]? = some old) (empty : f old = []) :
    (list.eraseIdx i).flatMap f = list.flatMap f := by
  obtain ⟨before, after, split, erased, -⟩ := exists_split found
  rw [erased, split, List.flatMap_append, List.flatMap_append, List.flatMap_cons, empty,
    List.nil_append]

/-- The place of an element after another one, with the place `gone`, is taken out. -/
def movedUp (gone place : Nat) : Nat :=
  if gone < place then place - 1 else place

theorem getElem?_eraseIdx_movedUp (list : List α) {i j : Nat} (apart : i ≠ j) :
    (list.eraseIdx i)[movedUp i j]? = list[j]? := by
  rw [List.getElem?_eraseIdx, movedUp]
  split
  · rw [if_neg (by omega), show j - 1 + 1 = j by omega]
  · rw [if_pos (by omega)]

theorem eraseIdx_set_movedUp (list : List α) {i j : Nat} (apart : i ≠ j) (x : α) :
    (list.set j x).eraseIdx i = (list.eraseIdx i).set (movedUp i j) x := by
  rw [movedUp]
  split
  · exact List.eraseIdx_set_lt ‹_›
  · exact List.eraseIdx_set_gt (by omega)

theorem eraseIdx_eraseIdx_of_lt (list : List α) {i j : Nat} (less : i < j) :
    (list.eraseIdx i).eraseIdx (j - 1) = (list.eraseIdx j).eraseIdx i := by
  apply List.ext_getElem?
  intro n
  simp only [List.getElem?_eraseIdx]
  by_cases front : n < i
  · rw [if_pos (by omega), if_pos front, if_pos front, if_pos (by omega)]
  · by_cases middle : n < j - 1
    · rw [if_pos middle, if_neg front, if_neg front, if_pos (by omega)]
    · rw [if_neg middle, if_neg (by omega), if_neg front, if_neg (by omega)]

theorem eraseIdx_eraseIdx_movedUp (list : List α) {i j : Nat} (apart : i ≠ j) :
    (list.eraseIdx i).eraseIdx (movedUp i j) = (list.eraseIdx j).eraseIdx (movedUp j i) := by
  rcases Nat.lt_or_gt_of_ne apart with less | less
  · rw [movedUp, movedUp, if_pos less, if_neg (Nat.lt_asymm less), eraseIdx_eraseIdx_of_lt list less]
  · rw [movedUp, movedUp, if_neg (Nat.lt_asymm less), if_pos less, eraseIdx_eraseIdx_of_lt list less]

/-- The weights of all elements together. -/
def tally (weight : α → Nat) : List α → Nat
  | [] => 0
  | x :: rest => weight x + tally weight rest

@[simp] theorem tally_nil (weight : α → Nat) : tally weight [] = 0 := rfl

@[simp] theorem tally_cons (weight : α → Nat) (x : α) (rest : List α) :
    tally weight (x :: rest) = weight x + tally weight rest := rfl

@[simp] theorem tally_append (weight : α → Nat) (left right : List α) :
    tally weight (left ++ right) = tally weight left + tally weight right := by
  induction left with
  | nil => simp
  | cons x rest ih => simp only [List.cons_append, tally_cons, ih, Nat.add_assoc]

theorem tally_flatMap (weight : β → Nat) (f : α → List β) (list : List α) :
    tally weight (list.flatMap f) = tally (fun x => tally weight (f x)) list := by
  induction list with
  | nil => rfl
  | cons x rest ih => simp only [List.flatMap_cons, tally_append, tally_cons, ih]

theorem tally_one (list : List α) : tally (fun _ => 1) list = list.length := by
  induction list with
  | nil => rfl
  | cons x rest ih => simp only [tally_cons, List.length_cons, ih]; omega

theorem tally_countP (chosen : α → Bool) (list : List α) :
    tally (fun x => if chosen x then 1 else 0) list = list.countP chosen := by
  induction list with
  | nil => rfl
  | cons x rest ih => rw [tally_cons, ih, List.countP_cons, Nat.add_comm]

theorem tally_if_eq [DecidableEq α] (x : α) (list : List α) :
    tally (fun y => if y = x then 1 else 0) list = list.count x := by
  induction list with
  | nil => rfl
  | cons y rest ih =>
      simp only [tally_cons, ih, List.count_cons, beq_iff_eq]
      omega

theorem tally_set (weight : α → Nat) {list : List α} {i : Nat} {x : α} (found : list[i]? = some x)
    (y : α) : tally weight (list.set i y) + weight x = tally weight list + weight y := by
  obtain ⟨before, after, split, -, set⟩ := exists_split found
  rw [set, split]
  simp only [tally_append, tally_cons]
  omega

theorem tally_eraseIdx (weight : α → Nat) {list : List α} {i : Nat} {x : α}
    (found : list[i]? = some x) :
    tally weight (list.eraseIdx i) + weight x = tally weight list := by
  obtain ⟨before, after, split, erased, -⟩ := exists_split found
  rw [erased, split]
  simp only [tally_append, tally_cons]
  omega

theorem le_tally (weight : α → Nat) {list : List α} {x : α} (member : x ∈ list) :
    weight x ≤ tally weight list := by
  induction member with
  | head => simp only [tally_cons]; omega
  | tail _ _ ih => simp only [tally_cons]; omega

theorem tally_eq_zero {weight : α → Nat} {list : List α} :
    tally weight list = 0 ↔ ∀ x ∈ list, weight x = 0 := by
  induction list with
  | nil => simp
  | cons x rest ih => simp only [tally_cons, List.forall_mem_cons, ← ih]; omega

theorem exists_of_tally_pos {weight : α → Nat} {list : List α} (positive : 0 < tally weight list) :
    ∃ x ∈ list, 0 < weight x := by
  induction list with
  | nil => simp at positive
  | cons x rest ih =>
      by_cases heavy : 0 < weight x
      · exact ⟨x, List.mem_cons_self, heavy⟩
      · simp only [tally_cons] at positive
        obtain ⟨y, member, heavy'⟩ := ih (by omega)
        exact ⟨y, List.mem_cons_of_mem x member, heavy'⟩

theorem of_one_pos {p : Prop} [Decidable p] (positive : 0 < if p then 1 else 0) : p := by
  by_cases h : p
  · exact h
  · simp [h] at positive

theorem two_le_tally {weight : α → Nat} {list : List α} {i j : Nat} {x y : α}
    (first : list[i]? = some x) (second : list[j]? = some y) (apart : i ≠ j)
    (heavy : 0 < weight x) (heavy' : 0 < weight y) : 2 ≤ tally weight list := by
  have erased := tally_eraseIdx weight first
  have kept : y ∈ list.eraseIdx i := by
    rw [List.mem_eraseIdx_iff_getElem?]
    exact ⟨j, fun same => apart same.symm, second⟩
  have := le_tally weight kept
  omega

theorem tally_add (left right : α → Nat) (list : List α) :
    tally (fun x => left x + right x) list = tally left list + tally right list := by
  induction list with
  | nil => rfl
  | cons x rest ih => simp only [tally_cons, ih]; omega

theorem tally_congr {weight weight' : α → Nat} {list : List α}
    (same : ∀ x ∈ list, weight x = weight' x) : tally weight list = tally weight' list := by
  induction list with
  | nil => rfl
  | cons x rest ih =>
      obtain ⟨here, others⟩ := List.forall_mem_cons.mp same
      rw [tally_cons, tally_cons, here, ih others]

theorem tally_ite_of_mem [DecidableEq α] {list : List α} (distinct : list.Nodup) {x : α}
    (member : x ∈ list) (heavy : Nat) : tally (fun y => if x = y then heavy else 0) list = heavy := by
  induction list with
  | nil => cases member
  | cons y rest ih =>
      obtain ⟨absent, distinct⟩ := List.nodup_cons.mp distinct
      rw [tally_cons]
      rcases List.mem_cons.mp member with rfl | later
      · have others : tally (fun y => if x = y then heavy else 0) rest = 0 :=
          tally_eq_zero.mpr fun y inRest => if_neg (ne_of_mem_of_not_mem inRest absent).symm
        rw [if_pos rfl, others]
        rfl
      · rw [if_neg (ne_of_mem_of_not_mem later absent), ih distinct later, Nat.zero_add]

/-- A list that is sorted by labels weighs as much as its parts do together. -/
theorem tally_by_label [DecidableEq β] {weight : α → Nat} {label : α → Option β} {list : List α}
    {labels : List β} (distinct : labels.Nodup)
    (labelled : ∀ x ∈ list, weight x = 0 ∨ ∃ b ∈ labels, label x = some b) :
    tally weight list = tally (fun b => tally weight (list.filter (label · = some b))) labels := by
  induction list with
  | nil => exact (tally_eq_zero.mpr fun _ _ => rfl).symm
  | cons x rest ih =>
      obtain ⟨here, others⟩ := List.forall_mem_cons.mp labelled
      have parts : ∀ b ∈ labels, tally weight ((x :: rest).filter (label · = some b)) =
          (if label x = some b then weight x else 0) +
            tally weight (rest.filter (label · = some b)) := by
        intro b _
        by_cases same : label x = some b <;> simp [same]
      have once : tally (fun b => if label x = some b then weight x else 0) labels = weight x := by
        rcases here with light | ⟨b, member, same⟩
        · rw [light]
          exact tally_eq_zero.mpr fun b _ => by split <;> rfl
        · simp only [same, Option.some.injEq]
          exact tally_ite_of_mem distinct member (weight x)
      rw [tally_congr parts, tally_add, once, ← ih others, tally_cons]

end KeyedJobs

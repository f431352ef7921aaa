import KeyedJobs.Proofs.RoundRobin
import Mathlib.Data.List.Induction
import Mathlib.Data.List.Nodup

/-! # The turns of keys

The places of a list of keys, in rounds: each key gives its next place once in a round, and the keys
go in the order in which the list brings them. Lanes that hold the places of one key each and are
called up in the order of the list come to that by taking turns.
-/

namespace KeyedJobs

variable {α β : Type} {keys : List String} {key key' : String} {i j m : Nat}

/-- How many earlier places of the list have the key of this one. -/
def earlier (keys : List String) (i : Nat) : Nat :=
  (keys.take i).countP fun key => keys[i]? = some key

/-- The first place of the list that has the key of this one. -/
def firstPlace (keys : List String) (i : Nat) : Nat :=
  keys.findIdx fun key => keys[i]? = some key

/-- One place has its turn before another: in an earlier round, or in the same round with a key that
comes first in the list. -/
def Sooner (keys : List String) (i j : Nat) : Prop :=
  earlier keys i < earlier keys j ∨
    earlier keys i = earlier keys j ∧ firstPlace keys i < firstPlace keys j

instance (keys : List String) : DecidableRel (Sooner keys) := fun i j =>
  inferInstanceAs (Decidable (earlier keys i < earlier keys j ∨
    earlier keys i = earlier keys j ∧ firstPlace keys i < firstPlace keys j))

/-- The places of the list in the order of their turns. -/
def turns (keys : List String) : List Nat :=
  (List.range keys.length).mergeSort fun i j => !decide (Sooner keys j i)

/-- The places of the key, in order. -/
def placesOf (keys : List String) (key : String) : List Nat :=
  (List.range keys.length).filter fun i => keys[i]? = some key

theorem Sooner.trans {k : Nat} (first : Sooner keys i j) (second : Sooner keys j k) :
    Sooner keys i k := by
  unfold Sooner at *
  omega

theorem Sooner.asymm (sooner : Sooner keys i j) : ¬ Sooner keys j i := by
  unfold Sooner at *
  omega

theorem placesOf_append (keys : List String) (last key : String) :
    placesOf (keys ++ [last]) key =
      placesOf keys key ++ if last = key then [keys.length] else [] := by
  have before : (List.range keys.length).filter (fun i => (keys ++ [last])[i]? = some key) =
      placesOf keys key := by
    apply List.filter_congr
    intro i inRange
    rw [List.getElem?_append_left (List.mem_range.mp inRange)]
  rw [placesOf, List.length_append, List.length_singleton, List.range_succ, List.filter_append,
    before]
  by_cases same : last = key <;> simp [same]

theorem mem_placesOf : i ∈ placesOf keys key ↔ keys[i]? = some key := by
  rw [placesOf, List.mem_filter, List.mem_range, decide_eq_true_eq, and_iff_right_iff_imp]
  exact fun found => (List.getElem?_eq_some_iff.mp found).1

theorem length_placesOf (keys : List String) (key : String) :
    (placesOf keys key).length = keys.count key := by
  induction keys using List.reverseRecOn with
  | nil => rfl
  | append_singleton keys last ih =>
      rw [placesOf_append, List.length_append, ih, List.count_append, List.count_singleton]
      by_cases same : last = key <;> simp [same]

theorem earlier_of_found (found : keys[i]? = some key) :
    earlier keys i = (keys.take i).count key := by
  rw [earlier, found, List.count]
  apply List.countP_congr
  intro other _
  rw [decide_eq_true_eq, beq_iff_eq, Option.some.injEq, eq_comm]

theorem firstPlace_of_found (found : keys[i]? = some key) : firstPlace keys i = keys.idxOf key := by
  rw [firstPlace, found, List.idxOf]
  congr 1
  funext other
  rw [Bool.eq_iff_iff, decide_eq_true_eq, beq_iff_eq, Option.some.injEq, eq_comm]

theorem earlier_of_placesOf (place : (placesOf keys key)[m]? = some i) : earlier keys i = m := by
  rw [earlier_of_found (mem_placesOf.mp (List.mem_of_getElem? place))]
  induction keys using List.reverseRecOn with
  | nil => simp [placesOf] at place
  | append_singleton keys last ih =>
      rw [placesOf_append] at place
      rcases Nat.lt_or_ge m (placesOf keys key).length with before | behind
      · rw [List.getElem?_append_left before] at place
        have found := mem_placesOf.mp (List.mem_of_getElem? place)
        have inside := (List.getElem?_eq_some_iff.mp found).1
        rw [List.take_append_of_le_length (Nat.le_of_lt inside)]
        exact ih place
      · rw [List.getElem?_append_right behind] at place
        by_cases same : last = key
        · rw [if_pos same] at place
          obtain ⟨rfl, here⟩ : m = (placesOf keys key).length ∧ keys.length = i := by
            have inside := (List.getElem?_eq_some_iff.mp place).1
            have last : m = (placesOf keys key).length := by
              simp only [List.length_singleton] at inside
              omega
            subst last
            simpa using place
          rw [← here, List.take_left, length_placesOf]
        · rw [if_neg same] at place
          cases place

theorem exists_place (inside : i < keys.length) :
    ∃ (key : String) (m : Nat), keys[i]? = some key ∧ (placesOf keys key)[m]? = some i := by
  have found : keys[i]? = some keys[i] := List.getElem?_eq_getElem inside
  obtain ⟨m, place⟩ := List.mem_iff_getElem?.mp (mem_placesOf.mpr found)
  exact ⟨_, m, found, place⟩

theorem sooner_or_sooner (inside : i < keys.length) (inside' : j < keys.length) (apart : i ≠ j) :
    Sooner keys i j ∨ Sooner keys j i := by
  obtain ⟨key, m, found, place⟩ := exists_place inside
  obtain ⟨key', m', found', place'⟩ := exists_place inside'
  have distinct : m = m' → keys.idxOf key ≠ keys.idxOf key' := by
    rintro rfl same
    rw [List.idxOf_inj (List.mem_of_getElem? found)] at same
    subst same
    exact apart (Option.some.inj (place.symm.trans place'))
  unfold Sooner
  rw [earlier_of_placesOf place, earlier_of_placesOf place', firstPlace_of_found found,
    firstPlace_of_found found']
  omega

theorem pairwise_placesOf (keys : List String) (key : String) :
    (placesOf keys key).Pairwise (Sooner keys) := by
  rw [List.pairwise_iff_getElem]
  intro m n inside inside' less
  refine .inl ?_
  rwa [earlier_of_placesOf (List.getElem?_eq_getElem inside),
    earlier_of_placesOf (List.getElem?_eq_getElem inside')]

theorem alternates_placesOf (less : keys.idxOf key < keys.idxOf key') :
    Alternates (Sooner keys) (placesOf keys key) (placesOf keys key') := by
  intro m
  constructor
  · intro x place y place'
    have found := mem_placesOf.mp (List.mem_of_getElem? place)
    have found' := mem_placesOf.mp (List.mem_of_getElem? place')
    refine .inr ⟨?_, ?_⟩
    · rw [earlier_of_placesOf place, earlier_of_placesOf place']
    · rwa [firstPlace_of_found found, firstPlace_of_found found']
  · intro y place' x place
    refine .inl ?_
    rw [earlier_of_placesOf place, earlier_of_placesOf place']
    exact Nat.lt_succ_self m

example : turns ["A", "B", "A", "C", "A", "B"] = [0, 1, 3, 2, 5, 4] := by cbv

theorem perm_turns (keys : List String) : (turns keys).Perm (List.range keys.length) :=
  List.mergeSort_perm _ _

theorem mem_turns : i ∈ turns keys ↔ i < keys.length := by
  rw [(perm_turns keys).mem_iff, List.mem_range]

theorem pairwise_turns (keys : List String) : (turns keys).Pairwise (Sooner keys) := by
  have sorted : (turns keys).Pairwise fun i j => (!decide (Sooner keys j i)) = true := by
    apply List.pairwise_mergeSort
    · intro i j k first second
      rw [Bool.not_eq_true', decide_eq_false_iff_not] at first second ⊢
      unfold Sooner at *
      omega
    · intro i j
      rw [Bool.or_eq_true, Bool.not_eq_true', Bool.not_eq_true', decide_eq_false_iff_not,
        decide_eq_false_iff_not]
      unfold Sooner
      omega
  have distinct : (turns keys).Nodup := (perm_turns keys).nodup_iff.mpr List.nodup_range
  refine (sorted.and distinct).imp_of_mem fun {i j} member member' pair => ?_
  obtain ⟨late, apart⟩ := pair
  refine (sooner_or_sooner (mem_turns.mp member) (mem_turns.mp member') apart).resolve_right ?_
  simpa using late

theorem eq_turns {order : List Nat} (increasing : order.Pairwise (Sooner keys))
    (all : ∀ i, i ∈ order ↔ i < keys.length) : order = turns keys := by
  have distinct : order.Nodup := increasing.imp fun {i j} sooner same =>
    (same ▸ sooner).asymm (same ▸ sooner)
  have distinct' : (turns keys).Nodup := (perm_turns keys).nodup_iff.mpr List.nodup_range
  have perm : order.Perm (turns keys) := by
    rw [List.perm_ext_iff_of_nodup distinct distinct']
    exact fun i => (all i).trans mem_turns.symm
  exact perm.eq_of_pairwise (fun i j _ _ sooner sooner' => absurd sooner' sooner.asymm) increasing
    (pairwise_turns keys)

/-- The lanes that signals call up, one after the other: a lane of its own, or the lane of a key,
which is empty from then on. -/
def lanesOf (idle : String → List α) : List (String ⊕ List α) → List (List α)
  | [] => []
  | .inl key :: rest => idle key :: lanesOf (Function.update idle key []) rest
  | .inr lane :: rest => lane :: lanesOf idle rest

variable {idle : String → List α}

theorem lanesOf_append_inr (idle : String → List α) (signals : List (String ⊕ List α))
    (lane : List α) : lanesOf idle (signals ++ [.inr lane]) = lanesOf idle signals ++ [lane] := by
  induction signals generalizing idle with
  | nil => rfl
  | cons signal rest ih =>
      cases signal with
      | inl key => rw [List.cons_append, lanesOf, lanesOf, ih, List.cons_append]
      | inr lane => rw [List.cons_append, lanesOf, lanesOf, ih, List.cons_append]

theorem lanesOf_append_inl (idle : String → List α) (signals : List (String ⊕ List α))
    (key : String) : ∃ lane, lanesOf idle (signals ++ [.inl key]) = lanesOf idle signals ++ [lane] ∧
      (lane = [] ∨ .inl key ∉ signals ∧ lane = idle key) := by
  induction signals generalizing idle with
  | nil => exact ⟨idle key, rfl, .inr ⟨List.not_mem_nil, rfl⟩⟩
  | cons signal rest ih =>
      cases signal with
      | inl other =>
          obtain ⟨lane, appended, given⟩ := ih (Function.update idle other [])
          refine ⟨lane, by rw [List.cons_append, lanesOf, lanesOf, appended, List.cons_append], ?_⟩
          by_cases same : key = other
          · subst same
            exact .inl (given.elim id fun new => by simpa using new.2)
          · simpa [Function.update, same] using given
      | inr lane =>
          obtain ⟨last, appended, given⟩ := ih idle
          refine ⟨last, by rw [List.cons_append, lanesOf, lanesOf, appended, List.cons_append], ?_⟩
          simpa using given

theorem mem_lanesOf {signals : List (String ⊕ List α)} (called : .inl key ∈ signals) :
    idle key ∈ lanesOf idle signals := by
  induction signals generalizing idle with
  | nil => cases called
  | cons signal rest ih =>
      cases signal with
      | inl other =>
          rw [lanesOf]
          by_cases same : key = other
          · rw [same]
            exact List.mem_cons_self
          · have later : .inl key ∈ rest := by simpa [same] using called
            have there : Function.update idle other [] key ∈
                lanesOf (Function.update idle other []) rest := ih later
            rw [Function.update_of_ne same] at there
            exact List.mem_cons_of_mem _ there
      | inr lane =>
          have later : .inl key ∈ rest := by simpa using called
          exact List.mem_cons_of_mem _ (ih later)

theorem of_mem_lanesOf {signals : List (String ⊕ List α)} {lane : List α}
    (member : lane ∈ lanesOf idle signals) :
    lane = [] ∨ (∃ key, lane = idle key) ∨ .inr lane ∈ signals := by
  induction signals generalizing idle with
  | nil => cases member
  | cons signal rest ih =>
      cases signal with
      | inl key =>
          rcases List.mem_cons.mp member with rfl | later
          · exact .inr (.inl ⟨key, rfl⟩)
          · rcases ih later with empty | ⟨other, rfl⟩ | sent
            · exact .inl empty
            · by_cases same : other = key
              · exact .inl (by rw [same, Function.update_self])
              · exact .inr (.inl ⟨other, Function.update_of_ne same _ _⟩)
            · exact .inr (.inr (List.mem_cons_of_mem _ sent))
      | inr first =>
          rcases List.mem_cons.mp member with rfl | later
          · exact .inr (.inr List.mem_cons_self)
          · exact (ih later).imp_right (.imp_right (List.mem_cons_of_mem _))

theorem lanesOf_map (f : α → β) (idle : String → List α) (keys : List String) :
    lanesOf (fun key => (idle key).map f) (keys.map .inl) =
      (lanesOf idle (keys.map .inl)).map (List.map f) := by
  induction keys generalizing idle with
  | nil => rfl
  | cons key rest ih =>
      have emptied : Function.update (fun key => (idle key).map f) key [] =
          fun other => (Function.update idle key [] other).map f := by
        funext other
        by_cases same : other = key <;> simp [Function.update, same]
      simp only [List.map_cons, lanesOf, emptied, ih]

/-- The lanes of the keys behind the first part of a list: those of keys that are new there. They
alternate. -/
theorem lanesOf_places (past rest : List String) (split : keys = past ++ rest) :
    (lanesOf (fun key => if key ∈ past then [] else placesOf keys key)
        (rest.map .inl)).Pairwise (Alternates (Sooner keys)) ∧
      ∀ lane ∈ lanesOf (fun key => if key ∈ past then [] else placesOf keys key)
          (rest.map .inl), lane = [] ∨ ∃ key ∈ rest, key ∉ past ∧ lane = placesOf keys key := by
  induction rest generalizing past with
  | nil => exact ⟨.nil, fun _ member => by cases member⟩
  | cons key rest ih =>
      obtain ⟨alternates, lanes⟩ := ih (past ++ [key]) (by simpa using split)
      have emptied : Function.update (fun other => if other ∈ past then [] else placesOf keys other)
          key [] = fun other => if other ∈ past ++ [key] then [] else placesOf keys other := by
        funext other
        by_cases same : other = key <;> simp [Function.update, same]
      rw [List.map_cons, lanesOf, emptied]
      refine ⟨List.pairwise_cons.mpr ⟨fun lane member => ?_, alternates⟩, fun lane member => ?_⟩
      · by_cases seen : key ∈ past
        · rw [if_pos seen]
          exact fun m => ⟨fun x found => by simp at found, fun _ _ x found => by simp at found⟩
        · rw [if_neg seen]
          rcases lanes lane member with rfl | ⟨other, later, new, rfl⟩
          · exact fun m => ⟨fun _ _ y found => by simp at found, fun y found => by simp at found⟩
          · refine alternates_placesOf ?_
            rw [split, List.idxOf_append_of_notMem seen, List.idxOf_cons_self]
            rw [List.mem_append, List.mem_singleton, not_or] at new
            rw [List.idxOf_append_of_notMem new.1, List.idxOf_cons_ne _ (Ne.symm new.2)]
            omega
      · rcases List.mem_cons.mp member with rfl | member
        · by_cases seen : key ∈ past
          · exact .inl (if_pos seen)
          · exact .inr ⟨key, List.mem_cons_self, seen, if_neg seen⟩
        · refine (lanes lane member).imp_right fun found => ?_
          obtain ⟨other, later, new, same⟩ := found
          exact ⟨other, List.mem_cons_of_mem _ later, fun old => new (List.mem_append_left _ old),
            same⟩

/-- The lanes of the keys of a list, called up in the order of the list, give its places in the
order of their turns. -/
theorem roundRobin_places (keys : List String) :
    roundRobin (lanesOf (placesOf keys) (keys.map .inl)) = turns keys := by
  obtain ⟨alternates, lanes⟩ := lanesOf_places [] keys (rfl : keys = [] ++ keys)
  simp only [List.not_mem_nil, if_false] at alternates lanes
  refine eq_turns ?_ fun i => ?_
  · refine pairwise_roundRobin (fun _ _ _ first second => first.trans second) alternates ?_
    intro lane member
    rcases lanes lane member with rfl | ⟨key, -, -, rfl⟩
    · exact .nil
    · exact pairwise_placesOf keys key
  · rw [(perm_roundRobin _).mem_iff, List.mem_flatten]
    constructor
    · rintro ⟨lane, member, here⟩
      rcases lanes lane member with rfl | ⟨key, -, -, rfl⟩
      · cases here
      · exact (List.getElem?_eq_some_iff.mp (mem_placesOf.mp here)).1
    · intro inside
      have found : keys[i]? = some keys[i] := List.getElem?_eq_getElem inside
      have called : .inl keys[i] ∈ (keys.map .inl : List (String ⊕ List Nat)) :=
        List.mem_map_of_mem (List.getElem_mem inside)
      exact ⟨_, mem_lanesOf called, mem_placesOf.mpr found⟩

end KeyedJobs

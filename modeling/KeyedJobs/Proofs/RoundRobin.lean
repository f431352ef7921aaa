/-! # Round robin

Lanes take turns: the first one gives its first element and goes behind the others, until all are
empty. What is appended to a lane, or stands behind all lanes, does not change the order of what was
there.
-/

namespace KeyedJobs

variable {α β : Type} {r : α → α → Prop}

/-- The elements of the lanes in the order in which the lanes give them. -/
def roundRobin : List (List α) → List α
  | [] => []
  | [] :: rest => roundRobin rest
  | (x :: lane) :: rest => x :: roundRobin (rest ++ [lane])
termination_by lanes => lanes.flatten.length + lanes.length
decreasing_by
  all_goals
    simp only [List.flatten_cons, List.flatten_append, List.flatten_nil, List.length_append,
      List.length_cons, List.length_nil, List.append_nil]
    omega

@[simp] theorem roundRobin_nil : roundRobin ([] : List (List α)) = [] := by rw [roundRobin]

@[simp] theorem roundRobin_nil_cons (rest : List (List α)) :
    roundRobin ([] :: rest) = roundRobin rest := by
  rw [roundRobin]

theorem roundRobin_cons_cons (x : α) (lane : List α) (rest : List (List α)) :
    roundRobin ((x :: lane) :: rest) = x :: roundRobin (rest ++ [lane]) := by
  rw [roundRobin]

theorem perm_roundRobin (lanes : List (List α)) : (roundRobin lanes).Perm lanes.flatten := by
  induction lanes using roundRobin.induct with
  | case1 => simp
  | case2 rest ih => simpa using ih
  | case3 x lane rest ih =>
      rw [roundRobin_cons_cons, List.flatten_cons, List.cons_append]
      refine (ih.trans ?_).cons x
      rw [List.flatten_append, List.flatten_singleton]
      exact List.perm_append_comm

theorem roundRobin_map (f : α → β) (lanes : List (List α)) :
    roundRobin (lanes.map (List.map f)) = (roundRobin lanes).map f := by
  induction lanes using roundRobin.induct with
  | case1 => simp
  | case2 rest ih => simpa using ih
  | case3 x lane rest ih =>
      rw [List.map_append, List.map_singleton] at ih
      rw [List.map_cons, List.map_cons, roundRobin_cons_cons, roundRobin_cons_cons, List.map_cons,
        ih]

/-- Lanes that have more at their ends, and more lanes. Nothing counts of what is more. -/
inductive Padded (counts : α → Bool) : List (List α) → List (List α) → Prop where
  | nil : Padded counts [] []
  | more {lanes lanes' : List (List α)} (extra : List α) (idle : extra.filter counts = [])
      (rest : Padded counts lanes lanes') : Padded counts lanes (extra :: lanes')
  | lane {lanes lanes' : List (List α)} (lane extra : List α) (idle : extra.filter counts = [])
      (rest : Padded counts lanes lanes') :
      Padded counts (lane :: lanes) ((lane ++ extra) :: lanes')

variable {counts : α → Bool} {lanes lanes' more more' : List (List α)}

theorem Padded.refl (counts : α → Bool) (lanes : List (List α)) : Padded counts lanes lanes := by
  induction lanes with
  | nil => exact .nil
  | cons lane rest ih => simpa using Padded.lane lane [] rfl ih

theorem Padded.append (first : Padded counts lanes lanes') (second : Padded counts more more') :
    Padded counts (lanes ++ more) (lanes' ++ more') := by
  induction first with
  | nil => exact second
  | more extra idle _ ih => exact .more extra idle ih
  | lane lane extra idle _ ih => exact .lane lane extra idle ih

theorem Padded.filter_roundRobin (padded : Padded counts lanes lanes') :
    (roundRobin lanes').filter counts = (roundRobin lanes).filter counts := by
  induction lanes' using roundRobin.induct generalizing lanes with
  | case1 =>
      cases padded
      rfl
  | case2 rest ih =>
      rw [roundRobin_nil_cons]
      generalize front : ([] : List α) :: rest = lanes' at padded
      cases padded with
      | nil => cases front
      | more _ _ below =>
          cases front
          exact ih below
      | lane lane extra _ below =>
          obtain ⟨empty, rfl⟩ := List.cons.inj front
          obtain ⟨rfl, -⟩ := List.append_eq_nil_iff.mp empty.symm
          rw [roundRobin_nil_cons]
          exact ih below
  | case3 x tail rest ih =>
      rw [roundRobin_cons_cons]
      generalize front : (x :: tail) :: rest = lanes' at padded
      have skips : (x :: tail).filter counts = [] → ∀ {lanes : List (List α)},
          Padded counts lanes rest →
            (x :: roundRobin (rest ++ [tail])).filter counts =
              (roundRobin lanes).filter counts := by
        intro idle lanes below
        have uncounted : ¬ counts x = true := fun counted => by
          simp [List.filter_cons_of_pos counted] at idle
        rw [List.filter_cons_of_neg uncounted] at idle ⊢
        exact ih (by simpa using below.append (.more tail idle .nil))
      cases padded with
      | nil => cases front
      | more extra idle below =>
          cases front
          exact skips idle below
      | lane lane extra idle below =>
          obtain ⟨split, rfl⟩ := List.cons.inj front
          cases lane with
          | nil =>
              rw [roundRobin_nil_cons]
              exact skips (by rw [split]; exact idle) below
          | cons y lane =>
              obtain ⟨rfl, rfl⟩ := List.cons.inj split
              rw [roundRobin_cons_cons, List.filter_cons, List.filter_cons,
                ih (below.append (.lane lane extra idle .nil))]

theorem roundRobin_skip (before after : List (List α)) :
    roundRobin (before ++ [] :: after) = roundRobin (before ++ after) := by
  have padded : Padded (fun _ => true) (before ++ after) (before ++ [] :: after) :=
    (Padded.refl _ before).append (.more [] rfl (.refl _ after))
  have same := padded.filter_roundRobin
  rwa [List.filter_eq_self.mpr fun _ _ => rfl, List.filter_eq_self.mpr fun _ _ => rfl] at same

theorem roundRobin_append_nil (lanes : List (List α)) :
    roundRobin (lanes ++ [[]]) = roundRobin lanes := by
  simpa using roundRobin_skip lanes []

/-- Each element of the first lane comes before the one across in the second lane, and that one
comes before the next element of the first. -/
def Alternates (r : α → α → Prop) (first second : List α) : Prop :=
  ∀ m : Nat, (∀ x ∈ first[m]?, ∀ y ∈ second[m]?, r x y) ∧
    ∀ y ∈ second[m]?, ∀ x ∈ first[m + 1]?, r y x

theorem Alternates.head (trans : ∀ x y z, r x y → r y z → r x z) {x y : α}
    {first second : List α} (alternates : Alternates r (x :: first) second)
    (ordered : second.Pairwise r) (member : y ∈ second) : r x y := by
  cases second with
  | nil => cases member
  | cons head rest =>
      have least : r x head := (alternates 0).1 x rfl head rfl
      rcases List.mem_cons.mp member with rfl | later
      · exact least
      · exact trans _ _ _ least (List.rel_of_pairwise_cons ordered later)

theorem Alternates.turn {x : α} {first second : List α}
    (alternates : Alternates r (x :: first) second) : Alternates r second first := by
  intro m
  exact ⟨(alternates m).2, fun y mem x mem' => (alternates (m + 1)).1 y mem x mem'⟩

/-- Ordered lanes that alternate with all lanes behind them give their elements in order. -/
theorem pairwise_roundRobin (trans : ∀ x y z, r x y → r y z → r x z) {lanes : List (List α)}
    (alternates : lanes.Pairwise (Alternates r)) (ordered : ∀ lane ∈ lanes, lane.Pairwise r) :
    (roundRobin lanes).Pairwise r := by
  induction lanes using roundRobin.induct with
  | case1 => simp
  | case2 rest ih =>
      rw [roundRobin_nil_cons]
      exact ih alternates.of_cons fun lane member => ordered lane (List.mem_cons_of_mem _ member)
  | case3 x lane rest ih =>
      obtain ⟨ahead, alternates⟩ := List.pairwise_cons.mp alternates
      obtain ⟨least, tail⟩ := List.pairwise_cons.mp (ordered _ List.mem_cons_self)
      have others : ∀ lane ∈ rest, lane.Pairwise r := fun lane member =>
        ordered lane (List.mem_cons_of_mem _ member)
      rw [roundRobin_cons_cons, List.pairwise_cons]
      constructor
      · intro y member
        have given := (perm_roundRobin _).mem_iff.mp member
        rw [List.flatten_append, List.flatten_singleton, List.mem_append] at given
        rcases given with inRest | inLane
        · obtain ⟨other, present, here⟩ := List.mem_flatten.mp inRest
          exact (ahead other present).head trans (others other present) here
        · exact least y inLane
      · refine ih ?_ ?_
        · rw [List.pairwise_append]
          refine ⟨alternates, List.pairwise_singleton _ _, fun other present last member => ?_⟩
          rw [List.mem_singleton.mp member]
          exact (ahead other present).turn
        · intro other member
          rcases List.mem_append.mp member with present | last
          · exact others other present
          · rw [List.mem_singleton.mp last]
            exact tail

theorem mem_of_sooner (asymm : ∀ x y, r x y → ¬ r y x) {past now order : List α}
    (increasing : order.Pairwise r) (leads : past ++ now <+: order) (single : now.length ≤ 1)
    {x y : α} (reached : y ∈ past ++ now) (member : x ∈ order) (sooner : r x y) : x ∈ past := by
  obtain ⟨rest, rfl⟩ := leads
  obtain ⟨early, -, behind⟩ := List.pairwise_append.mp increasing
  rcases List.mem_append.mp member with inPart | inRest
  · rcases List.mem_append.mp inPart with before | here
    · exact before
    · refine absurd sooner (asymm _ _ ?_)
      rcases List.mem_append.mp reached with passed | also
      · exact (List.pairwise_append.mp early).2.2 y passed x here
      · obtain ⟨z, rfl⟩ := List.length_eq_one_iff.mp
          (Nat.le_antisymm single (List.length_pos_of_mem here))
        obtain rfl := List.mem_singleton.mp here
        obtain rfl := List.mem_singleton.mp also
        exact sooner
  · exact absurd sooner (asymm _ _ (behind y reached x inRest))

end KeyedJobs

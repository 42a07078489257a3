import ApiDialect.Proofs.Members

/-! The order in which an object has its names. A name that is added goes to the end, and the last name
takes the place of one that is taken out, so the last name passes all those in between. -/

namespace ApiDialect

/-- What is done to the names of an object. A name that is sent back is taken out and comes again at the end. -/
inductive Move where
  | add (name : String)
  | takeOut (name : String)
  | sendBack (name : String)
  deriving DecidableEq

/-- The first of two names stands before the second. -/
def ahead (names : List String) (first second : String) : Bool :=
  names.idxOf first < names.idxOf second

/-- Names that are there before and after stand in the same order. -/
def InOrder (before after : List String) : Prop :=
  ∀ first ∈ before, first ∈ after → ∀ second ∈ before, second ∈ after →
    ahead after first second = ahead before first second

instance (before after : List String) : Decidable (InOrder before after) :=
  inferInstanceAs (Decidable (∀ first ∈ before, first ∈ after → ∀ second ∈ before, second ∈ after →
    ahead after first second = ahead before first second))

namespace Move

/-- The last name takes the place of the one that goes. -/
def remove : List String → String → List String
  | [], _ => []
  | other :: rest, gone =>
    if other = gone then
      match rest.getLast? with
      | none => []
      | some last => last :: rest.dropLast
    else other :: remove rest gone

def apply (names : List String) : Move → List String
  | .add name => if name ∈ names then names else names ++ [name]
  | .takeOut name => remove names name
  | .sendBack name => remove names name ++ [name]

def run (moves : List Move) (names : List String) : List String :=
  moves.foldl apply names

/-- One of the two names is the last, and the one that goes stands before the other. -/
def passes (names : List String) (gone first second : String) : Bool :=
  (names.getLast? = some first && ahead names gone second) || (names.getLast? = some second && ahead names gone first)

/-- Two names change places. -/
def crosses (names : List String) (first second : String) : Move → Bool
  | .add _ => false
  | .takeOut gone => passes names gone first second
  | .sendBack gone =>
    if first = gone then ahead names gone second
    else if second = gone then ahead names gone first
    else passes names gone first second

/-- How often two names change places. -/
def crossings : List Move → List String → String → String → Nat
  | [], _, _, _ => 0
  | move :: rest, names, first, second =>
    (move.crosses names first second).toNat + crossings rest (move.apply names) first second

/-- Every two names that are there before and after change places an even number of times. -/
def EvenlyCrossed (moves : List Move) (before after : List String) : Prop :=
  ∀ first ∈ before, first ∈ after → ∀ second ∈ before, second ∈ after → first ≠ second →
    crossings moves before first second % 2 = 0

instance (moves : List Move) (before after : List String) : Decidable (EvenlyCrossed moves before after) :=
  inferInstanceAs (Decidable (∀ first ∈ before, first ∈ after → ∀ second ∈ before, second ∈ after → first ≠ second →
    crossings moves before first second % 2 = 0))

def gone? : Move → Option String
  | .takeOut name => some name
  | _ => none

/-- No name that is taken out is brought back. -/
def Final (moves : List Move) : Prop :=
  ∀ name ∈ moves.filterMap gone?, .add name ∉ moves ∧ .sendBack name ∉ moves

instance (moves : List Move) : Decidable (Final moves) :=
  inferInstanceAs (Decidable (∀ name ∈ moves.filterMap gone?, .add name ∉ moves ∧ .sendBack name ∉ moves))

variable {names before : List String} {gone first second name : String} {moves others : List Move} {move : Move}

theorem mem_filterMap_gone? : name ∈ moves.filterMap gone? ↔ .takeOut name ∈ moves := by
  rw [List.mem_filterMap]
  constructor
  · rintro ⟨move, member, same⟩
    cases move <;> cases same
    exact member
  · intro member
    exact ⟨_, member, rfl⟩

theorem Final.mono (final : Final others) (inside : moves ⊆ others) : Final moves := by
  intro name gone
  obtain ⟨plain, other⟩ := final name (mem_filterMap_gone?.mpr (inside (mem_filterMap_gone?.mp gone)))
  exact ⟨fun member => plain (inside member), fun member => other (inside member)⟩

theorem remove_append (absent : gone ∉ before) (rest : List String) :
    remove (before ++ gone :: rest) gone = before ++ remove (gone :: rest) gone := by
  induction before with
  | nil => rfl
  | cons other others ih =>
    obtain ⟨different, absent⟩ := List.ne_and_not_mem_of_not_mem_cons absent
    rw [List.cons_append, remove, if_neg (Ne.symm different), ih absent, List.cons_append]

theorem remove_last (gone : String) : remove [gone] gone = [] := by
  simp [remove]

theorem remove_first (gone last : String) (between : List String) :
    remove (gone :: (between ++ [last])) gone = last :: between := by
  simp [remove]

theorem remove_of_notMem (absent : gone ∉ names) : remove names gone = names := by
  induction names with
  | nil => rfl
  | cons other others ih =>
    obtain ⟨different, absent⟩ := List.ne_and_not_mem_of_not_mem_cons absent
    rw [remove, if_neg (Ne.symm different), ih absent]

theorem remove_perm (inside : gone ∈ names) (distinct : names.Nodup) : names.Perm (gone :: remove names gone) := by
  obtain ⟨before, rest, rfl⟩ := List.append_of_mem inside
  have absent : gone ∉ before := fun member => (List.nodup_append.mp distinct).2.2 gone member gone List.mem_cons_self rfl
  rw [remove_append absent]
  apply List.perm_middle.trans
  apply List.Perm.cons
  apply List.Perm.append_left
  rcases List.eq_nil_or_concat rest with rfl | ⟨between, last, rfl⟩
  · rw [remove_last]
  · rw [List.concat_eq_append, remove_first]
    exact List.perm_append_singleton last between

theorem mem_remove_iff (distinct : names.Nodup) : name ∈ remove names gone ↔ name ∈ names ∧ name ≠ gone := by
  by_cases inside : gone ∈ names
  · have same := remove_perm inside distinct
    have single := (List.nodup_cons.mp (same.nodup_iff.mp distinct)).1
    rw [same.mem_iff, List.mem_cons]
    constructor
    · intro member
      exact ⟨Or.inr member, fun here => single (here ▸ member)⟩
    · rintro ⟨here | member, other⟩
      · exact absurd here other
      · exact member
  · rw [remove_of_notMem inside]
    constructor
    · intro member
      exact ⟨member, fun here => inside (here ▸ member)⟩
    · exact And.left

theorem nodup_remove (distinct : names.Nodup) (gone : String) : (remove names gone).Nodup := by
  by_cases inside : gone ∈ names
  · exact (List.nodup_cons.mp ((remove_perm inside distinct).nodup_iff.mp distinct)).2
  · rw [remove_of_notMem inside]
    exact distinct

/-- Every name but the last stays where it is. -/
theorem idxOf_remove (distinct : names.Nodup) (inside : name ∈ names) (other : name ≠ gone) (there : gone ∈ names) :
    (remove names gone).idxOf name = if names.getLast? = some name then names.idxOf gone else names.idxOf name := by
  obtain ⟨before, rest, rfl⟩ := List.append_of_mem there
  have absent : gone ∉ before := fun member => (List.nodup_append.mp distinct).2.2 gone member gone List.mem_cons_self rfl
  rw [remove_append absent]
  rcases List.eq_nil_or_concat rest with rfl | ⟨between, last, rfl⟩
  · have member : name ∈ before := by simpa [other] using inside
    have ends : (before ++ [gone]).getLast? ≠ some name := by simpa using Ne.symm other
    rw [remove_last, if_neg ends, List.append_nil, List.idxOf_append_of_mem member]
  · rw [List.concat_eq_append] at distinct inside ⊢
    rw [remove_first]
    have ends : (before ++ gone :: (between ++ [last])).getLast? = some last := by
      rw [← List.cons_append, ← List.append_assoc, List.getLast?_concat]
    rw [ends]
    by_cases same : last = name
    · subst same
      have outside : last ∉ before := by grind
      simp [List.idxOf_append_of_notMem, outside, absent]
    · rw [if_neg (by simpa using same)]
      by_cases member : name ∈ before
      · rw [List.idxOf_append_of_mem member, List.idxOf_append_of_mem member]
      · have among : name ∈ between := by grind
        rw [List.idxOf_append_of_notMem member, List.idxOf_append_of_notMem member, List.idxOf_cons_ne _ same,
          List.idxOf_cons_ne _ (Ne.symm other), List.idxOf_append_of_mem among]

theorem idxOf_lt_of_getLast? (ends : names.getLast? = some second) (distinct : names.Nodup) (inside : first ∈ names)
    (apart : first ≠ second) : names.idxOf first < names.idxOf second := by
  obtain ⟨before, rfl⟩ := List.getLast?_eq_some_iff.mp ends
  have member : first ∈ before := by simpa [apart] using inside
  have outside : second ∉ before := by grind
  rw [List.idxOf_append_of_mem member, List.idxOf_append_of_notMem outside]
  have bound := List.idxOf_lt_length_of_mem member
  omega

theorem ahead_of_notMem (absent : first ∉ names) : ahead names first second = false := by
  have bound := List.idxOf_le_length (a := second) (l := names)
  simp only [ahead, List.idxOf_eq_length absent]
  simp
  omega

/-- What stands before the other changes exactly when the last of the two passes the other. -/
theorem ahead_remove (distinct : names.Nodup) (one : first ∈ names) (other : second ∈ names) (apart : first ≠ second)
    (stays : first ≠ gone) (remains : second ≠ gone) :
    ahead (remove names gone) first second = (ahead names first second ^^ passes names gone first second) := by
  by_cases there : gone ∈ names
  · have places : names.idxOf first ≠ names.idxOf gone := by
      intro same
      exact stays ((List.idxOf_inj one).mp same)
    rw [ahead, idxOf_remove distinct one stays there, idxOf_remove distinct other remains there, passes, ahead, ahead, ahead]
    -- Only the last of the two moves, and it moves to where the removed name was.
    by_cases last : names.getLast? = some first
    · have single : names.getLast? ≠ some second := by simpa [last] using apart
      have behind : ¬ names.idxOf first < names.idxOf second :=
        Nat.lt_asymm (idxOf_lt_of_getLast? last distinct other (Ne.symm apart))
      rw [if_pos last, if_neg single, decide_eq_true last, decide_eq_false single, decide_eq_false behind]
      simp
    · by_cases final : names.getLast? = some second
      · have before : names.idxOf first < names.idxOf second := idxOf_lt_of_getLast? final distinct one apart
        have turned : decide (names.idxOf first < names.idxOf gone) = !decide (names.idxOf gone < names.idxOf first) := by
          rcases Nat.lt_or_gt_of_ne places with less | more
          · simp [less, Nat.lt_asymm less]
          · simp [more, Nat.lt_asymm more]
        rw [if_neg last, if_pos final, decide_eq_false last, decide_eq_true final, decide_eq_true before, turned]
        simp
      · rw [if_neg last, if_neg final, decide_eq_false last, decide_eq_false final]
        simp
  · rw [remove_of_notMem there, passes, ahead_of_notMem there, ahead_of_notMem there]
    simp

/-- A name that goes to the end stands behind all others. -/
theorem ahead_append_singleton (one : first ∈ names) (other : second ∈ names) :
    ahead (names ++ [name]) first second = ahead names first second := by
  rw [ahead, List.idxOf_append_of_mem one, List.idxOf_append_of_mem other, ahead]

theorem ahead_last (absent : name ∉ names) (inside : first ∈ names) :
    ahead (names ++ [name]) first name = true ∧ ahead (names ++ [name]) name first = false := by
  have bound := List.idxOf_lt_length_of_mem inside
  simp only [ahead, List.idxOf_append_of_mem inside, List.idxOf_append_of_notMem absent]
  simp
  omega

theorem ahead_swap (one : first ∈ names) (apart : first ≠ second) : ahead names second first = !ahead names first second := by
  have places : names.idxOf first ≠ names.idxOf second := by
    intro same
    exact apart ((List.idxOf_inj one).mp same)
  rcases Nat.lt_or_gt_of_ne places with less | more
  · simp [ahead, less, Nat.lt_asymm less]
  · simp [ahead, more, Nat.lt_asymm more]

theorem mem_apply (distinct : names.Nodup) (inside : name ∈ names) (stays : move ≠ .takeOut name) : name ∈ move.apply names := by
  cases move with
  | add other =>
    rw [apply]
    split
    · exact inside
    · exact List.mem_append_left _ inside
  | takeOut gone =>
    have other : name ≠ gone := fun same => stays (same ▸ rfl)
    exact (mem_remove_iff distinct).mpr ⟨inside, other⟩
  | sendBack gone =>
    by_cases same : name = gone
    · exact List.mem_append_right _ (List.mem_singleton.mpr same)
    · exact List.mem_append_left _ ((mem_remove_iff distinct).mpr ⟨inside, same⟩)

theorem nodup_apply (distinct : names.Nodup) (move : Move) : (move.apply names).Nodup := by
  cases move with
  | add name =>
    rw [apply]
    split
    next => exact distinct
    next absent =>
      rw [← List.concat_eq_append]
      exact distinct.concat absent
  | takeOut gone => exact nodup_remove distinct gone
  | sendBack gone =>
    have absent : gone ∉ remove names gone := fun member => ((mem_remove_iff distinct).mp member).2 rfl
    rw [apply, ← List.concat_eq_append]
    exact (nodup_remove distinct gone).concat absent

/-- One move: two names that stay change places exactly when the move crosses them. -/
theorem ahead_apply (distinct : names.Nodup) (one : first ∈ names) (other : second ∈ names) (apart : first ≠ second)
    (stays : move ≠ .takeOut first) (remains : move ≠ .takeOut second) :
    ahead (move.apply names) first second = (ahead names first second ^^ move.crosses names first second) := by
  cases move with
  | add name =>
    rw [apply, crosses, Bool.xor_false]
    split
    · rfl
    · exact ahead_append_singleton one other
  | takeOut gone =>
    apply ahead_remove distinct one other apart
    · exact fun same => stays (same ▸ rfl)
    · exact fun same => remains (same ▸ rfl)
  | sendBack gone =>
    have absent : gone ∉ remove names gone := fun member => ((mem_remove_iff distinct).mp member).2 rfl
    have kept {name : String} (inside : name ∈ names) (stays : name ≠ gone) : name ∈ remove names gone :=
      (mem_remove_iff distinct).mpr ⟨inside, stays⟩
    rw [apply, crosses]
    by_cases here : first = gone
    · subst here
      rw [if_pos rfl, (ahead_last absent (kept other (Ne.symm apart))).2, Bool.xor_self]
    · by_cases there : second = gone
      · subst there
        rw [if_neg here, if_pos rfl, (ahead_last absent (kept one apart)).1, ahead_swap one apart, Bool.xor_not_self]
      · rw [if_neg here, if_neg there, ahead_append_singleton (kept one here) (kept other there),
          ahead_remove distinct one other apart here there]

theorem run_cons (move : Move) (moves : List Move) (names : List String) :
    run (move :: moves) names = run moves (move.apply names) := rfl

theorem run_append (moves others : List Move) (names : List String) : run (moves ++ others) names = run others (run moves names) :=
  List.foldl_append

/-- A run: two names that stay have changed places as often as the moves have crossed them. -/
theorem ahead_run (distinct : names.Nodup) (one : first ∈ names) (other : second ∈ names) (apart : first ≠ second)
    (stays : .takeOut first ∉ moves) (remains : .takeOut second ∉ moves) :
    ahead (run moves names) first second = (ahead names first second ^^ decide (crossings moves names first second % 2 = 1)) := by
  induction moves generalizing names with
  | nil => rw [crossings]; exact (Bool.xor_false _).symm
  | cons move rest ih =>
    obtain ⟨stay, stays⟩ := List.ne_and_not_mem_of_not_mem_cons stays
    obtain ⟨remain, remains⟩ := List.ne_and_not_mem_of_not_mem_cons remains
    have later := ih (nodup_apply distinct move) (mem_apply distinct one (Ne.symm stay))
      (mem_apply distinct other (Ne.symm remain)) stays remains
    have now := ahead_apply distinct one other apart (Ne.symm stay) (Ne.symm remain)
    rw [run_cons, later, now, crossings, Bool.xor_assoc]
    congr 1
    cases move.crosses names first second with
    | false => simp
    | true =>
      rcases Nat.mod_two_eq_zero_or_one (crossings rest (move.apply names) first second) with even | odd
      · simp [Nat.add_mod, even]
      · simp [Nat.add_mod, odd]

theorem nodup_run (distinct : names.Nodup) (moves : List Move) : (run moves names).Nodup := by
  induction moves generalizing names with
  | nil => exact distinct
  | cons move rest ih => exact ih (nodup_apply distinct move)

theorem notMem_apply (distinct : names.Nodup) (absent : name ∉ names) (plain : move ≠ .add name) (other : move ≠ .sendBack name) :
    name ∉ move.apply names := by
  intro member
  cases move with
  | add added =>
    rw [apply] at member
    split at member
    next => exact absent member
    next =>
      rcases List.mem_append.mp member with before | last
      · exact absent before
      · exact plain (congrArg add (List.mem_singleton.mp last).symm)
  | takeOut gone => exact absent ((mem_remove_iff distinct).mp member).1
  | sendBack gone =>
    rcases List.mem_append.mp member with before | last
    · exact absent ((mem_remove_iff distinct).mp before).1
    · exact other (congrArg sendBack (List.mem_singleton.mp last).symm)

theorem notMem_run (distinct : names.Nodup) (absent : name ∉ names) (plain : .add name ∉ moves) (other : .sendBack name ∉ moves) :
    name ∉ run moves names := by
  induction moves generalizing names with
  | nil => exact absent
  | cons move rest ih =>
    obtain ⟨first, plain⟩ := List.ne_and_not_mem_of_not_mem_cons plain
    obtain ⟨second, other⟩ := List.ne_and_not_mem_of_not_mem_cons other
    exact ih (nodup_apply distinct move) (notMem_apply distinct absent (Ne.symm first) (Ne.symm second)) plain other

/-- What is taken out for good is not there at the end. -/
theorem notMem_run_of_takeOut (distinct : names.Nodup) (final : Final moves) (gone : .takeOut name ∈ moves) :
    name ∉ run moves names := by
  obtain ⟨plain, other⟩ := final name (mem_filterMap_gone?.mpr gone)
  obtain ⟨earlier, later, rfl⟩ := List.append_of_mem gone
  have single := nodup_run distinct earlier
  rw [run_append]
  apply notMem_run (nodup_remove single name)
  · exact fun member => ((mem_remove_iff single).mp member).2 rfl
  · exact fun member => plain (List.mem_append_right _ (List.mem_cons_of_mem _ member))
  · exact fun member => other (List.mem_append_right _ (List.mem_cons_of_mem _ member))

theorem mem_run (distinct : names.Nodup) (inside : name ∈ names) (stays : .takeOut name ∉ moves) : name ∈ run moves names := by
  induction moves generalizing names with
  | nil => exact inside
  | cons move rest ih =>
    obtain ⟨stay, stays⟩ := List.ne_and_not_mem_of_not_mem_cons stays
    exact ih (nodup_apply distinct move) (mem_apply distinct inside (Ne.symm stay)) stays

/-- Names that stay keep their order exactly when every two of them are crossed an even number of times.
What comes behind them makes no difference. -/
theorem inOrder_run_iff (distinct : names.Nodup) (final : Final moves) (tail : List String)
    (behind : ∀ name ∈ tail, .takeOut name ∉ moves) :
    InOrder names (run moves names ++ tail) ↔ EvenlyCrossed moves names (run moves names ++ tail) := by
  have stays {name : String} (member : name ∈ run moves names ++ tail) : .takeOut name ∉ moves := by
    rcases List.mem_append.mp member with run | last
    · exact fun gone => notMem_run_of_takeOut distinct final gone run
    · exact behind name last
  have order {first second : String} (one : first ∈ names) (still : first ∈ run moves names ++ tail) (other : second ∈ names)
      (remains : second ∈ run moves names ++ tail) (apart : first ≠ second) :
      ahead (run moves names ++ tail) first second =
        (ahead names first second ^^ decide (crossings moves names first second % 2 = 1)) := by
    rw [← ahead_run distinct one other apart (stays still) (stays remains), ahead, ahead,
      List.idxOf_append_of_mem (mem_run distinct one (stays still)), List.idxOf_append_of_mem (mem_run distinct other (stays remains))]
  constructor
  · intro kept first one still second other remains apart
    have same := kept first one still second other remains
    rw [order one still other remains apart] at same
    rcases Nat.mod_two_eq_zero_or_one (crossings moves names first second) with even | odd
    · exact even
    · rw [decide_eq_true odd, Bool.xor_true] at same
      exact absurd same (by simp)
  · intro even first one still second other remains
    by_cases same : first = second
    · subst same
      simp [ahead]
    · rw [order one still other remains same, even first one still second other remains same]
      simp

end Move
end ApiDialect

import ApiDialect.Schema
import Mathlib.Data.List.Forall2

/-! How rewritings run. A rewriting only adds to the queue and never looks at it, so whether it
fails and what it returns can be told without saying where it starts. -/

namespace ApiDialect

instance : Append Queue where
  append before added := ⟨before.tags ++ added.tags, before.warnings ++ added.warnings⟩

namespace Queue

@[simp] theorem append_empty (queue : Queue) : queue ++ empty = queue := by
  cases queue
  exact congrArg₂ Queue.mk (List.append_nil _) (List.append_nil _)

theorem append_assoc (first second third : Queue) :
    first ++ second ++ third = first ++ (second ++ third) :=
  congrArg₂ Queue.mk (List.append_assoc ..) (List.append_assoc ..)

end Queue

theorem bind_eq_ok {ε α β : Type} {first : Except ε α} {next : α → Except ε β} {result : β} :
    first >>= next = .ok result ↔ ∃ value, first = .ok value ∧ next value = .ok result := by
  cases first <;> simp [bind, Except.bind]

theorem map_eq_ok {ε α β : Type} {first : Except ε α} {change : α → β} {result : β} :
    change <$> first = .ok result ↔ ∃ value, first = .ok value ∧ result = change value := by
  cases first <;> simp [Functor.map, Except.map, eq_comm]

theorem pure_eq_ok {ε α : Type} {value result : α} :
    (pure value : Except ε α) = .ok result ↔ result = value := by
  simp [pure, Except.pure, eq_comm]

/-- Elements are mapped one by one, and all of them succeed. -/
theorem mapM_eq_ok {ε α β : Type} {change : α → Except ε β} {items : List α} {results : List β} :
    items.mapM change = .ok results ↔ List.Forall₂ (fun item result => change item = .ok result) items results := by
  induction items generalizing results with
  | nil => simp [pure_eq_ok]
  | cons item rest ih =>
    simp only [List.mapM_cons, bind_eq_ok, pure_eq_ok, ih, List.forall₂_cons_left_iff]
    constructor
    · rintro ⟨result, made, others, all, rfl⟩
      exact ⟨result, others, made, all, rfl⟩
    · rintro ⟨result, others, made, all, rfl⟩
      exact ⟨result, made, others, all, rfl⟩

/-- The cause of a failure, if it is one. -/
def cause? {ε α : Type} : Except ε α → Option ε
  | .ok _ => none
  | .error error => some error

theorem cause?_eq_some_iff {ε α : Type} {outcome : Except ε α} {error : ε} : cause? outcome = some error ↔ outcome = .error error := by
  cases outcome <;> simp [cause?]

theorem cause?_eq_none_iff {ε α : Type} {outcome : Except ε α} : cause? outcome = none ↔ ∃ result, outcome = .ok result := by
  cases outcome <;> simp [cause?]

/-- The first element that fails decides. -/
theorem cause?_mapM {ε α β : Type} (change : α → Except ε β) (items : List α) :
    cause? (items.mapM change) = items.findSome? fun item => cause? (change item) := by
  induction items with
  | nil => rfl
  | cons item rest ih =>
    rw [List.mapM_cons, List.findSome?_cons, ← ih]
    cases change item with
    | error cause => rfl
    | ok result => cases rest.mapM change <;> rfl

theorem option_mapM_eq_ok {ε α β : Type} {change : α → Except ε β} {item : Option α} {result : Option β} :
    item.mapM change = .ok result ↔
      (item = none ∧ result = none) ∨ ∃ held made, item = some held ∧ change held = .ok made ∧ result = some made := by
  cases item with
  | none => simp [pure_eq_ok]
  | some held => simp [map_eq_ok]

namespace Rewriting
variable {α β : Type}

theorem run_bind (first : Rewriting α) (next : α → Rewriting β) (before : Queue) :
    (first >>= next).run.run before =
      match first.run.run before with
      | (.ok value, after) => (next value).run.run after
      | (.error error, after) => (.error error, after) := by
  rw [ExceptT.run_bind, StateT.run_bind]
  change (match (first.run.run before).1 with | _ => _) = _
  rcases first.run.run before with ⟨_ | value, after⟩ <;> rfl

/-- Some run ends with the value. -/
def Returns (rewriting : Rewriting α) (value : α) : Prop :=
  ∃ before after, rewriting.run.run before = (.ok value, after)

theorem returns_pure {value result : α} : Returns (pure value) result ↔ result = value := by
  constructor
  · rintro ⟨before, after, ran⟩
    cases ran
    rfl
  · rintro rfl
    exact ⟨.empty, .empty, rfl⟩

theorem returns_lift {attempt : Except Error α} {result : α} :
    Returns (liftM attempt) result ↔ attempt = .ok result := by
  constructor
  · rintro ⟨before, after, ran⟩
    cases ran
    rfl
  · rintro rfl
    exact ⟨.empty, .empty, rfl⟩

theorem not_returns_throw {error : Error} {result : α} : ¬ Returns (throw error) result := by
  rintro ⟨before, after, ran⟩
  cases ran

theorem Returns.bind {first : Rewriting α} {next : α → Rewriting β} {result : β}
    (returned : Returns (first >>= next) result) :
    ∃ value, Returns first value ∧ Returns (next value) result := by
  obtain ⟨before, after, ran⟩ := returned
  rw [run_bind] at ran
  rcases seen : first.run.run before with ⟨error | value, middle⟩ <;> rw [seen] at ran
  · cases ran
  · exact ⟨value, ⟨before, middle, seen⟩, ⟨middle, after, ran⟩⟩

theorem Returns.mapM {change : α → Rewriting β} {items : List α} {results : List β}
    (returned : Returns (items.mapM change) results) :
    List.Forall₂ (fun item result => Returns (change item) result) items results := by
  induction items generalizing results with
  | nil =>
    cases returns_pure.mp returned
    exact .nil
  | cons item rest ih =>
    rw [List.mapM_cons] at returned
    obtain ⟨result, first, returned⟩ := returned.bind
    obtain ⟨others, last, returned⟩ := returned.bind
    cases returns_pure.mp returned
    exact .cons first (ih last)

theorem Returns.foldlM_cons {step : β → α → Rewriting β} {item : α} {rest : List α} {state result : β}
    (returned : Returns ((item :: rest).foldlM step state) result) :
    ∃ middle, Returns (step state item) middle ∧ Returns (rest.foldlM step middle) result := by
  rw [List.foldlM_cons] at returned
  exact returned.bind

/-- What every step keeps is kept by the whole fold. -/
theorem Returns.foldlM_keeps {step : β → α → Rewriting β} {items : List α} {state result : β} (kept : β → Prop)
    (keeps : ∀ state item next, item ∈ items → kept state → Returns (step state item) next → kept next)
    (returned : Returns (items.foldlM step state) result) (start : kept state) : kept result := by
  induction items generalizing state with
  | nil =>
    cases returns_pure.mp returned
    exact start
  | cons item rest ih =>
    obtain ⟨middle, first, last⟩ := returned.foldlM_cons
    exact ih (fun state item next member => keeps state item next (List.mem_cons_of_mem _ member)) last
      (keeps state item middle List.mem_cons_self start first)

/-- Queues that a rewriting may leave behind, one part after the other. -/
structure Closed (queues : Queue → Prop) : Prop where
  empty : queues .empty
  append : ∀ {first second}, queues first → queues second → queues (first ++ second)

/-- Both run alike from every queue, and what they add to it is allowed. -/
def Agrees (queues : Queue → Prop) (first second : Rewriting α) : Prop :=
  ∃ outcome added, queues added ∧ ∀ before,
    first.run.run before = (outcome, before ++ added) ∧ second.run.run before = (outcome, before ++ added)

variable {queues : Queue → Prop} {first second : Rewriting α}

theorem Agrees.pure (closed : Closed queues) (value : α) :
    Agrees queues (pure value : Rewriting α) (Pure.pure value) :=
  ⟨.ok value, .empty, closed.empty, fun before => by rw [Queue.append_empty]; exact ⟨rfl, rfl⟩⟩

theorem Agrees.lift (closed : Closed queues) {attempt other : Except Error α} (same : attempt = other) :
    Agrees queues (liftM attempt : Rewriting α) (liftM other) :=
  ⟨attempt, .empty, closed.empty, fun before => by rw [Queue.append_empty, same]; exact ⟨rfl, rfl⟩⟩

theorem Agrees.throw (closed : Closed queues) (error : Error) :
    Agrees queues (throw error : Rewriting α) (MonadExcept.throw error) :=
  ⟨.error error, .empty, closed.empty, fun before => by rw [Queue.append_empty]; exact ⟨rfl, rfl⟩⟩

/-- What comes next has to agree only on what the first part can return. -/
theorem Agrees.bind {next rest : α → Rewriting β} (closed : Closed queues) (agrees : Agrees queues first second)
    (following : ∀ value, Returns first value → Agrees queues (next value) (rest value)) :
    Agrees queues (first >>= next) (second >>= rest) := by
  obtain ⟨outcome, added, allowed, runs⟩ := agrees
  cases outcome with
  | error error =>
    refine ⟨.error error, added, allowed, fun before => ?_⟩
    rw [run_bind, run_bind, (runs before).1, (runs before).2]
    exact ⟨rfl, rfl⟩
  | ok value =>
    obtain ⟨last, more, permitted, goes⟩ := following value ⟨.empty, _, (runs .empty).1⟩
    refine ⟨last, added ++ more, closed.append allowed permitted, fun before => ?_⟩
    rw [run_bind, run_bind, (runs before).1, (runs before).2, ← Queue.append_assoc]
    exact goes _

theorem Agrees.run_eq (agrees : Agrees queues first second) (before : Queue) :
    first.run.run before = second.run.run before := by
  obtain ⟨outcome, added, _, runs⟩ := agrees
  exact (runs before).1.trans (runs before).2.symm

theorem Agrees.returns (agrees : Agrees queues first second) {value : α} (returned : Returns first value) :
    Returns second value := by
  obtain ⟨outcome, added, _, runs⟩ := agrees
  obtain ⟨before, after, ran⟩ := returned
  rw [(runs before).1] at ran
  cases ran
  exact ⟨before, _, (runs before).2⟩

theorem Agrees.returns_unique (agrees : Agrees queues first second) {value other : α} (one : Returns first value)
    (two : Returns second other) : value = other := by
  obtain ⟨outcome, added, _, runs⟩ := agrees
  obtain ⟨before, after, ran⟩ := one
  obtain ⟨start, stop, goes⟩ := two
  rw [(runs before).1] at ran
  rw [(runs start).2] at goes
  cases ran
  cases goes
  rfl

/-- The run that starts with nothing queued ends with the value, and nothing has been queued. -/
def Yields (rewriting : Rewriting α) (value : α) : Prop :=
  rewriting.run.run .empty = (.ok value, .empty)

theorem yields_pure (value : α) : Yields (pure value) value := rfl

theorem yields_lift {attempt : Except Error α} {value : α} (made : attempt = .ok value) : Yields (liftM attempt) value := by
  rw [made]
  rfl

theorem Yields.bind {next : α → Rewriting β} {value : α} {result : β} (one : Yields first value)
    (other : Yields (next value) result) : Yields (first >>= next) result := by
  unfold Yields at one ⊢
  rw [run_bind, one]
  exact other

theorem Yields.returns {value : α} (yields : Yields first value) : Returns first value := ⟨.empty, .empty, yields⟩

theorem closed_empty : Closed (· = .empty) where
  empty := rfl
  append := by
    rintro first second rfl rfl
    rfl

theorem Agrees.yields {value : α} (agrees : Agrees (· = .empty) first second) (returned : Returns first value) :
    Yields second value := by
  obtain ⟨outcome, added, rfl, runs⟩ := agrees
  obtain ⟨before, after, ran⟩ := returned
  rw [(runs before).1] at ran
  cases ran
  exact (runs .empty).2

theorem Agrees.modify {change : Queue → Queue} (added : Queue) (allowed : queues added)
    (adds : ∀ before, change before = before ++ added) :
    Agrees queues (modify change : Rewriting Unit) (MonadState.modifyGet fun before => ((), change before)) :=
  ⟨.ok (), added, allowed, fun before => by rw [← adds]; exact ⟨rfl, rfl⟩⟩

theorem Agrees.forM {step other : α → Rewriting Unit} (closed : Closed queues) {items : List α}
    (each : ∀ item ∈ items, Agrees queues (step item) (other item)) :
    Agrees queues (items.forM step) (items.forM other) := by
  induction items with
  | nil => exact .pure closed ()
  | cons item rest ih =>
    refine .bind closed (each item List.mem_cons_self) fun _ _ => ?_
    exact ih fun item member => each item (List.mem_cons_of_mem _ member)

theorem Agrees.mapM {change other : α → Rewriting β} (closed : Closed queues) {items : List α}
    (each : ∀ item ∈ items, Agrees queues (change item) (other item)) :
    Agrees queues (items.mapM change) (items.mapM other) := by
  induction items with
  | nil => exact .pure closed []
  | cons item rest ih =>
    rw [List.mapM_cons, List.mapM_cons]
    refine .bind closed (each item List.mem_cons_self) fun result _ => ?_
    refine .bind closed (ih fun item member => each item (List.mem_cons_of_mem _ member)) fun results _ => ?_
    exact .pure closed (result :: results)

end Rewriting
end ApiDialect

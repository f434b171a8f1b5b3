import TableScript.Proofs.Run.Passage
import TableScript.Proofs.Run.Released

namespace TableScript

/-! The depth inside a run.  Only entering a call goes deeper, and it is refused at
the limit; what has been entered is given back before the run goes on.  So no
state that a run passes through is deeper than the limit. -/

namespace Passage

open State

variable {α β : Type} {limit : Nat} {state : State} {run : Code → State → Passage String}

/-- A state from which a run stays within `limit`. -/
structure Ready (limit : Nat) (state : State) : Prop where
  framed : state.store.Framed
  bound : state.session.limit = limit
  depth : state.session.depth ≤ limit

theorem Ready.released {after : State} (ready : Ready limit state)
    (released : Released state after) : Ready limit after :=
  ⟨released.framed ready.framed, released.limit.trans ready.bound,
    by rw [released.depth]; exact ready.depth⟩

theorem Ready.object {index : String} {object : Store} (ready : Ready limit state)
    (found : state.store.object index = .ok object) : Ready limit ⟨object, state.session⟩ :=
  ⟨ready.framed.object found, ready.bound, ready.depth⟩

theorem Ready.enter {index : String} {session : Session} (ready : Ready limit state)
    (scope : Scope) (entered : state.session.enterCall index = .ok session) :
    Ready limit ⟨state.store.pushScope scope, session⟩ := by
  obtain ⟨room, deeper, same⟩ := Session.enterCall_ok entered
  refine ⟨ready.framed.pushScope scope, same.trans ready.bound, ?_⟩
  rw [deeper, ← ready.bound]
  exact room

/-- No point lies deeper than `limit`. -/
def Within (limit : Nat) (passage : Passage α) : Prop :=
  ∀ point ∈ passage.points, point.session.depth ≤ limit

/-- Lies within the limit, and ends so that what follows can. -/
structure Stays (limit : Nat) (passage : Passage α) : Prop where
  within : passage.Within limit
  ends : passage.outcome.Ends (Ready limit)

theorem within_last {outcome : Outcome α} (ends : outcome.Ends (Ready limit)) :
    ∀ point ∈ outcome.last, point.session.depth ≤ limit := by
  cases outcome with
  | done value after => exact List.forall_mem_singleton.mpr ends.depth
  | failed error after => exact List.forall_mem_singleton.mpr ends.depth
  | outOfFuel => exact List.forall_mem_nil _

theorem stays_only {outcome : Outcome α} (ends : outcome.Ends (Ready limit)) :
    (only outcome).Stays limit :=
  ⟨within_last ends, ends⟩

theorem Stays.starting {rest : Passage α} (stays : rest.Stays limit) (ready : Ready limit state) :
    (starting state rest).Stays limit :=
  ⟨List.forall_mem_cons.mpr ⟨ready.depth, stays.within⟩, stays.ends⟩

theorem Stays.andThen {first : Passage α} {next : α → State → Passage β}
    (stays : first.Stays limit)
    (continued : ∀ value after, Ready limit after → (next value after).Stays limit) :
    (first.andThen next).Stays limit := by
  obtain ⟨points, outcome, ended⟩ := first
  obtain ⟨within, ends⟩ := stays
  cases outcome with
  | done value after =>
      have rest := continued value after ends
      exact ⟨List.forall_mem_append.mpr ⟨within, rest.within⟩, rest.ends⟩
  | failed error after =>
      exact ⟨List.forall_mem_append.mpr ⟨within, List.forall_mem_nil _⟩, ends⟩
  | outOfFuel => exact ⟨List.forall_mem_append.mpr ⟨within, List.forall_mem_nil _⟩, ends⟩

theorem Stays.through {first : Passage α} {change : Outcome α → Outcome β}
    (stays : first.Stays limit) (ends : (change first.outcome).Ends (Ready limit)) :
    (first.through change).Stays limit :=
  ⟨List.forall_mem_append.mpr ⟨stays.within, within_last ends⟩, ends⟩

/-! Each part of the evaluator stays within the limit if the code inside it does. -/

section

variable
  (keeps : Run.Keeps (fun before after => before.store.Framed → Released before after)
    (outcomes run))
  (inside : ∀ code state, Ready limit state → (run code state).Stays limit)

include inside

theorem stays_integer (code : Code) (ready : Ready limit state) :
    (integer run code state).Stays limit :=
  (inside code state ready).andThen fun _ _ next => stays_only (Outcome.ends_ofRun _ next)

theorem stays_condition (code : Code) (ready : Ready limit state) :
    (condition run code state).Stays limit :=
  (inside code state ready).andThen fun _ _ next => stays_only (Outcome.ends_ofRun _ next)

theorem stays_values (codes : List Code) (ready : Ready limit state) :
    (values run codes state).Stays limit := by
  induction codes generalizing state with
  | nil => exact stays_only ready
  | cons code others continued =>
      apply (inside code state ready).andThen
      intro value middle next
      exact (continued next).andThen fun _ _ last => stays_only last

theorem stays_body (statements : List Code) (value : String) (ready : Ready limit state) :
    (body run statements value state).Stays limit := by
  induction statements generalizing value state with
  | nil => exact stays_only ready
  | cons code others continued =>
      exact (inside code state ready).andThen fun value _ next => continued value next

theorem stays_loop (test increment : Code) (statements : List Code) (turns : Nat)
    (value : String) (ready : Ready limit state) :
    (loop run test increment statements turns value state).Stays limit := by
  induction turns generalizing value state with
  | zero => exact stays_only trivial
  | succ turns continued =>
      apply (stays_condition inside test ready).andThen
      intro holds tested ready
      cases holds with
      | false => exact stays_only ready
      | true =>
          apply (stays_body inside statements value ready).andThen
          intro value ran ready
          exact (inside increment ran ready).andThen fun _ _ next => continued value next

theorem stays_callBuiltin (name : String) (arguments : List (Argument Code))
    (ready : Ready limit state) : (callBuiltin run name arguments state).Stays limit := by
  simp only [callBuiltin]
  cases Builtin.find name with
  | error fault => exact stays_only ready
  | ok builtin =>
      cases builtin with
      | size =>
          apply stays_only
          apply (Run.respects_released.size arguments state).imp
          exact fun _ released => ready.released (released ready.framed)
      | out =>
          cases arguments with
          | nil => exact stays_only ready
          | cons argument others =>
              cases argument with
              | reference index => exact stays_only ready
              | value code =>
                  apply (inside code state ready).andThen
                  intro text middle next
                  exact stays_only (next.released (.of_eq rfl rfl rfl rfl))

include keeps

/-- The only part that goes deeper.  It does so below the limit, and comes back. -/
theorem stays_call (routine : Routine) (arguments : List String) (ready : Ready limit state) :
    (call run routine arguments state).Stays limit := by
  simp only [call]
  split
  · exact stays_only ready
  · have noted : Ready limit (state.note (.called routine.index arguments)) :=
      ready.released (.of_eq rfl rfl rfl rfl)
    cases entered : (state.note (.called routine.index arguments)).session.enterCall
        routine.index with
    | error error => exact stays_only noted
    | ok session =>
        have inner := noted.enter (Run.scope routine.params arguments) entered
        apply ((stays_body inside routine.body "" inner).starting inner).through
        apply Run.Respects.leave
        rw [outcome_starting, outcome_body]
        apply (Run.respects_released.body keeps routine.body "" _).imp
        intro after released
        exact noted.released
          (Run.release_entered _ noted.framed entered (released inner.framed))

theorem stays_callEntry (index : String) (arguments : List String) (ready : Ready limit state) :
    (callEntry run index arguments state).Stays limit := by
  simp only [callEntry]
  cases state.store.function index with
  | error error => exact stays_only ready
  | ok routine => exact stays_call keeps inside routine arguments ready

theorem stays_callMethod (object function : String) (arguments : List String)
    (ready : Ready limit state) :
    (callMethod run object function arguments state).Stays limit := by
  have steps := Run.respects_released
  simp only [callMethod]
  cases found : state.store.object object with
  | error error => exact stays_only ready
  | ok inner =>
      apply (stays_callEntry keeps inside function arguments (ready.object found)).through
      apply Outcome.Ends.mapState
      rw [outcome_callEntry]
      apply (steps.callEntry keeps function arguments ⟨inner, state.session⟩).imp
      intro after released
      exact ready.released (steps.object found released ready.framed)

theorem stays_construct (turns : Nat) (code : Code) (ready : Ready limit state) :
    (construct run turns code state).Stays limit := by
  have steps := Run.respects_released
  cases code with
  | literal _ => exact stays_only ready
  | read _ | register _ | parameter _ => exact stays_only (Outcome.ends_ofExcept _ ready)
  | write _ code | setRegister _ code =>
      apply (inside code state ready).andThen
      intro value middle next
      exact stays_only (next.released (.of_eq rfl rfl rfl rfl))
  | element index key =>
      exact (inside key state ready).andThen fun _ _ next =>
        stays_only (Outcome.ends_ofExcept _ next)
  | append index code =>
      apply (inside code state ready).andThen
      intro value middle next
      cases appended : middle.append index value with
      | error error => exact stays_only next
      | ok after => exact stays_only (next.released (steps.append appended next.framed))
  | arithmetic op left right =>
      apply (stays_integer inside left ready).andThen
      intro m middle next
      exact (stays_integer inside right next).andThen fun _ _ last =>
        stays_only (Outcome.ends_ofRun _ last)
  | concat left right =>
      apply (inside left state ready).andThen
      intro first middle next
      exact (inside right middle next).andThen fun _ _ last => stays_only last
  | compare op left right =>
      apply (inside left state ready).andThen
      intro first middle next
      exact (inside right middle next).andThen fun _ _ last =>
        stays_only (Outcome.ends_ofRun _ last)
  | call callee arguments =>
      cases callee with
      | entry index =>
          exact (stays_values inside arguments ready).andThen fun values _ next =>
            stays_callEntry keeps inside index values next
      | method object function =>
          exact (stays_values inside arguments ready).andThen fun values _ next =>
            stays_callMethod keeps inside object function values next
  | builtin name arguments => exact stays_callBuiltin inside name arguments ready
  | branch test statements =>
      apply (stays_condition inside test ready).andThen
      intro holds tested ready
      cases holds with
      | false => exact stays_only ready
      | true => exact stays_body inside statements "" ready
  | loop test increment statements =>
      exact stays_loop inside test increment statements turns "" ready

end

theorem keeps_passage (fuel : Nat) :
    Run.Keeps (fun before after => before.store.Framed → Released before after)
      (outcomes (passage fuel)) := by
  rw [outcomes_passage]
  exact eval_keeps Run.respects_released fuel

/-- A run never passes through a depth above the limit. -/
theorem stays_passage (fuel : Nat) (code : Code) (ready : Ready limit state) :
    (passage fuel code state).Stays limit := by
  induction fuel generalizing code state with
  | zero => exact Stays.starting (stays_only trivial) ready
  | succ fuel inside =>
      have parts : ∀ code state, Ready limit state → (passage fuel code state).Stays limit :=
        fun code _ => inside code
      exact (stays_construct (keeps_passage fuel) parts fuel code ready).starting ready

end Passage

end TableScript

import TableScript.Proofs.Run.Evaluation

namespace TableScript

open Number

/-! Loops.  A loop that comes to an end is a sequence of turns, each of which runs the
body once.  If a register counts up to a bound and the body leaves it alone, there is
one turn for every number below the bound. -/

/-- One run of the body of a loop: the states before and after it, and its value. -/
structure Turn where
  start : State
  value : String
  finish : State

namespace Turn

/-- The value of the last turn, or `value` if there is none. -/
def lastValue (turns : List Turn) (value : String) : String :=
  (turns.getLast?.map Turn.value).getD value

theorem lastValue_cons (turn : Turn) (turns : List Turn) (value : String) :
    lastValue (turn :: turns) value = lastValue turns turn.value := by
  rw [lastValue, lastValue, List.getLast?_cons, Option.getD_map]
  rfl

end Turn

namespace Code

/-! ### The turns of a loop -/

/-- A loop takes turns from a state to another one.  The condition is true before each
of them, the increment follows each of them, and at last the condition is false. -/
inductive Turns (test increment : Code) (body : List Code) : State → List Turn → State → Prop where
  | stop {state after : State} (tested : test.Evaluates state (.ok "false") after) :
      Turns test increment body state [] after
  | turn {state start finish next after : State} {value increased : String} {others : List Turn}
      (tested : test.Evaluates state (.ok "true") start)
      (ran : Runs body start (.ok value) finish)
      (stepped : increment.Evaluates finish (.ok increased) next)
      (rest : Turns test increment body next others after) :
      Turns test increment body state (⟨start, value, finish⟩ :: others) after

variable {test increment : Code} {body : List Code} {turns others : List Turn}
  {state after last : State} {value carried : String}

theorem Turns.unique (taken : Turns test increment body state turns after)
    (again : Turns test increment body state others last) : turns = others ∧ after = last := by
  induction taken generalizing others last with
  | stop tested =>
      cases again with
      | stop tested' => exact ⟨rfl, (tested.unique tested').2⟩
      | turn tested' => exact absurd (tested.unique tested').1 (by decide)
  | turn tested ran stepped _ continued =>
      cases again with
      | stop tested' => exact absurd (tested.unique tested').1 (by decide)
      | turn tested' ran' stepped' rest' =>
          obtain ⟨_, rfl⟩ := tested.unique tested'
          obtain ⟨same, rfl⟩ := ran.unique ran'
          obtain ⟨_, rfl⟩ := stepped.unique stepped'
          cases same
          obtain ⟨rfl, rfl⟩ := continued rest'
          exact ⟨rfl, rfl⟩

/-! The loop itself counts its turns down and hands the value on from turn to turn.
An empty body has nothing to put in its place, but then the value is empty anyway. -/

theorem body_carried (run : Evaluator) (empty : body = [] → carried = "") (state : State) :
    Run.body run body carried state = Run.body run body "" state := by
  cases body with
  | nil => rw [empty rfl]
  | cons code others => rfl

theorem Runs.value_of_nil (ran : Runs body state (.ok value) after) (empty : body = []) :
    value = "" := by
  subst empty
  have nothing : Runs [] state (.ok "") state := .of_ended fun _ => rfl
  cases (ran.unique nothing).1
  rfl

theorem Turns.loop_done (taken : Turns test increment body state turns after)
    (empty : body = [] → carried = "") :
    ∃ enough, ∀ fuel count, enough ≤ fuel → enough ≤ count →
      Run.loop (eval fuel) test increment body count carried state =
        .done (Turn.lastValue turns carried) after := by
  induction taken generalizing carried with
  | stop tested =>
      obtain ⟨enough, tests⟩ := tested.condition.eventually_done
      refine ⟨enough + 1, fun fuel count more many => ?_⟩
      obtain ⟨less, rfl⟩ : ∃ less, count = less + 1 := ⟨count - 1, by omega⟩
      simp only [Run.loop, tests fuel (by omega), Outcome.andThen]
      rfl
  | turn tested ran stepped _ continued =>
      obtain ⟨enoughTest, tests⟩ := tested.condition.eventually_done
      obtain ⟨enoughBody, runs⟩ := ran.eventually_done
      obtain ⟨enoughStep, steps⟩ := stepped.eventually_done
      obtain ⟨enoughRest, rests⟩ := continued ran.value_of_nil
      refine ⟨enoughTest + enoughBody + enoughStep + enoughRest + 1, fun fuel count more many => ?_⟩
      obtain ⟨less, rfl⟩ : ∃ less, count = less + 1 := ⟨count - 1, by omega⟩
      simp only [Run.loop, tests fuel (by omega), Outcome.andThen, if_true, body_carried _ empty,
        runs fuel (by omega), steps fuel (by omega), Turn.lastValue_cons]
      exact rests fuel less (by omega) (by omega)

theorem exists_turns_of_loop {fuel count : Nat} (empty : body = [] → carried = "")
    (done : Run.loop (eval fuel) test increment body count carried state = .done value after) :
    ∃ turns, Turns test increment body state turns after ∧
      value = Turn.lastValue turns carried := by
  induction count generalizing carried state with
  | zero => cases done
  | succ count continued =>
      obtain ⟨holds, start, tests, done⟩ := Outcome.andThen_eq_done done
      obtain ⟨text, reached, read⟩ := Run.condition_eq_done tests
      have tested := evaluates_of_ended (Outcome.ended?_eq_ok_iff.mpr reached)
      rw [Value.eq_ofBool_of_truth read] at tested
      cases holds with
      | false =>
          cases done
          exact ⟨[], .stop tested, rfl⟩
      | true =>
          obtain ⟨given, finish, runs, done⟩ := Outcome.andThen_eq_done done
          obtain ⟨increased, next, steps, done⟩ := Outcome.andThen_eq_done done
          rw [body_carried _ empty] at runs
          have ran := runs_of_ended (Outcome.ended?_eq_ok_iff.mpr runs)
          have stepped := evaluates_of_ended (Outcome.ended?_eq_ok_iff.mpr steps)
          obtain ⟨others, rest, same⟩ := continued (Runs.value_of_nil ran) done
          exact ⟨_, .turn tested ran stepped rest, by rw [same, Turn.lastValue_cons]⟩

/-- A loop evaluates to a value if and only if it takes turns of which that is the last
value. -/
theorem evaluates_loop_iff :
    (Code.loop test increment body).Evaluates state (.ok value) after ↔
      ∃ turns, Turns test increment body state turns after ∧ value = Turn.lastValue turns "" := by
  constructor
  · intro evaluated
    obtain ⟨enough, done⟩ := evaluated.eventually_done
    exact exists_turns_of_loop (fun _ => rfl) (done (enough + 1) (Nat.le_succ enough))
  · intro counted
    obtain ⟨turns, taken, rfl⟩ := counted
    obtain ⟨enough, done⟩ := taken.loop_done fun _ => rfl
    have settled : Settles (fun fuel => Run.loop (eval fuel) test increment body fuel "" state)
        (.ok (Turn.lastValue turns "")) after :=
      ⟨enough, fun fuel more => Outcome.ended?_eq_ok_iff.mpr (done fuel fuel more more)⟩
    exact settled.succ fun _ => rfl

end Code

/-! ### Loops that count -/

namespace Counter

/-- Whether the register is below a bound. -/
def test (register : String) (bound : Int) : Code :=
  .compare .less (.register register) (.literal (write bound))

def increase (register : String) : Code :=
  .setRegister register (.arithmetic .add (.register register) (.literal "1"))

/-- Sets a register to a first number and runs statements for as long as it is below a
bound, with 1 added to it after every run. -/
def loop (register : String) (first bound : Int) (body : List Code) : List Code :=
  [.setRegister register (.literal (write first)),
    .loop (test register bound) (increase register) body]

/-- Whenever the register holds a number, the statements come to an end with a value, and
the register holds the same number again. -/
def Kept (register : String) (body : List Code) : Prop :=
  ∀ (state : State) (n : Int), Fits n → state.store.register register = .ok (write n) →
    ∃ value after, Code.Runs body state (.ok value) after ∧
      after.store.register register = .ok (write n)

variable {register : String} {bound n : Int} {body : List Code} {state : State}

theorem evaluates_test (held : state.store.register register = .ok (write n)) (fits : Fits n)
    (bounded : Fits bound) :
    (test register bound).Evaluates state (.ok (Value.ofBool (decide (n < bound)))) state := by
  have current := Code.evaluates_register register state
  rw [held] at current
  have compared := current.compare .less (Code.evaluates_literal (write bound) state)
  rwa [Comparison.holds_eq_ok .less nofun (Value.integer_write fits)
    (Value.integer_write bounded)] at compared

theorem evaluates_increase (held : state.store.register register = .ok (write n)) (fits : Fits n)
    (increased : Fits (n + 1)) :
    (increase register).Evaluates state (.ok (write (n + 1)))
      (state.setRegister register (write (n + 1))) := by
  have current := Code.evaluates_register register state
  rw [held] at current
  have read := Value.integer_write fits
  have one : Value.integer "1" = .ok 1 := rfl
  have sum : Arithmetic.add.apply n 1 = .ok (n + 1) :=
    (Arithmetic.apply_eq_ok_iff fits).mpr ⟨increased, rfl⟩
  obtain ⟨_, added, same⟩ := current.arithmetic .add (Code.evaluates_literal "1" state)
  cases same n read
  rw [Arithmetic.compute_of_integers read one, sum] at added
  exact added.setRegister register

/-- The turns that are left when the register has come up to a number. -/
theorem Kept.exists_turns (kept : Kept register body) (bounded : Fits bound)
    (fits : Fits n) (held : state.store.register register = .ok (write n)) :
    ∃ turns after, Code.Turns (test register bound) (increase register) body state turns after ∧
      turns.map (fun turn => turn.start.store.register register) =
        (List.range (bound - n).toNat).map (fun i => .ok (write (n + i))) ∧
      after.store.register register = .ok (write (max n bound)) := by
  -- The induction is on how far the register is from the bound.
  generalize distance : (bound - n).toNat = left
  induction left generalizing n state with
  | zero =>
      have tested := evaluates_test held fits bounded
      rw [decide_eq_false (by omega)] at tested
      refine ⟨[], state, .stop tested, rfl, ?_⟩
      rw [held, Int.max_eq_left (by omega)]
  | succ left continued =>
      have tested := evaluates_test held fits bounded
      rw [decide_eq_true (by omega)] at tested
      obtain ⟨value, finish, ran, holds⟩ := kept state n fits held
      -- The next number is at most the bound, so that it fits, too.
      have increased : Fits (n + 1) := by
        unfold Fits at *
        omega
      have stepped := evaluates_increase holds fits increased
      obtain ⟨others, after, rest, counted, reached⟩ :=
        continued increased (State.register_setRegister _ _ _) (by omega)
      refine ⟨⟨state, value, finish⟩ :: others, after, .turn tested ran stepped rest, ?_, ?_⟩
      · rw [List.range_succ_eq_map, List.map_cons, List.map_cons, List.map_map, counted, held]
        simp [Function.comp_def, Int.add_assoc, Int.add_comm 1]
      · rw [reached]
        congr 2
        omega

/-- Writing the register to the output leaves it as it was. -/
theorem kept_out (register : String) :
    Kept register [.builtin "out" [.value (.register register)]] := by
  intro state n fits held
  have current := Code.evaluates_register register state
  rw [held] at current
  have printed : (Code.builtin "out" [.value (.register register)]).Evaluates state (.ok "")
      (state.write (write n)) :=
    .succ (Settles.andThen current (.of_ended fun _ => rfl)) fun _ => rfl
  exact ⟨"", _, Settles.andThen printed (.of_ended fun _ => rfl), held⟩

end Counter

/-- A loop that counts a register up from a first number to a bound comes to an end,
whatever else its body does, if this leaves the register as it was.  The body is run once
for every number from the first one up to the last one below the bound, in this order and
with that number in the register; then the register holds the greater one of first number
and bound, and the value is that of the last run. -/
theorem counted_loop_exact {register : String} {first bound : Int} {body : List Code}
    (fits : Number.Fits first) (bounded : Number.Fits bound)
    (kept : Counter.Kept register body) (state : State) :
    ∃ turns value after,
      Code.Runs (Counter.loop register first bound body) state (.ok value) after ∧
      (∀ others last,
        Code.Turns (Counter.test register bound) (Counter.increase register) body
          (state.setRegister register (write first)) others last ↔
        others = turns ∧ last = after) ∧
      (turns.length : Int) = max 0 (bound - first) ∧
      turns.map (fun turn => turn.start.store.register register) =
        (List.range (bound - first).toNat).map (fun i => .ok (write (first + i))) ∧
      after.store.register register = .ok (write (max first bound)) ∧
      value = Turn.lastValue turns "" := by
  obtain ⟨turns, after, taken, counted, reached⟩ :=
    kept.exists_turns bounded fits (state.register_setRegister register (write first))
  have started := (Code.evaluates_literal (write first) state).setRegister register
  have looped := Code.evaluates_loop_iff.mpr ⟨turns, taken, rfl⟩
  refine ⟨turns, _, after, Code.runs_pair started looped, ?_, ?_, counted, reached, rfl⟩
  · intro others last
    constructor
    · exact fun again => again.unique taken
    · intro same
      obtain ⟨rfl, rfl⟩ := same
      exact taken
  · have length := congrArg List.length counted
    rw [List.length_map, List.length_map, List.length_range] at length
    omega

/-- Up to the greatest number there is, which the register then holds. -/
theorem counted_loop_exact_greatest :
    Code.ofExprs
        [.setRegister "i" (.literal "9223372036854775805"),
          .loop (.compare .less (.register "i") (.literal "9223372036854775807"))
            (.setRegister "i" (.arithmetic .add (.register "i") (.literal "1")))
            [.builtin "out" [.register "i"]]] =
      .ok (Counter.loop "i" (greatest - 2) greatest [.builtin "out" [.value (.register "i")]]) ∧
    Counter.Kept "i" [.builtin "out" [.value (.register "i")]] ∧
    ∃ turns value after,
      Code.Runs
        (Counter.loop "i" (greatest - 2) greatest [.builtin "out" [.value (.register "i")]])
        (.fresh 0) (.ok value) after ∧
      Code.Turns (Counter.test "i" greatest) (Counter.increase "i")
        [.builtin "out" [.value (.register "i")]]
        ((State.fresh 0).setRegister "i" "9223372036854775805") turns after ∧
      turns.map (fun turn => turn.start.store.register "i") =
        [.ok "9223372036854775805", .ok "9223372036854775806"] ∧
      after.store.register "i" = .ok "9223372036854775807" ∧
      value = Turn.lastValue turns "" := by
  have kept := Counter.kept_out "i"
  refine ⟨rfl, kept, ?_⟩
  obtain ⟨turns, value, after, ran, taken, _, counted, reached, last⟩ :=
    counted_loop_exact (by decide : Fits (greatest - 2)) (by decide : Fits greatest) kept
      (.fresh 0)
  exact ⟨turns, value, after, ran, (taken turns after).mpr ⟨rfl, rfl⟩, counted, reached, last⟩

end TableScript

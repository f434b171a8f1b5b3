import TableScript.Proofs.Program.Stages
import TableScript.Proofs.Run.Calls

namespace TableScript

open Number

/-! A recursive program at the limit of the depth.  Its function adds up the numbers down
from its argument, and all its calls use one register; each of them sets it anew and uses
it only after the calls it makes itself.  The depth that is needed is known exactly, and a
call that exceeds it leaves nothing behind that a later call could notice. -/

theorem Table.insertEntry_idem {α : Type} (key : String) (first second : α)
    (entries : List (String × α)) :
    insertEntry key second (insertEntry key first entries) = insertEntry key second entries := by
  induction entries with
  | nil => simp [insertEntry]
  | cons entry others continued =>
      obtain ⟨other, held⟩ := entry
      by_cases same : key = other
      · simp [insertEntry, same]
      · simp [insertEntry, same, continued]

/-- Of two values under one key, the later one is left. -/
theorem Table.insert_insert {α : Type} (table : Table α) (key : String) (first second : α) :
    (table.insert key first).insert key second = table.insert key second :=
  congrArg Table.mk (insertEntry_idem key first second table.entries)

theorem Layout.lines_intercalate {lines : List String}
    (single : ∀ line ∈ lines, '\n' ∉ line.toList) (given : lines ≠ []) :
    Layout.lines ("\n".intercalate lines).toList = lines.map fun line => Text.trim line.toList := by
  rw [Layout.lines, String.toList_intercalate]
  have split : (List.intercalate ['\n'] (lines.map String.toList)).splitOn '\n' =
      lines.map String.toList :=
    List.splitOn_intercalate '\n' (by simpa using single) (by simpa using given)
  change (List.splitOn '\n' (List.intercalate ['\n'] _)).map Text.trim = _
  rw [split, List.map_map]
  rfl

/-- The entry function is called like any other one if it has a parameter for each of its
arguments. -/
theorem Program.settles_callEntry {program : Program} {routine : Routine}
    {arguments : List String} {result : Except Error String} {after : State}
    (found : program.state.store.function program.settings.entry = .ok routine)
    (fits : arguments.length ≤ routine.params.length)
    (returned : routine.Returns arguments program.state result after) :
    Settles (fun fuel => program.callEntry fuel arguments) result after := by
  have noSurplus : arguments.length - routine.params.length = 0 := Nat.sub_eq_zero_of_le fits
  simp only [callEntry, found, noSurplus, if_true, List.take_of_length_le fits]
  exact returned

namespace RecursiveSum

/-! ### The program -/

/-- Adds up the numbers down from its argument.  Each call puts what it has so far into the
register `0`. -/
def source : String :=
  "\n".intercalate
    ["",
      "    [",
      "    1 => ($n) \x7b",
      "    [here][0] = 0",
      "    if $n > 0",
      "    [here][0] = $n + [1]($n - 1)",
      "",
      "    [here][0]",
      "    \x7d",
      "    666 => ($n) \x7b",
      "    [1]($n)",
      "    \x7d",
      "    ]",
      ""]

theorem result_read_source :
    (Layout.read source.toList).result =
      .ok [.function "1" 3
          ⟨["n"], ["[here][0] = 0", "if $n > 0", "[here][0] = $n + [1]($n - 1)", "", "[here][0]"],
            3⟩,
        .function "666" 10 ⟨["n"], ["[1]($n)"], 10⟩] := by
  rw [Layout.read, source, Layout.lines_intercalate (by decide) (by decide)]
  rfl

def condition : Code := .compare .greater (.parameter "n") (.literal "0")

/-- The call with the number before the argument. -/
def recursion : Code :=
  .call (.entry "1") [.arithmetic .subtract (.parameter "n") (.literal "1")]

def addition : Code := .setRegister "0" (.arithmetic .add (.parameter "n") recursion)

def sum : Routine :=
  ⟨"1", ["n"],
    [.setRegister "0" (.literal "0"), .branch condition [addition], .register "0"]⟩

def entry : Routine := ⟨"666", ["n"], [.call (.entry "1") [.parameter "n"]]⟩

/-- The program under a limit of the depth, before any call. -/
def program (limit : Nat) : Program :=
  ⟨⟨"666", limit⟩, ⟨(Store.fresh.setFunction "1" sum).setFunction "666" entry, .fresh limit⟩⟩

section

open Phrase

theorem readLine_reset :
    readLine "[here][0] = 0".toList = .ok (.assign (.register "0") (.literal "0")) :=
  read_eq_ok_iff.mpr (.assign rfl (.leaf rfl))

theorem readLine_branch :
    readLine "if $n > 0".toList =
      .ok (.ifHeader (.compare .greater (.parameter "n") (.literal "0"))) := by
  have clause : read "$n > 0".toList =
      .ok (.compare .greater (.parameter "n") (.literal "0")) :=
    read_eq_ok_iff.mpr (.compare rfl (.leaf rfl) (.leaf rfl))
  change (readClause "$n > 0".toList >>= _) = _
  rw [readClause, clause]
  rfl

theorem readLine_addition :
    readLine "[here][0] = $n + [1]($n - 1)".toList =
      .ok (.assign (.register "0") (.arithmetic .add (.parameter "n")
        (.call (.entry "1") [.arithmetic .subtract (.parameter "n") (.literal "1")]))) :=
  read_eq_ok_iff.mpr (.assign rfl (.arithmetic rfl (.leaf rfl)
    (.call rfl (.cons (.arithmetic rfl (.leaf rfl) (.leaf rfl)) .nil))))

theorem readLine_register : readLine "[here][0]".toList = .ok (.register "0") :=
  read_eq_ok_iff.mpr (.leaf rfl)

theorem readLine_call :
    readLine "[1]($n)".toList = .ok (.call (.entry "1") [.parameter "n"]) :=
  read_eq_ok_iff.mpr (.call rfl (.cons (.leaf rfl) .nil))

theorem result_compile_source (limit : Nat) :
    (Program.compile { Settings.default with maxCallDepth := limit } source).result =
      .ok (program limit) := by
  have blank : readLine "".toList = .ok .close := rfl
  rw [Program.result_compile, result_read_source]
  change ((Declaration.parseAll _).result >>= _) = _
  simp only [Declaration.parseAll, Declaration.parse, FunctionTree.ofText, Logged.result_bind,
    Logged.result_within, result_readLines, List.mapM_cons, List.mapM_nil, readLine_reset,
    readLine_branch, readLine_addition, blank, readLine_register, readLine_call]
  rfl

end

/-! ### One call of the function -/

def triangle (n : Nat) : Nat := n * (n + 1) / 2

theorem triangle_succ (n : Nat) : triangle (n + 1) = triangle n + (n + 1) := by
  have doubled : (n + 1) * (n + 1 + 1) = n * (n + 1) + 2 * (n + 1) := by ring
  rw [triangle, triangle, doubled, Nat.add_mul_div_left _ _ (by decide)]

theorem fits_of_le {m n : Nat} (fits : Fits n) (less : m ≤ n) : Fits m := by
  unfold Fits least greatest at *
  omega

variable {state after : State} {n : Nat} {value : String} {result : Except Error String}

/-- The state in a call of the function, once its register is set. -/
def begun (state : State) (n : Nat) : State :=
  (state.inCall sum [write n]).setRegister "0" "0"

theorem evaluates_parameter_begun (state : State) (n : Nat) :
    (Code.parameter "n").Evaluates (begun state n) (.ok (write n)) (begun state n) :=
  Code.evaluates_parameter "n" (begun state n)

theorem evaluates_condition (state : State) (fits : Fits n) :
    condition.Evaluates (begun state n) (.ok (Value.ofBool (decide (0 < n)))) (begun state n) := by
  have zero : Value.integer "0" = .ok 0 := rfl
  have compared :=
    (evaluates_parameter_begun state n).compare .greater (Code.evaluates_literal "0" _)
  rw [Comparison.holds_eq_ok .greater nofun (Value.integer_write fits) zero] at compared
  have same : decide (Comparison.greater.Orders n 0) = decide (0 < n) :=
    decide_eq_decide.mpr Int.natCast_pos
  rwa [same] at compared

/-- The call inside a call gives what it returns for the number before. -/
theorem evaluates_recursion (known : state.store.function "1" = .ok sum)
    (fits : Fits (n + 1 : Nat))
    (returned : sum.Returns [write n] (begun state (n + 1)) result after) :
    recursion.Evaluates (begun state (n + 1)) result after := by
  have one : Value.integer "1" = .ok 1 := rfl
  have difference : (n : Int) = (n + 1 : Nat) - 1 := by omega
  have defined : Arithmetic.subtract.Defined (n + 1 : Nat) 1 := by
    show Fits ((n + 1 : Nat) - 1)
    rw [← difference]
    exact fits_of_le fits (Nat.le_succ n)
  have previous := (evaluates_parameter_begun state (n + 1)).arithmetic_exact
    (Value.integer_write fits) (Code.evaluates_literal "1" _) one defined difference
  exact Code.evaluates_call previous.values_singleton known returned

/-- If the call inside returns a number, the argument is added to it. -/
theorem evaluates_addition {m : Nat} (fits : Fits (m + (n + 1) : Nat))
    (evaluated : recursion.Evaluates (begun state (n + 1)) (.ok (write m)) after) :
    addition.Evaluates (begun state (n + 1)) (.ok (write (m + (n + 1) : Nat)))
      (after.setRegister "0" (write (m + (n + 1) : Nat))) := by
  have fitsLeft : Fits (n + 1 : Nat) := fits_of_le fits (Nat.le_add_left _ _)
  have fitsRight : Fits m := fits_of_le fits (Nat.le_add_right _ _)
  have total : ((m + (n + 1) : Nat) : Int) = (n + 1 : Nat) + m := by omega
  have defined : Arithmetic.add.Defined (n + 1 : Nat) m := by
    show Fits ((n + 1 : Nat) + m)
    rwa [← total]
  have added := (evaluates_parameter_begun state (n + 1)).arithmetic_exact
    (Value.integer_write fitsLeft) evaluated (Value.integer_write fitsRight) defined total
  exact added.setRegister "0"

/-- A call gives what is in the register after the branch. -/
theorem runs_sum
    (branched : (Code.branch condition [addition]).Evaluates (begun state n) (.ok value) after)
    {held : String} (reached : after.store.register "0" = .ok held) :
    Code.Runs sum.body (state.inCall sum [write n]) (.ok held) after := by
  have reset := (Code.evaluates_literal "0" (state.inCall sum [write n])).setRegister "0"
  have returned := Code.evaluates_register "0" after
  rw [reached] at returned
  exact reset.runs_cons (branched.runs_cons returned.runs_singleton)

theorem runs_sum_error {error : Error}
    (branched : (Code.branch condition [addition]).Evaluates (begun state n) (.error error)
      after) :
    Code.Runs sum.body (state.inCall sum [write n]) (.error error) after := by
  have reset := (Code.evaluates_literal "0" (state.inCall sum [write n])).setRegister "0"
  exact reset.runs_cons (branched.runs_error _)

/-! ### All calls of the function -/

theorem fits_of_triangle_succ (fits : Fits (triangle (n + 1))) :
    Fits (triangle n) ∧ Fits (n + 1 : Nat) := by
  rw [triangle_succ] at fits
  exact ⟨fits_of_le fits (Nat.le_add_right _ _), fits_of_le fits (Nat.le_add_left _ _)⟩

/-- As long as there is room for all calls, the sum is returned.  The register holds it
then, too, whatever the calls inside have put there. -/
theorem returns_sum (known : state.store.function "1" = .ok sum)
    (stacked : state.store.scopes ≠ []) (fits : Fits (triangle n))
    (room : state.session.depth + n < state.session.limit) :
    ∃ journal, sum.Returns [write n] state (.ok (write (triangle n)))
      (state.withRegisters (state.store.registers.insert "0" (write (triangle n))) journal) := by
  induction n generalizing state with
  | zero =>
      have tested := evaluates_condition state fits
      have ran := runs_sum tested.branch_false (State.register_setRegister _ "0" "0")
      exact ⟨_, Routine.returns_of_runs (Nat.le_refl 1) room stacked ran⟩
  | succ n continued =>
      obtain ⟨fitsLess, fitsArgument⟩ := fits_of_triangle_succ fits
      have inside :
          (begun state (n + 1)).session.depth + n < (begun state (n + 1)).session.limit := by
        show state.session.depth + 1 + n < state.session.limit
        omega
      obtain ⟨_, returned⟩ :=
        @continued (begun state (n + 1)) known (List.cons_ne_nil _ _) fitsLess inside
      have tested := evaluates_condition state fitsArgument
      rw [triangle_succ] at fits ⊢
      have added := evaluates_addition fits (evaluates_recursion known fitsArgument returned)
      have ran := runs_sum (tested.branch_true added.runs_singleton)
        (State.register_setRegister _ "0" _)
      -- The register has held 0, then the sum of the call inside, and holds the whole sum now.
      have whole : ∃ journal, sum.Returns [write (n + 1 : Nat)] state _
          (state.withRegisters (((state.store.registers.insert "0" "0").insert "0"
            (write (triangle n))).insert "0" _) journal) :=
        ⟨_, Routine.returns_of_runs (Nat.le_refl 1) (by omega) stacked ran⟩
      rwa [Table.insert_insert, Table.insert_insert] at whole

/-- What a call that comes to the limit leaves in the registers. -/
def spoiled (state : State) : Table String :=
  if state.session.depth < state.session.limit then state.store.registers.insert "0" "0"
  else state.store.registers

theorem spoiled_begun (room : state.session.depth < state.session.limit) (n : Nat) :
    spoiled (begun state n) = spoiled state := by
  have reset : (begun state n).store.registers = state.store.registers.insert "0" "0" := rfl
  rw [spoiled, spoiled, if_pos room, reset, Table.insert_insert, ite_self]

/-- At the limit, the call is refused. -/
theorem returns_sum_full (full : state.session.limit ≤ state.session.depth) (n : Nat) :
    ∃ journal, sum.Returns [write n] state
      (.error (.runtime (.depthExceeded state.session.limit "1")))
      (state.withRegisters (spoiled state) journal) := by
  have fits : [write n].length ≤ sum.params.length := Nat.le_refl 1
  rw [spoiled, if_neg (Nat.not_lt.mpr full)]
  exact ⟨_, Routine.returns_full fits full⟩

/-- If there is no room for all calls, the last of them is refused, and every call that
waits for it fails in the same way. -/
theorem returns_sum_beyond (known : state.store.function "1" = .ok sum)
    (stacked : state.store.scopes ≠ []) (fits : Fits (triangle n))
    (beyond : state.session.limit ≤ state.session.depth + n) :
    ∃ journal, sum.Returns [write n] state
      (.error (.runtime (.depthExceeded state.session.limit "1")))
      (state.withRegisters (spoiled state) journal) := by
  induction n generalizing state with
  | zero => exact returns_sum_full beyond 0
  | succ n continued =>
      -- The call itself may be the one that is refused; if not, one inside it is.
      obtain room | full := Nat.lt_or_ge state.session.depth state.session.limit
      · obtain ⟨fitsLess, fitsArgument⟩ := fits_of_triangle_succ fits
        have inside :
            (begun state (n + 1)).session.limit ≤ (begun state (n + 1)).session.depth + n := by
          show state.session.limit ≤ state.session.depth + 1 + n
          omega
        obtain ⟨journal, returned⟩ :=
          @continued (begun state (n + 1)) known (List.cons_ne_nil _ _) fitsLess inside
        rw [spoiled_begun room] at returned
        have tested := evaluates_condition state fitsArgument
        have failed := (evaluates_parameter_begun state (n + 1)).arithmetic_error .add
          (Value.integer_write fitsArgument) (evaluates_recursion known fitsArgument returned)
        have ran := runs_sum_error
          (tested.branch_true ((failed.setRegister_error "0").runs_error []))
        exact ⟨journal, Routine.returns_of_runs (Nat.le_refl 1) room stacked ran⟩
      · exact returns_sum_full full (n + 1)

/-! ### Calls of the entry function -/

/-- The sum, or else the error for the first call that is refused. -/
def outcome (limit n : Nat) : Except Error String :=
  if n + 2 ≤ limit then .ok (write (triangle n))
  else .error (.runtime (.depthExceeded limit (if limit = 0 then "666" else "1")))

/-- The registers after a call of the entry function. -/
def registersAfter (limit n : Nat) (registers : Table String) : Table String :=
  if 2 ≤ limit then registers.insert "0" (if n + 2 ≤ limit then write (triangle n) else "0")
  else registers

/-- Earlier calls make no difference to the registers that are left. -/
theorem registersAfter_registersAfter (limit m n : Nat) (registers : Table String) :
    registersAfter limit m (registersAfter limit n registers) =
      registersAfter limit m registers := by
  by_cases deep : 2 ≤ limit
  · rw [registersAfter, registersAfter, registersAfter, if_pos deep, if_pos deep, if_pos deep,
      Table.insert_insert]
  · rw [registersAfter, registersAfter, registersAfter, if_neg deep, if_neg deep, if_neg deep]

/-- The program after calls, which leave registers and a journal behind. -/
def later (limit : Nat) (registers : Table String) (journal : Journal) : Program :=
  { program limit with state := (program limit).state.withRegisters registers journal }

variable {limit : Nat} {registers : Table String} {journal : Journal}

/-- The state in a call of the entry function. -/
def entered (limit n : Nat) (registers : Table String) (journal : Journal) : State :=
  (later limit registers journal).state.inCall entry [write n]

theorem function_entered (limit n : Nat) (registers : Table String) (journal : Journal) :
    (entered limit n registers journal).store.function "1" = .ok sum := rfl

/-- The entry function gives what the other function does. -/
theorem returns_entry {reached : Table String} {record : Journal} (room : 0 < limit)
    (returned : sum.Returns [write n] (entered limit n registers journal) result
      ((entered limit n registers journal).withRegisters reached record)) :
    entry.Returns [write n] (later limit registers journal).state result
      ((later limit registers journal).state.withRegisters reached record) := by
  have given : (Code.parameter "n").Evaluates (entered limit n registers journal)
      (.ok (write n)) (entered limit n registers journal) := Code.evaluates_parameter "n" _
  have called := Code.evaluates_call given.values_singleton
    (function_entered limit n registers journal) returned
  exact Routine.returns_of_runs (Nat.le_refl 1) room (List.cons_ne_nil _ _) called.runs_singleton

/-- A call of the entry function, after any earlier calls. -/
theorem settles_later (fits : Fits (triangle n)) (limit : Nat) (registers : Table String)
    (journal : Journal) :
    ∃ record, Settles (fun fuel => (later limit registers journal).callEntry fuel [write n])
      (outcome limit n) (later limit (registersAfter limit n registers) record).state := by
  have known := function_entered limit n registers journal
  have stacked : (entered limit n registers journal).store.scopes ≠ [] := List.cons_ne_nil _ _
  have found : (later limit registers journal).state.store.function
      (later limit registers journal).settings.entry = .ok entry := rfl
  suffices ∃ record, entry.Returns [write n] (later limit registers journal).state
      (outcome limit n) (later limit (registersAfter limit n registers) record).state by
    obtain ⟨record, returned⟩ := this
    exact ⟨record, Program.settles_callEntry found (Nat.le_refl 1) returned⟩
  unfold outcome registersAfter
  by_cases room : n + 2 ≤ limit
  · rw [if_pos room, if_pos room, if_pos (by omega)]
    have inside : 1 + n < limit := by omega
    obtain ⟨record, returned⟩ := returns_sum known stacked fits inside
    exact ⟨record, returns_entry (by omega) returned⟩
  · rw [if_neg room, if_neg room]
    cases limit with
    | zero => exact ⟨_, Routine.returns_full (Nat.le_refl 1) (Nat.le_refl 0)⟩
    | succ less =>
        have beyond : less + 1 ≤ 1 + n := by omega
        obtain ⟨record, returned⟩ := returns_sum_beyond known stacked fits beyond
        rw [if_neg (Nat.succ_ne_zero less)]
        exact ⟨record, returns_entry (Nat.succ_pos less) returned⟩

end RecursiveSum

/-- The limit of the depth is exact.  Under any limit, the recursive program is compiled, and
called with a number of which the sum fits, it comes to an end: with the sum, if the limit is
at least two above the number, and else with the error that names the limit.  Either way, the
next call with such a number has the same result, and leaves the same but for the journal,
as if it were the first one. -/
theorem depth_limit_exact (limit : Nat) {n : Nat} (fits : n * (n + 1) / 2 < 2 ^ 63) :
    ∃ program result after,
      (Program.compile { Settings.default with maxCallDepth := limit }
        RecursiveSum.source).result = .ok program ∧
      Settles (fun fuel => program.callEntry fuel [write n]) result after ∧
      (n + 2 ≤ limit → result = .ok (write (n * (n + 1) / 2 : Nat))) ∧
      (limit < n + 2 →
        result = .error (.runtime (.depthExceeded limit (if limit = 0 then "666" else "1")))) ∧
      (∀ error, result = .error error → ∃ index : String, error.message =
        s!"Runtime Error: Maximum call depth of {limit} exceeded calling [{index}]") ∧
      ∀ m : Nat, m * (m + 1) / 2 < 2 ^ 63 → ∃ next last first,
        Settles (fun fuel => { program with state := after }.callEntry fuel [write m]) next last ∧
        Settles (fun fuel => program.callEntry fuel [write m]) next first ∧
        last.store = first.store ∧
        last.session = { first.session with journal := last.session.journal } := by
  have fitsSum (k : Nat) (bounded : k * (k + 1) / 2 < 2 ^ 63) :
      Fits (RecursiveSum.triangle k) := by
    unfold Fits least greatest RecursiveSum.triangle
    omega
  obtain ⟨record, settled⟩ :=
    RecursiveSum.settles_later (fitsSum n fits) limit .empty #[]
  refine ⟨RecursiveSum.program limit, RecursiveSum.outcome limit n, _,
    RecursiveSum.result_compile_source limit, settled, ?_, ?_, ?_, ?_⟩
  · intro room
    exact if_pos room
  · intro beyond
    exact if_neg (Nat.not_le.mpr beyond)
  · intro error failed
    unfold RecursiveSum.outcome at failed
    split at failed
    · cases failed
    · cases failed
      exact ⟨_, rfl⟩
  · intro m bounded
    obtain ⟨_, again⟩ := RecursiveSum.settles_later (fitsSum m bounded) limit
      (RecursiveSum.registersAfter limit n .empty) record
    obtain ⟨_, fresh⟩ := RecursiveSum.settles_later (fitsSum m bounded) limit .empty #[]
    rw [RecursiveSum.registersAfter_registersAfter] at again
    exact ⟨_, _, _, again, fresh, rfl, rfl⟩

/-- Under a limit of 3 levels the numbers up to 1 can be added up.  After a call with 5, which
fails, a call with 1 succeeds as it does at first. -/
theorem depth_limit_exact_failed :
    5 * (5 + 1) / 2 < 2 ^ 63 ∧ 1 * (1 + 1) / 2 < 2 ^ 63 ∧
    ∃ program after last,
      (Program.compile { Settings.default with maxCallDepth := 3 } RecursiveSum.source).result =
        .ok program ∧
      Settles (fun fuel => program.callEntry fuel ["5"])
        (.error (.runtime (.depthExceeded 3 "1"))) after ∧
      Settles (fun fuel => { program with state := after }.callEntry fuel ["1"]) (.ok "1")
        last := by
  have large : 5 * (5 + 1) / 2 < 2 ^ 63 := by decide
  have small : 1 * (1 + 1) / 2 < 2 ^ 63 := by decide
  obtain ⟨program, _, after, compiled, failed, _, refused, _, continued⟩ :=
    depth_limit_exact 3 large
  cases refused (by decide)
  obtain ⟨_, _, _, again, succeeded, summed, _⟩ := depth_limit_exact 3 small
  cases summed (by decide)
  cases compiled.symm.trans again
  obtain ⟨_, last, _, settled, fresh, _⟩ := continued 1 small
  cases (fresh.unique succeeded).1
  exact ⟨large, small, program, after, last, compiled, failed, settled⟩

end TableScript

import TableScript.Proofs.Phrase.Grammar

namespace TableScript

/-! Work that may fail, and work on a list from left to right that stops at the
first failure. -/

section

variable {ε α β : Type} {work : α → Except ε β}

theorem bind_eq_error {first : Except ε α} {next : α → Except ε β} {error : ε}
    (failed : first >>= next = .error error) :
    first = .error error ∨ ∃ value, first = .ok value ∧ next value = .error error := by
  cases first with
  | error fault =>
      cases failed
      exact .inl rfl
  | ok value => exact .inr ⟨value, rfl, failed⟩

/-- If the work fails, then for an error that is `allowed`. -/
def FailsOnly (allowed : ε → Prop) (attempt : Except ε α) : Prop :=
  ∀ error, attempt = .error error → allowed error

namespace FailsOnly

variable {allowed : ε → Prop}

theorem ok (value : α) : FailsOnly allowed (.ok value) := by
  intro error failed
  cases failed

theorem error {error : ε} (here : allowed error) :
    FailsOnly allowed (.error error : Except ε α) := by
  intro other failed
  cases failed
  exact here

theorem bind {first : Except ε α} {next : α → Except ε β} (here : FailsOnly allowed first)
    (later : ∀ value, FailsOnly allowed (next value)) : FailsOnly allowed (first >>= next) := by
  intro error failed
  obtain failed | ⟨value, _, failed⟩ := bind_eq_error failed
  · exact here error failed
  · exact later value error failed

end FailsOnly

theorem map_eq_ok {change : α → β} {result : Except ε α} {value : β}
    (done : result.map change = .ok value) :
    ∃ start, result = .ok start ∧ value = change start := by
  cases result with
  | error error => cases done
  | ok start =>
      cases done
      exact ⟨start, rfl, rfl⟩

theorem map_eq_error {change : α → β} {result : Except ε α} {error : ε}
    (failed : result.map change = .error error) : result = .error error := by
  cases result with
  | error cause =>
      cases failed
      rfl
  | ok value => cases failed

theorem mapError_eq_ok {δ : Type} {change : ε → δ} {result : Except ε α} {value : α}
    (done : result.mapError change = .ok value) : result = .ok value := by
  cases result with
  | error error => cases done
  | ok other =>
      cases done
      rfl

theorem mapError_eq_error {δ : Type} {change : ε → δ} {result : Except ε α} {error : δ}
    (failed : result.mapError change = .error error) :
    ∃ cause, result = .error cause ∧ error = change cause := by
  cases result with
  | error cause =>
      cases failed
      exact ⟨cause, rfl, rfl⟩
  | ok value => cases failed

/-- The work fails on `failing`, and on no element before it. -/
def FirstFailure (work : α → Except ε β) (all : List α) (failing : α) (error : ε) : Prop :=
  ∃ before after, all = before ++ failing :: after ∧
    (∀ earlier ∈ before, ∃ value, work earlier = .ok value) ∧ work failing = .error error

theorem FirstFailure.mem {all : List α} {failing : α} {error : ε}
    (first : FirstFailure work all failing error) : failing ∈ all := by
  obtain ⟨before, after, split, _, _⟩ := first
  rw [split]
  exact List.mem_append_right before List.mem_cons_self

theorem FirstFailure.failed {all : List α} {failing : α} {error : ε}
    (first : FirstFailure work all failing error) : work failing = .error error := by
  obtain ⟨_, _, _, _, failed⟩ := first
  exact failed

theorem firstFailure_of_mapM {all : List α} {error : ε} (failed : all.mapM work = .error error) :
    ∃ failing, FirstFailure work all failing error := by
  induction all with
  | nil => cases failed
  | cons first others continued =>
      rw [List.mapM_cons] at failed
      obtain here | ⟨value, done, failed⟩ := bind_eq_error failed
      · exact ⟨first, [], others, rfl, List.forall_mem_nil _, here⟩
      · obtain later | ⟨_, _, impossible⟩ := bind_eq_error failed
        · obtain ⟨failing, before, after, split, clear, there⟩ := continued later
          refine ⟨failing, first :: before, after, by rw [split, List.cons_append], ?_, there⟩
          exact List.forall_mem_cons.mpr ⟨⟨value, done⟩, clear⟩
        · cases impossible

theorem mapM_eq_error_iff {all : List α} {error : ε} :
    all.mapM work = .error error ↔ ∃ failing, FirstFailure work all failing error := by
  refine ⟨firstFailure_of_mapM, ?_⟩
  rintro ⟨failing, before, after, rfl, clear, failed⟩
  induction before with
  | nil =>
      rw [List.nil_append, List.mapM_cons, failed]
      rfl
  | cons first others continued =>
      rw [List.forall_mem_cons] at clear
      obtain ⟨⟨value, done⟩, clear⟩ := clear
      rw [List.cons_append, List.mapM_cons, done, continued clear]
      rfl

/-- The work is done for every element, and the results are in their order. -/
theorem mapM_eq_ok_iff {all : List α} {results : List β} :
    all.mapM work = .ok results ↔ all.map work = results.map .ok := by
  induction all generalizing results with
  | nil =>
      cases results with
      | nil => exact ⟨fun _ => rfl, fun _ => rfl⟩
      | cons result later => exact ⟨nofun, nofun⟩
  | cons first others continued =>
      rw [List.mapM_cons, List.map_cons]
      constructor
      · intro done
        obtain ⟨value, here, done⟩ := bind_eq_ok done
        obtain ⟨rest, later, same⟩ := bind_eq_ok done
        cases same
        rw [here, continued.mp later, List.map_cons]
      · intro done
        obtain ⟨value, rest, rfl, here, later⟩ := List.map_eq_cons_iff.mp done.symm
        rw [← here, continued.mpr later.symm]
        rfl

theorem exists_of_mapM {all : List α} {results : List β} (done : all.mapM work = .ok results) :
    (∀ item ∈ all, ∃ result, work item = .ok result) ∧
      ∀ result ∈ results, ∃ item ∈ all, work item = .ok result := by
  induction all generalizing results with
  | nil =>
      cases done
      exact ⟨List.forall_mem_nil _, List.forall_mem_nil _⟩
  | cons first others continued =>
      rw [List.mapM_cons] at done
      obtain ⟨value, here, done⟩ := bind_eq_ok done
      obtain ⟨rest, later, same⟩ := bind_eq_ok done
      cases same
      obtain ⟨all, every⟩ := continued later
      refine ⟨List.forall_mem_cons.mpr ⟨⟨value, here⟩, all⟩, ?_⟩
      refine List.forall_mem_cons.mpr ⟨⟨first, List.mem_cons_self, here⟩, ?_⟩
      intro result member
      obtain ⟨item, inside, found⟩ := every result member
      exact ⟨item, List.mem_cons_of_mem first inside, found⟩

/-- Two passes over a list, of which the first is done, fail where one pass of
both works does. -/
theorem mapM_bind {γ : Type} {all : List α} {results : List β} {next : β → Except ε γ}
    (done : all.mapM work = .ok results) :
    (all.mapM fun item => work item >>= next) = results.mapM next := by
  induction all generalizing results with
  | nil =>
      cases done
      rfl
  | cons first others continued =>
      rw [List.mapM_cons] at done
      obtain ⟨value, here, done⟩ := bind_eq_ok done
      obtain ⟨rest, later, same⟩ := bind_eq_ok done
      cases same
      rw [List.mapM_cons, List.mapM_cons, here, continued later]
      rfl

end

end TableScript

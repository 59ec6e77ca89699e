namespace Concordance

variable {ε σ α β : Type}

/-- What follows an action goes on with what the action has left. -/
theorem bind_of_ok {first : EStateM ε σ α} {next : α → EStateM ε σ β} {state rest : σ} {value : α}
    (head : first state = .ok value rest) : (first >>= next) state = next value rest := by
  change EStateM.bind first next state = _
  rw [EStateM.bind, head]

/-- A sequence that gives a result has gone through each of its parts. -/
theorem ok_of_bind {first : EStateM ε σ α} {next : α → EStateM ε σ β} {state rest : σ} {result : β}
    (whole : (first >>= next) state = .ok result rest) :
    ∃ value left, first state = .ok value left ∧ next value left = .ok result rest := by
  change EStateM.bind first next state = _ at whole
  rw [EStateM.bind] at whole
  split at whole
  next value left head => exact ⟨value, left, head, whole⟩
  next => cases whole

/-- A sequence fails at once where its first part fails. -/
theorem bind_of_error {first : EStateM ε σ α} {next : α → EStateM ε σ β} {state left : σ}
    {fault : ε} (head : first state = .error fault left) : (first >>= next) state = .error fault left := by
  change EStateM.bind first next state = _
  rw [EStateM.bind, head]

/-- A sequence that fails does so in its first part or after it. -/
theorem error_of_bind {first : EStateM ε σ α} {next : α → EStateM ε σ β} {state last : σ}
    {fault : ε} (whole : (first >>= next) state = .error fault last) :
    first state = .error fault last ∨
      ∃ value left, first state = .ok value left ∧ next value left = .error fault last := by
  change EStateM.bind first next state = _ at whole
  rw [EStateM.bind] at whole
  split at whole
  next value left head => exact .inr ⟨value, left, head, whole⟩
  next fault left head =>
    cases whole
    exact .inl head

/-- The state that an action leaves, whether it fails or not. -/
def stateAfter (action : EStateM ε σ α) (state : σ) : σ :=
  match action state with
  | .ok _ left => left
  | .error _ left => left

/-- An action that succeeds leaves what it has made. -/
theorem stateAfter_of_ok {action : EStateM ε σ α} {state left : σ} {value : α}
    (whole : action state = .ok value left) : stateAfter action state = left := by
  unfold stateAfter
  rw [whole]

theorem stateAfter_of_error {action : EStateM ε σ α} {state left : σ} {fault : ε}
    (failed : action state = .error fault left) : stateAfter action state = left := by
  unfold stateAfter
  rw [failed]

/-- A sequence leaves what its second part leaves where the first succeeds. -/
theorem stateAfter_bind_of_ok {first : EStateM ε σ α} {next : α → EStateM ε σ β} {state left : σ}
    {value : α} (head : first state = .ok value left) :
    stateAfter (first >>= next) state = stateAfter (next value) left := by
  unfold stateAfter
  rw [bind_of_ok head]

/-- A sequence leaves what its first part leaves where that fails. -/
theorem stateAfter_bind_of_error {first : EStateM ε σ α} {next : α → EStateM ε σ β} {state left : σ}
    {fault : ε} (head : first state = .error fault left) :
    stateAfter (first >>= next) state = left :=
  stateAfter_of_error (bind_of_error head)

end Concordance

import ClientRegistry.Journal

/-! When chained operations succeed. A chain succeeds exactly when each of its links does; what
the links logged plays no part in it. -/

namespace ClientRegistry

variable {α β : Type}

theorem except_bind_eq_ok {x : Except Fault α} {f : α → Except Fault β} {b : β} :
    x >>= f = .ok b ↔ ∃ a, x = .ok a ∧ f a = .ok b := by
  cases x with
  | ok a => simp [bind, Except.bind]
  | error e => simp [bind, Except.bind]

theorem except_map_eq_ok {x : Except Fault α} {f : α → β} {b : β} :
    x.map f = .ok b ↔ ∃ a, x = .ok a ∧ f a = b := by
  cases x with
  | ok a => simp [Except.map]
  | error e => simp [Except.map]

theorem except_eq_ok_of_toOption {x : Except Fault α} {a : α} (found : x.toOption = some a) :
    x = .ok a := by
  cases x <;> cases found
  rfl

namespace Outcome

@[simp] theorem pure_result (a : α) : (pure a : Outcome α).result = .ok a := rfl

@[simp] theorem ok_result (a : α) : (ok a).result = .ok a := rfl

@[simp] theorem fail_result (e : Fault) : (fail e : Outcome α).result = .error e := rfl

@[simp] theorem reject_result (r : LogRecord) (e : Fault) :
    (reject r e : Outcome α).result = .error e := rfl

@[simp] theorem record_result (r : LogRecord) : (record r).result = .ok () := rfl

@[simp] theorem ofExcept_result (r : Except Fault α) : (ofExcept r).result = r := rfl

/-- What the links logged does not reach the result. -/
theorem bind_result (x : Outcome α) (f : α → Outcome β) :
    (x >>= f).result = x.result >>= fun a => (f a).result := by
  obtain ⟨result, log⟩ := x
  cases result <;> rfl

theorem bind_eq_ok {x : Outcome α} {f : α → Outcome β} {b : β} :
    (x >>= f).result = .ok b ↔ ∃ a, x.result = .ok a ∧ (f a).result = .ok b := by
  obtain ⟨result, log⟩ := x
  cases result with
  | ok a => simp [bind, andThen]
  | error e => simp [bind, andThen]

/-- A link without a value only has to succeed. -/
theorem bind_unit_eq_ok {x : Outcome Unit} {f : Unit → Outcome β} {b : β} :
    (x >>= f).result = .ok b ↔ x.result = .ok () ∧ (f ()).result = .ok b := by
  rw [bind_eq_ok]
  constructor
  · rintro ⟨_, first, rest⟩
    exact ⟨first, rest⟩
  · rintro ⟨first, rest⟩
    exact ⟨(), first, rest⟩

/-- What a chain logs is logged by its links, the later ones as far as the earlier succeed. -/
theorem mem_log_bind {x : Outcome α} {f : α → Outcome β} {r : LogRecord} :
    r ∈ (x >>= f).log ↔ r ∈ x.log ∨ ∃ a, x.result = .ok a ∧ r ∈ (f a).log := by
  obtain ⟨result, log⟩ := x
  cases result with
  | ok a => simp [bind, andThen]
  | error e => simp [bind, andThen]

end Outcome

end ClientRegistry

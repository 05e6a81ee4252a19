import ClientRegistry.Proofs.Outcome
import ClientRegistry.Proofs.Snapshot.Validation
import ClientRegistry.Row

/-! What the secret bears on. Checks, builds, exports and imports of a client take its secret along
and do nothing else with it: with another secret they have the same outcome, with that secret in it,
and log the same records. The printed forms leave the secret out. -/

namespace ClientRegistry

theorem except_bind_map {ε α β γ : Type} (x : Except ε α) (g : α → Except ε β) (f : β → γ) :
    (x >>= g).map f = x >>= fun a => (g a).map f := by
  cases x <;> rfl

/-- The same outcome with another result. -/
def Outcome.map {α β : Type} (f : α → β) (x : Outcome α) : Outcome β := ⟨x.result.map f, x.log⟩

namespace Outcome

variable {α β γ : Type}

theorem map_bind (f : α → β) (x : Outcome α) (g : β → Outcome γ) :
    x.map f >>= g = x >>= fun a => g (f a) := by
  obtain ⟨result, log⟩ := x
  cases result <;> rfl

theorem bind_map (x : Outcome α) (g : α → Outcome β) (f : β → γ) :
    (x >>= g).map f = x >>= fun a => (g a).map f := by
  obtain ⟨result, log⟩ := x
  cases result <;> rfl

theorem ofExcept_map (x : Except Fault α) (f : α → β) : ofExcept (x.map f) = (ofExcept x).map f :=
  rfl

theorem pure_map (a : α) (f : α → β) : (pure a : Outcome α).map f = pure (f a) := rfl

end Outcome

/-- What is given for a secret: a text, or nothing. -/
def Value.IsSecret : Value → Prop
  | .null => True
  | .text _ => True
  | _ => False

/-- The fields with another secret. -/
def Fields.withSecret (f : Fields) (v : Value) : Fields := { f with secret := v }

def Client.withSecret (c : Client) (v : Value) : Client := { c with secret := v }

def Draft.withSecret (d : Draft) (v : Value) : Draft := { d with secret := v }

def Snapshot.withSecret (s : Snapshot) (o : Option String) : Snapshot := { s with secret := o }

namespace Client

theorem shape_withSecret (f : Fields) (v : Value) :
    shape (f.withSecret v) = (shape f).map fun c => c.withSecret v := by
  simp only [shape, except_bind_map]
  rfl

theorem make_withSecret (f : Fields) (v : Value) :
    make (f.withSecret v) = (make f).map fun c => c.withSecret v := by
  simp only [make, shape_withSecret, Outcome.ofExcept_map, Outcome.map_bind, Outcome.bind_map,
    Outcome.pure_map]
  -- the checks do not look at the secret
  rfl

theorem printed_withSecret (c : Client) (v : Value) : (c.withSecret v).printed = c.printed := rfl

end Client

namespace Draft

variable {d : Draft} {v : Value}

theorem build_withSecret (d : Draft) (v : Value) :
    (d.withSecret v).build = d.build.map fun c => c.withSecret v := by
  have missing : (d.withSecret v).missingField? = d.missingField? := rfl
  simp only [build, missing]
  cases d.missingField? with
  | some field => rfl
  | none =>
      have complete : ∀ a b, (d.withSecret v).complete a b = (d.complete a b).withSecret v :=
        fun _ _ => rfl
      simp only [complete, Client.make_withSecret, Outcome.map_bind, Outcome.bind_map,
        Outcome.pure_map]
      rfl

/-- A call that does not assign the secret leaves it as it is. -/
theorem apply_withSecret {call : Call} (other : ∀ x, call ≠ .assign .secret x) (d : Draft)
    (v : Value) : (d.withSecret v).apply call =
      ((d.apply call).1.withSecret v, (d.apply call).2) := by
  cases call with
  | assign field x =>
      cases field with
      | secret => exact absurd rfl (other x)
      | id =>
          simp only [apply, assign]
          cases x.truthy <;> rfl
      | _ => rfl
  | add field x =>
      simp only [apply, add]
      cases x.hashable <;> cases field <;> rfl
  | edit field edits => cases field <;> rfl

end Draft

namespace Snapshot

theorem isSecret_iff {v : Value} : v.IsSecret ↔ ∃ o, v = optional .text o := by
  constructor
  · intro h
    cases v with
    | null => exact ⟨none, rfl⟩
    | text s => exact ⟨some s, rfl⟩
    | _ => exact h.elim
  · rintro ⟨_ | s, rfl⟩ <;> trivial

theorem ofInput_withSecret {origin : Origin} {data data' : List (String × Value)}
    {o o' : Option String}
    (others : ∀ field, field ≠ "client_secret" → given data' field = given data field)
    (own : defaulted data "client_secret" none (checkOptionalText [.name "client_secret"]) = .ok o)
    (own' : defaulted data' "client_secret" none
      (checkOptionalText [.name "client_secret"]) = .ok o') :
    ofInput origin data' = (ofInput origin data).map fun s => s.withSecret o' := by
  have required_eq : ∀ {α : Type} (field : String) (check : Value → Checked α),
      field ≠ "client_secret" → required data' field check = required data field check := by
    intro α field check ne
    rw [required, required, others field ne]
  have defaulted_eq : ∀ {α : Type} (field : String) (default : α) (check : Value → Checked α),
      field ≠ "client_secret" →
        defaulted data' field default check = defaulted data field default check := by
    intro α field default check ne
    rw [defaulted, defaulted, others field ne]
  simp only [ofInput, own, own', required_eq _ _ (by decide : "id" ≠ "client_secret"),
    required_eq _ _ (by decide : "client_id" ≠ "client_secret"),
    required_eq _ _ (by decide : "client_name" ≠ "client_secret"),
    defaulted_eq _ _ _ (by decide : "client_id_issued_at" ≠ "client_secret"),
    defaulted_eq _ _ _ (by decide : "client_secret_expires_at" ≠ "client_secret"),
    defaulted_eq _ _ _ (by decide : "token_endpoint_auth_methods" ≠ "client_secret"),
    defaulted_eq _ _ _ (by decide : "grant_types" ≠ "client_secret"),
    defaulted_eq _ _ _ (by decide : "redirect_uris" ≠ "client_secret"),
    defaulted_eq _ _ _ (by decide : "scopes" ≠ "client_secret"),
    defaulted_eq _ _ _ (by decide : "client_settings" ≠ "client_secret"),
    defaulted_eq _ _ _ (by decide : "token_settings" ≠ "client_secret")]
  split
  next id clientId issuedAt secret expiry name methods grants uris scopes client token =>
    cases secret
    simp only [id, clientId, issuedAt, expiry, name, methods, grants, uris, scopes, client, token]
    rfl
  next refused =>
    split
    next id clientId issuedAt _ expiry name methods grants uris scopes client token =>
      exact (refused _ _ _ _ _ _ _ _ _ _ _ _ id clientId issuedAt rfl expiry name methods grants
        uris scopes client token).elim
    · rfl

/-- The secret of a client passes as it is. -/
theorem ofClient_withSecret {c : Client} {o : Option String} (secret : c.secret = optional .text o)
    (o' : Option String) : ofClient (c.withSecret (optional .text o')) =
      (ofClient c).map fun s => s.withSecret o' := by
  simp only [ofClient, except_bind_map, Client.withSecret]
  refine bind_congr fun methods => bind_congr fun grants => bind_congr fun uris =>
    bind_congr fun scopes => ?_
  refine ofInput_withSecret (o := o) (fun field ne => ?_) ?_ ?_
  · have skipped : ("client_secret" == field) = false := by simpa using ne.symm
    simp only [given, List.find?_cons, skipped]
  · rw [secret]
    exact checkOptionalText_optional _ o
  · exact checkOptionalText_optional _ o'

theorem toDraft_withSecret (s : Snapshot) (o : Option String) :
    (s.withSecret o).toDraft = s.toDraft.map fun d => d.withSecret (optional .text o) := by
  simp only [toDraft, except_bind_map]
  rfl

theorem toClient_withSecret (s : Snapshot) (o : Option String) :
    (s.withSecret o).toClient = s.toClient.map fun c => c.withSecret (optional .text o) := by
  simp only [toClient, toDraft_withSecret, Outcome.ofExcept_map, Outcome.map_bind,
    Outcome.bind_map, Draft.build_withSecret]

theorem printed_withSecret (s : Snapshot) (o : Option String) :
    (s.withSecret o).printed = s.printed := rfl

end Snapshot

namespace Row

theorem toDraft_withSecret (f : Fields) (v : Value) :
    toDraft ⟨f.withSecret v⟩ = (toDraft ⟨f⟩).map fun d => d.withSecret v := by
  simp only [toDraft, except_bind_map]
  rfl

theorem toClient_withSecret (f : Fields) (v : Value) :
    toClient ⟨f.withSecret v⟩ = (toClient ⟨f⟩).map fun c => c.withSecret v := by
  simp only [toClient, toDraft_withSecret, Outcome.ofExcept_map, Outcome.map_bind,
    Outcome.bind_map, Draft.build_withSecret]

end Row

end ClientRegistry

import ClientRegistry.Proofs.Client.Secret
import ClientRegistry.Workspace.Snapshots
import Mathlib.Data.List.Forall2

/-! Records that differ in their secrets, and what is made of them. Where one is made and the other
is not, or where they log or print differently, the secret would have given itself away. -/

namespace ClientRegistry

/-- Both are related results, or the same fault. -/
inductive Except.Rel {α β : Type} (R : α → β → Prop) : Except Fault α → Except Fault β → Prop where
  | ok {a : α} {b : β} (related : R a b) : Rel R (.ok a) (.ok b)
  | error (e : Fault) : Rel R (.error e) (.error e)

theorem except_rel_bind {α β γ δ : Type} {R : α → β → Prop} {S : γ → δ → Prop}
    {x : Except Fault α} {y : Except Fault β} {f : α → Except Fault γ} {g : β → Except Fault δ}
    (h : Except.Rel R x y) (next : ∀ a b, R a b → Except.Rel S (f a) (g b)) :
    Except.Rel S (x >>= f) (y >>= g) := by
  cases h with
  | ok related => exact next _ _ related
  | error e => exact .error e

theorem option_rel_bind {α β γ δ : Type} {R : α → β → Prop} {S : γ → δ → Prop} {x : Option α}
    {y : Option β} {f : α → Option γ} {g : β → Option δ} (h : Option.Rel R x y)
    (next : ∀ a b, R a b → Option.Rel S (f a) (g b)) : Option.Rel S (x >>= f) (y >>= g) := by
  cases h with
  | none => exact .none
  | some related => exact next _ _ related

theorem option_rel_bind_same {α γ δ : Type} {S : γ → δ → Prop} {x : Option α} {f : α → Option γ}
    {g : α → Option δ} (next : ∀ a, Option.Rel S (f a) (g a)) :
    Option.Rel S (x >>= f) (x >>= g) := by
  cases x with
  | none => exact .none
  | some a => exact next a

variable {v v' : Value}

/-- The same value, or two secrets. -/
def Value.Masks (v v' : Value) : Prop := v' = v ∨ v.IsSecret ∧ v'.IsSecret

theorem Value.Masks.refl (v : Value) : v.Masks v := .inl rfl

def Fields.Masks (f f' : Fields) : Prop := ∃ v, f.secret.Masks v ∧ f' = f.withSecret v

def Draft.Masks (d d' : Draft) : Prop := ∃ v, d.secret.Masks v ∧ d' = d.withSecret v

def Client.Masks (c c' : Client) : Prop := ∃ v, c.secret.Masks v ∧ c' = c.withSecret v

def Snapshot.Masks (s s' : Snapshot) : Prop := ∃ o, s' = s.withSecret o

/-- The same records are logged, and the clients are the same but for their secrets. -/
structure Outcome.Masks (x x' : Outcome Client) : Prop where
  result : Except.Rel Client.Masks x.result x'.result
  log : x'.log = x.log

theorem Fields.Masks.refl (f : Fields) : f.Masks f := ⟨f.secret, .refl _, rfl⟩

theorem Draft.Masks.refl (d : Draft) : d.Masks d := ⟨d.secret, .refl _, rfl⟩

theorem Client.Masks.printed {c c' : Client} (h : c.Masks c') : c'.printed = c.printed := by
  obtain ⟨v, -, rfl⟩ := h
  exact printed_withSecret c v

theorem Client.Masks.ofClient {c c' : Client} (h : c.Masks c') :
    (Draft.ofClient c).Masks (Draft.ofClient c') := by
  obtain ⟨v, masks, rfl⟩ := h
  exact ⟨v, masks, rfl⟩

theorem Client.Masks.fields {c c' : Client} (h : c.Masks c') : c.fields.Masks c'.fields := by
  obtain ⟨v, masks, rfl⟩ := h
  exact ⟨v, masks, rfl⟩

/-- An operation that takes the secret along leaves it in the result. -/
theorem Outcome.masks_of_withSecret {x : Value → Outcome Client}
    (along : ∀ u, x u = (x v).map fun c => c.withSecret u) (masks : v.Masks v') :
    (x v).Masks (x v') := by
  have self := congrArg Outcome.result (along v)
  have other := along v'
  generalize x v = y at self other ⊢
  obtain ⟨result, log⟩ := y
  rw [other]
  refine ⟨?_, rfl⟩
  cases result with
  | error e => exact .error e
  | ok c =>
      have secret : c.secret = v := congrArg Client.secret (Except.ok.inj self)
      exact .ok ⟨v', secret ▸ masks, rfl⟩

theorem Draft.build_masks {d d' : Draft} (masks : d.Masks d') : d.build.Masks d'.build := by
  obtain ⟨v, masks, rfl⟩ := masks
  exact Outcome.masks_of_withSecret (x := fun u => (d.withSecret u).build)
    (fun u => Draft.build_withSecret d u) masks

theorem Client.make_masks {f f' : Fields} (masks : f.Masks f') : (make f).Masks (make f') := by
  obtain ⟨v, masks, rfl⟩ := masks
  exact Outcome.masks_of_withSecret (x := fun u => make (f.withSecret u))
    (fun u => make_withSecret f u) masks

theorem Row.toClient_masks {f f' : Fields} (masks : f.Masks f') :
    (toClient ⟨f⟩).Masks (toClient ⟨f'⟩) := by
  obtain ⟨v, masks, rfl⟩ := masks
  exact Outcome.masks_of_withSecret (x := fun u => toClient ⟨f.withSecret u⟩)
    (fun u => toClient_withSecret f u) masks

theorem Snapshot.toClient_masks {s s' : Snapshot} (masks : s.Masks s') :
    s.toClient.Masks s'.toClient := by
  obtain ⟨o, rfl⟩ := masks
  have secrets : ∀ o, (optional .text o).IsSecret := fun o => isSecret_iff.mpr ⟨o, rfl⟩
  have along := toClient_withSecret s
  have self := congrArg Outcome.result (along s.secret)
  have other := along o
  rw [show s.withSecret s.secret = s from rfl] at self
  generalize s.toClient = y at self other ⊢
  obtain ⟨result, log⟩ := y
  rw [other]
  refine ⟨?_, rfl⟩
  cases result with
  | error e => exact .error e
  | ok c =>
      have secret : c.secret = optional .text s.secret :=
        congrArg Client.secret (Except.ok.inj self)
      exact .ok ⟨_, .inr ⟨secret ▸ secrets s.secret, secrets o⟩, rfl⟩

/-- Clients that differ in their secrets have snapshots that do, or none for the same reason. -/
theorem Snapshot.ofClient_masks {c c' : Client} (masks : c.Masks c') :
    Except.Rel Snapshot.Masks (ofClient c) (ofClient c') := by
  obtain ⟨v, masks, rfl⟩ := masks
  rcases masks with rfl | ⟨secret, secret'⟩
  · show Except.Rel Snapshot.Masks (ofClient c) (ofClient c)
    cases ofClient c with
    | error e => exact .error e
    | ok s => exact .ok ⟨s.secret, rfl⟩
  · obtain ⟨o, given⟩ := isSecret_iff.mp secret
    obtain ⟨o', rfl⟩ := isSecret_iff.mp secret'
    rw [ofClient_withSecret given o']
    cases ofClient c with
    | error e => exact .error e
    | ok s => exact .ok ⟨o', rfl⟩

/-- What a call makes of two drafts that differ in their secrets still does, and the call fails on
both or on neither. -/
theorem Draft.apply_masks {d d' : Draft} (masks : d.Masks d') (call : Call) :
    (d.apply call).1.Masks (d'.apply call).1 ∧ (d'.apply call).2 = (d.apply call).2 := by
  obtain ⟨v, masks, rfl⟩ := masks
  by_cases own : ∃ x, call = .assign .secret x
  · obtain ⟨x, rfl⟩ := own
    exact ⟨.refl _, rfl⟩
  · have other : ∀ x, call ≠ .assign .secret x := fun x same => own ⟨x, same⟩
    have along := apply_withSecret other d
    have secret : (d.apply call).1.secret = d.secret :=
      congrArg (fun r => Draft.secret r.1) (along d.secret)
    rw [along v]
    exact ⟨⟨v, secret ▸ masks, rfl⟩, rfl⟩

/-- The same holds if the secret is assigned another one. -/
theorem Draft.assign_masks {d d' : Draft} (masks : d.Masks d') {field : ScalarField}
    (values : v' = v ∨ field = .secret ∧ v.Masks v') :
    (d.apply (.assign field v)).1.Masks (d'.apply (.assign field v')).1 ∧
      (d'.apply (.assign field v')).2 = (d.apply (.assign field v)).2 := by
  rcases values with rfl | ⟨rfl, secrets⟩
  · exact apply_masks masks _
  · obtain ⟨u, -, rfl⟩ := masks
    exact ⟨⟨v', secrets, rfl⟩, rfl⟩

/-- The same value under the same name, or two secrets under the name of the secret. -/
def MasksField (f f' : String × Value) : Prop :=
  f'.1 = f.1 ∧ (f'.2 = f.2 ∨ f.1 = "client_secret" ∧ f.2.IsSecret ∧ f'.2.IsSecret)

variable {named named' : List (String × Value)}

theorem any_name_of_masks (masks : List.Forall₂ MasksField named named') (name : String) :
    (named'.any fun g => g.1 == name) = named.any fun g => g.1 == name := by
  induction masks with
  | nil => rfl
  | cons first _ ih => rw [List.any_cons, List.any_cons, first.1, ih]

namespace Fields

/-- Only the field of the secret reads the secret. -/
theorem with?_withSecret {f : Fields} {name : String} (other : name ≠ "client_secret") (x : Value) :
    ((f.withSecret v).with? name x = (f.with? name x).map fun g => g.withSecret v) ∧
      ∀ g, f.with? name x = some g → g.secret = f.secret := by
  unfold with?
  split <;> first
    | exact ⟨rfl, fun g made => by cases made; rfl⟩
    | exact absurd rfl other
    | exact ⟨rfl, fun g made => by cases made⟩

theorem with?_masks {f f' : Fields} (masks : f.Masks f') {g g' : String × Value}
    (field : MasksField g g') : Option.Rel Masks (f.with? g.1 g.2) (f'.with? g'.1 g'.2) := by
  obtain ⟨v, masks, rfl⟩ := masks
  obtain ⟨name, x⟩ := g
  obtain ⟨name', x'⟩ := g'
  obtain ⟨rfl, value⟩ := field
  by_cases own : name' = "client_secret"
  · subst own
    exact .some ⟨x', value.imp_right And.right, rfl⟩
  · obtain rfl := value.resolve_right fun secret => own secret.1
    obtain ⟨along, kept⟩ := with?_withSecret (f := f) (v := v) own x'
    rw [along]
    cases made : f.with? name' x' with
    | none => exact .none
    | some g => exact .some ⟨v, kept g made ▸ masks, rfl⟩

theorem withAll?_masks (given : List.Forall₂ MasksField named named') {f f' : Fields}
    (masks : f.Masks f') : Option.Rel Masks (f.withAll? named) (f'.withAll? named') := by
  induction given generalizing f f' with
  | nil => exact .some masks
  | cons first _ ih =>
      simp only [withAll?, List.foldlM_cons]
      exact option_rel_bind (with?_masks masks first) fun _ _ next => ih next

theorem ofNamed?_masks (given : List.Forall₂ MasksField named named') :
    Option.Rel Masks (ofNamed? named) (ofNamed? named') := by
  simp only [ofNamed?, any_name_of_masks given]
  split
  · exact withAll?_masks given (.refl blank)
  · exact .none

end Fields

namespace Snapshot

theorem Masks.printed {s s' : Snapshot} (h : s.Masks s') : s'.printed = s.printed := by
  obtain ⟨o, rfl⟩ := h
  exact printed_withSecret s o

theorem named_masks {s s' : Snapshot} (h : s.Masks s') :
    List.Forall₂ MasksField s.named s'.named := by
  obtain ⟨o, rfl⟩ := h
  have same : ∀ f : String × Value, MasksField f f := fun f => ⟨rfl, .inl rfl⟩
  have secret : MasksField ("client_secret", optional .text s.secret)
      ("client_secret", optional .text o) :=
    ⟨rfl, .inr ⟨rfl, isSecret_iff.mpr ⟨_, rfl⟩, isSecret_iff.mpr ⟨_, rfl⟩⟩⟩
  exact .cons (same _) <| .cons (same _) <| .cons (same _) <| .cons secret <|
    List.forall₂_same.mpr fun f _ => same f

theorem find?_masks (given : List.Forall₂ MasksField named named') {name : String}
    (other : name ≠ "client_secret") :
    (named'.find? fun f => f.1 == name).map (·.2) =
      (named.find? fun f => f.1 == name).map (·.2) := by
  induction given with
  | nil => rfl
  | @cons f f' _ _ first _ ih =>
      simp only [List.find?_cons, first.1]
      cases own : f.1 == name with
      | false => exact ih
      | true =>
          have same := first.2.resolve_right fun secret => other (eq_of_beq own ▸ secret.1)
          exact congrArg some same

theorem find?_secret_masks (given : List.Forall₂ MasksField named named') :
    Option.Rel Value.Masks ((named.find? fun f => f.1 == "client_secret").map (·.2))
      ((named'.find? fun f => f.1 == "client_secret").map (·.2)) := by
  induction given with
  | nil => exact .none
  | @cons f f' _ _ first _ ih =>
      simp only [List.find?_cons, first.1]
      cases f.1 == "client_secret" with
      | false => exact ih
      | true => exact .some (first.2.imp_right And.right)

/-- A secret is read as it is, and other values are the same. -/
theorem secret_masks (masks : v.Masks v') :
    Option.Rel (fun _ _ => True) (optional? text? v) (optional? text? v') := by
  rcases masks with rfl | ⟨secret, secret'⟩
  · cases optional? text? v' with
    | none => exact .none
    | some o => exact .some trivial
  · obtain ⟨o, rfl⟩ := isSecret_iff.mp secret
    obtain ⟨o', rfl⟩ := isSecret_iff.mp secret'
    cases o <;> cases o' <;> exact .some trivial

theorem ofNamed?_masks (given : List.Forall₂ MasksField named named') :
    Option.Rel Masks (ofNamed? named) (ofNamed? named') := by
  simp only [ofNamed?, find?_masks given (by decide : "id" ≠ "client_secret"),
    find?_masks given (by decide : "client_id" ≠ "client_secret"),
    find?_masks given (by decide : "client_id_issued_at" ≠ "client_secret"),
    find?_masks given (by decide : "client_secret_expires_at" ≠ "client_secret"),
    find?_masks given (by decide : "client_name" ≠ "client_secret"),
    find?_masks given (by decide : "token_endpoint_auth_methods" ≠ "client_secret"),
    find?_masks given (by decide : "grant_types" ≠ "client_secret"),
    find?_masks given (by decide : "redirect_uris" ≠ "client_secret"),
    find?_masks given (by decide : "scopes" ≠ "client_secret"),
    find?_masks given (by decide : "client_settings" ≠ "client_secret"),
    find?_masks given (by decide : "token_settings" ≠ "client_secret")]
  have secret := option_rel_bind (find?_secret_masks given) fun _ _ masks => secret_masks masks
  refine option_rel_bind_same fun id => option_rel_bind_same fun clientId =>
    option_rel_bind_same fun issuedAt => option_rel_bind secret fun o o' _ =>
      option_rel_bind_same fun expiry => option_rel_bind_same fun name =>
        option_rel_bind_same fun methods => option_rel_bind_same fun grants =>
          option_rel_bind_same fun uris => option_rel_bind_same fun scopes =>
            option_rel_bind_same fun client => option_rel_bind_same fun token => ?_
  exact .some ⟨o', rfl⟩

/-- A printed snapshot leaves the secret out. -/
theorem printedNamed_masks (given : List.Forall₂ MasksField named named') :
    printedNamed named' = printedNamed named := by
  have shown : named'.filter (fun f => f.1 != "client_secret") =
      named.filter fun f => f.1 != "client_secret" := by
    induction given with
    | nil => rfl
    | @cons f f' _ _ first _ ih =>
        obtain ⟨name, value⟩ := first
        by_cases own : f.1 = "client_secret"
        · simp [name, own, ih]
        · have same : f' = f := Prod.ext name (value.resolve_right fun secret => own secret.1)
          simp [same, own, ih]
  rw [printedNamed, shown, printedNamed]

theorem isOrdered_masks (given : List.Forall₂ MasksField named named') :
    (named'.all fun f => f.2.isOrdered) = named.all fun f => f.2.isOrdered := by
  induction given with
  | nil => rfl
  | @cons f f' _ _ first _ ih =>
      have same : f'.2.isOrdered = f.2.isOrdered := by
        rcases first.2 with same | ⟨-, secret, secret'⟩
        · rw [same]
        · obtain ⟨o, given⟩ := isSecret_iff.mp secret
          obtain ⟨o', given'⟩ := isSecret_iff.mp secret'
          rw [given, given']
          cases o <;> cases o' <;> rfl
      rw [List.all_cons, List.all_cons, same, ih]

/-- The names of the fields of a snapshot, in order. -/
def fieldNames : List String := (default : Snapshot).named.map (·.1)

end Snapshot

/-- Values that are taken in order keep the secret in its place. -/
theorem zipWith_masks (given : List.Forall₂ MasksField named named')
    (columns : List (String × Value))
    (placed : ∀ p ∈ columns.zip named, p.2.1 = "client_secret" → p.1.1 = "client_secret") :
    List.Forall₂ MasksField (columns.zipWith (fun f s => (f.1, s.2)) named)
      (columns.zipWith (fun f s => (f.1, s.2)) named') := by
  induction given generalizing columns with
  | nil =>
      rw [List.zipWith_nil_right]
      exact .nil
  | cons first _ ih =>
      cases columns with
      | nil => exact .nil
      | cons column columns =>
          rw [List.zip_cons_cons, List.forall_mem_cons] at placed
          refine .cons ⟨rfl, first.2.imp_right fun secret => ?_⟩ (ih columns placed.2)
          exact ⟨placed.1 secret.1, secret.2⟩

theorem Workspace.rowOfSnapshot_masks (given : List.Forall₂ MasksField named named')
    (names : named.map (·.1) = Snapshot.fieldNames) :
    Except.Rel (fun r r' => ∃ f f', r = ⟨f⟩ ∧ r' = ⟨f'⟩ ∧ f.Masks f') (rowOfSnapshot named)
      (rowOfSnapshot named') := by
  have placed : ∀ p ∈ Fields.blank.named.zip named,
      p.2.1 = "client_secret" → p.1.1 = "client_secret" := by
    intro p member
    have pair := List.mem_map_of_mem (f := Prod.map (·.1) (·.1)) member
    rw [← List.zip_map, names] at pair
    have fixed : ∀ q ∈ (Fields.blank.named.map (·.1)).zip Snapshot.fieldNames,
        q.2 = "client_secret" → q.1 = "client_secret" := by decide
    exact fixed _ pair
  have fields := Fields.withAll?_masks (zipWith_masks given Fields.blank.named placed)
    (.refl Fields.blank)
  simp only [rowOfSnapshot, Row.ofNamed]
  generalize Fields.blank.withAll? (Fields.blank.named.zipWith _ named) = x at fields
  generalize Fields.blank.withAll? (Fields.blank.named.zipWith _ named') = y at fields
  cases fields with
  | none => exact .error _
  | some masks => exact .ok ⟨_, _, rfl, rfl, masks⟩

end ClientRegistry

import ClientRegistry.Proofs.Workspace.Backing

/-! Turns that follow from a holding by moves. A step goes from one thing to the next, so there is
one lemma for each way of going on, and one for each way to end. -/

namespace ClientRegistry.Workspace

open Holding (Leads Rights)

variable {rights : Rights} {σ τ : Holding} {old w : Workspace} {o : Object}

namespace Turn

/-- What the turn leaves is what moves lead to, and the steady objects are there. -/
structure Follows (rights : Rights) (old : Workspace) (σ : Holding) (t : Turn) : Prop where
  moves : Holding.Moves rights σ t.workspace.holding
  lasts : old.Lasts t.workspace

variable {t : Turn}

theorem follows_of_backed (h : old.Backed t.workspace σ) : t.Follows rights old σ :=
  ⟨h.moves, h.lasts⟩

theorem Follows.after (h : t.Follows rights old τ) (leads : Leads rights σ τ) :
    t.Follows rights old σ :=
  ⟨leads.moves.trans h.moves, h.lasts⟩

@[simp] theorem ofObject_workspace (w : Workspace) (i : Handle) (log : List LogRecord) :
    (ofObject w i log).workspace = w := by
  simp only [ofObject]
  split <;> rfl

@[simp] theorem ofEdited_workspace (w : Workspace) (i : Handle) (fault : Option Fault) :
    (ofEdited w i fault).workspace = w := by
  cases fault with
  | none => exact ofObject_workspace w i []
  | some e => rfl

theorem fail_follows (h : old.Backed w σ) (e : Fault) : (fail w e).Follows rights old σ :=
  follows_of_backed h

theorem failLogged_follows (h : old.Backed w σ) (e : Fault) (log : List LogRecord) :
    (failLogged w e log).Follows rights old σ :=
  follows_of_backed h

theorem ofResult_follows (h : old.Backed w σ) (s : Shown) :
    (ofResult w s).Follows rights old σ :=
  follows_of_backed h

theorem ofObject_follows (h : old.Backed w σ) (i : Handle) (log : List LogRecord) :
    (ofObject w i log).Follows rights old σ :=
  follows_of_backed ((ofObject_workspace w i log).symm ▸ h)

theorem ofNew_follows {p : Workspace × Handle} (h : old.Backed p.1 σ) :
    (ofNew p).Follows rights old σ :=
  ofObject_follows h p.2 []

theorem ofEdited_follows (h : old.Backed w σ) (i : Handle) (fault : Option Fault) :
    (ofEdited w i fault).Follows rights old σ :=
  follows_of_backed ((ofEdited_workspace w i fault).symm ▸ h)

theorem ofOutcome_follows (h : old.Backed w σ) {x : Outcome Client}
    {f : Client → Workspace × Handle}
    (next : ∀ c, ∃ τ, Leads rights σ τ ∧ old.Backed (f c).1 τ) :
    (ofOutcome w x f).Follows rights old σ := by
  simp only [ofOutcome]
  split
  next c made =>
    obtain ⟨τ, leads, backed⟩ := next c
    exact (ofObject_follows backed (f c).2 _).after leads
  · exact failLogged_follows h _ _

end Turn

theorem after_follows {α : Type} (h : old.Backed w σ) {r : Except Fault α} {f : α → Turn}
    (next : ∀ a, r = .ok a → (f a).Follows rights old σ) : (w.after r f).Follows rights old σ := by
  cases r with
  | ok a => exact next a rfl
  | error e => exact Turn.fail_follows h e

theorem named?_of_object? {name : String} {i : Handle} (named : w.handle? name = .ok i)
    (found : w.object? i = .ok o) : w.named? name = .ok o := by
  rw [named?, named]
  exact found

theorem onObject_follows (h : old.Backed w σ) {name : String} {f : Handle → Object → Turn}
    (next : ∀ i o, w.named? name = .ok o → w.objects[i]? = some o → (∀ x ∈ o.held, σ.Holds x) →
      (f i o).Follows rights old σ) : (w.onObject name f).Follows rights old σ := by
  refine after_follows h fun i named => after_follows h fun o found => ?_
  obtain ⟨present, holds⟩ := h.present found
  exact next i o (named?_of_object? named found) present holds

theorem onDraft_follows (h : old.Backed w σ) {name : String} {f : Handle → HeldDraft → Turn}
    (next : ∀ i d, old.Loose i → σ.Holds d.clientSettings → σ.Holds d.tokenSettings →
      (f i d).Follows rights old σ) : (w.onDraft name f).Follows rights old σ := by
  refine onObject_follows h fun i o _ present holds => ?_
  cases o with
  | draft d =>
      exact next i d (h.loose present fun steady => steady) (holds _ List.mem_cons_self)
        (holds _ (List.mem_cons_of_mem _ List.mem_cons_self))
  | _ => exact Turn.fail_follows h _

/-- The bags of the client are held, as what they are. -/
theorem onClient_follows (h : old.Backed w σ) {name : String} {f : HeldClient → Turn}
    (next : ∀ c : HeldClient, σ.Holds (.bag .client c.clientSettings) →
      σ.Holds (.bag .token c.tokenSettings) → (f c).Follows rights old σ) :
    (w.onClient name f).Follows rights old σ := by
  refine onObject_follows h fun i o _ _ holds => ?_
  cases o with
  | client c =>
      exact next c (holds _ List.mem_cons_self)
        (holds _ (List.mem_cons_of_mem _ List.mem_cons_self))
  | _ => exact Turn.fail_follows h _

theorem onSettingsDraft_follows (h : old.Backed w σ) {name : String}
    {f : Handle → BagKind → Address → Turn}
    (next : ∀ i kind a, σ.drafts a → (f i kind a).Follows rights old σ) :
    (w.onSettingsDraft name f).Follows rights old σ := by
  refine onObject_follows h fun i o _ present _ => ?_
  cases o with
  | settingsDraft kind a =>
      exact next i kind a (h.drafts _ (List.mem_of_getElem? present) a rfl)
  | _ => exact Turn.fail_follows h _

theorem onBag_follows (h : old.Backed w σ) {name : String} {f : BagKind → Address → Turn}
    (next : ∀ kind a, w.named? name = .ok (.value (.bag kind a)) → σ.Holds (.bag kind a) →
      (f kind a).Follows rights old σ) : (w.onBag name f).Follows rights old σ := by
  refine onObject_follows h fun i o named _ holds => ?_
  cases o with
  | value x =>
      cases x with
      | bag kind a => exact next kind a named (holds _ (List.mem_singleton_self _))
      | _ => exact Turn.fail_follows h _
  | _ => exact Turn.fail_follows h _

theorem onRegistry_follows (h : old.Backed w σ) {name : String}
    {f : Handle → Registry Listed → Turn}
    (next : ∀ i r, old.Loose i → (f i r).Follows rights old σ) :
    (w.onRegistry name f).Follows rights old σ := by
  refine onObject_follows h fun i o _ present _ => ?_
  cases o with
  | registry r => exact next i r (h.loose present fun steady => steady)
  | _ => exact Turn.fail_follows h _

theorem onDatabase_follows (h : old.Backed w σ) {name : String} {f : Handle → Table → Turn}
    (next : ∀ i t, old.Loose i → (f i t).Follows rights old σ) :
    (w.onDatabase name f).Follows rights old σ := by
  refine onObject_follows h fun i o _ present _ => ?_
  cases o with
  | database t => exact next i t (h.loose present fun steady => steady)
  | _ => exact Turn.fail_follows h _

theorem onSnapshot_follows (h : old.Backed w σ) {name : String} {f : HeldFields → Turn}
    (next : ∀ fields : HeldFields, (∀ x ∈ fields, σ.Holds x.2) →
      (f fields).Follows rights old σ) : (w.onSnapshot name f).Follows rights old σ := by
  refine onObject_follows h fun i o _ _ holds => ?_
  cases o with
  | snapshot fields => exact next fields (List.forall_mem_map.mp holds)
  | _ => exact Turn.fail_follows h _

theorem onRow_follows (h : old.Backed w σ) {name : String} {f : HeldFields → Turn}
    (next : ∀ fields : HeldFields, (∀ x ∈ fields, σ.Holds x.2) →
      (f fields).Follows rights old σ) : (w.onRow name f).Follows rights old σ := by
  refine onObject_follows h fun i o _ _ holds => ?_
  cases o with
  | row fields => exact next fields (List.forall_mem_map.mp holds)
  | _ => exact Turn.fail_follows h _

theorem onHeld_follows (h : old.Backed w σ) {operand : Operand} {f : Workspace → Shared → Turn}
    (next : ∀ w' y τ, Leads rights σ τ → old.Backed w' τ → τ.Holds y →
      (f w' y).Follows rights old τ) : (w.onHeld operand f).Follows rights old σ := by
  refine after_follows h fun p found => ?_
  obtain ⟨τ, leads, backed, holds⟩ := h.ofHeld found
  exact (next p.1 p.2 τ leads backed holds).after leads

end ClientRegistry.Workspace

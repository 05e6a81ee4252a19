import ClientRegistry.Proofs.Workspace.Moves

/-! Records are isolated from what they were built of. The bags of a record that was just built are
sealed, so no step that does not look into them can change what the record holds, whatever becomes
of the sources, the draft, the snapshot or the row. -/

namespace ClientRegistry.Workspace

open Holding (Leads)

variable {σ : Holding} {old w w' : Workspace} {g h : Handle}

/-- The object is there, with the content that it had. -/
def Unaltered (w w' : Workspace) (h : Handle) : Prop :=
  ∃ o, w.objects[h]? = some o ∧ w'.objects[h]? = some o ∧ w'.shown o = w.shown o

/-- What a hash depends on is the content, or the place. -/
theorem Unaltered.footprint (same : w.Unaltered w' h) : w'.footprint h = w.footprint h := by
  obtain ⟨o, present, present', content⟩ := same
  simp only [Workspace.footprint, present, present']
  cases o with
  | value x =>
      have read : w'.store.read x = w.store.read x := Shown.value.inj content
      simp only [read]
  | client c =>
      have current : c.current w'.store = c.current w.store := Shown.client.inj content
      simp only [current]
  | _ => rfl

/-- So does equality. -/
theorem Unaltered.isEqual (first : w.Unaltered w' g) (second : w.Unaltered w' h) :
    w'.isEqual g h = w.isEqual g h := by
  obtain ⟨o, present, present', content⟩ := first
  obtain ⟨p, there, there', content'⟩ := second
  simp only [Workspace.isEqual, present, present', there, there']
  cases o with
  | value x =>
      cases p with
      | value y =>
          have read : w'.store.read x = w.store.read x := Shown.value.inj content
          have read' : w'.store.read y = w.store.read y := Shown.value.inj content'
          simp only [read, read']
      | _ => rfl
  | client c =>
      cases p with
      | client d =>
          have current : c.current w'.store = c.current w.store := Shown.client.inj content
          have current' : d.current w'.store = d.current w.store := Shown.client.inj content'
          simp only [current, current']
      | _ => rfl
  | snapshot f =>
      cases p with
      | snapshot e =>
          have fields : HeldFields.current w'.store f = HeldFields.current w.store f :=
            Shown.snapshot.inj content
          have fields' : HeldFields.current w'.store e = HeldFields.current w.store e :=
            Shown.snapshot.inj content'
          simp only [fields, fields']
      | _ => rfl
  | _ => cases p <;> rfl

/-- The actions that build a client or a bag. -/
def Action.Builds : Action → Prop
  | .build _ => True
  | .bag _ _ => True
  | .toClient _ => True
  | .rowToClient _ => True
  | _ => False

namespace Turn

/-- If the turn succeeds, it yields a record whose bags are sealed. -/
def Seals (t : Turn) : Prop :=
  ∀ d, t.display = .ok d → ∃ h o, t.object = some h ∧ t.workspace.objects[h]? = some o ∧
    o.Record ∧ ∀ a ∈ o.bags, t.workspace.holding.Seals a

theorem fail_seals (w : Workspace) (e : Fault) : (fail w e).Seals := by
  intro d shown
  cases shown

theorem ofObject_seals {p : Workspace × Handle} (backed : old.Backed p.1 σ) (new : SealsNew σ p)
    (log : List LogRecord) : (ofObject p.1 p.2 log).Seals := by
  obtain ⟨o, present, record, seals⟩ := new
  have found : p.1.object? p.2 = .ok o := by rw [object?, present]
  intro d _
  rw [ofObject, found]
  refine ⟨p.2, o, rfl, present, record, fun a bag => ?_⟩
  have moves : Holding.Moves .blind σ p.1.holding := backed.moves
  exact ((seals a bag).moves backed.grounded moves id).1

theorem ofOutcome_seals (old : Workspace) {x : Outcome Client}
    {f : Client → Workspace × Handle}
    (next : ∀ c, ∃ τ, old.Backed (f c).1 τ ∧ SealsNew τ (f c)) : (ofOutcome w x f).Seals := by
  simp only [ofOutcome]
  split
  next c _ =>
    obtain ⟨τ, backed, new⟩ := next c
    exact ofObject_seals backed new _
  · exact fail_seals w _

end Turn

theorem after_seals {α : Type} {r : Except Fault α} {f : α → Turn}
    (next : ∀ a, r = .ok a → (f a).Seals) : (w.after r f).Seals := by
  cases r with
  | ok a => exact next a rfl
  | error e => exact Turn.fail_seals w e

theorem onObject_seals (backed : old.Backed w σ) {name : String} {f : Handle → Object → Turn}
    (next : ∀ i o, o ∈ w.objects → (∀ x ∈ o.held, σ.Holds x) → (f i o).Seals) :
    (w.onObject name f).Seals := by
  refine after_seals fun i _ => after_seals fun o found => ?_
  obtain ⟨present, holds⟩ := backed.present found
  exact next i o (List.mem_of_getElem? present) holds

theorem bag_seals (backed : old.Backed w σ) (kind : BagKind) (mapping : Operand) :
    (w.bag kind mapping).Seals := by
  refine after_seals fun p found => ?_
  obtain ⟨τ, -, backed₁, holds⟩ : ∃ τ, Leads .all σ τ ∧ _ ∧ _ := backed.ofHeld found
  refine after_seals fun q made => ?_
  obtain ⟨sealing, backed₂⟩ := backed₁.copiedOptions holds.knows made
  have bag := (sealing .all).seals
  refine Turn.ofObject_seals (backed₂.insert ?_ rfl)
    (sealsNew_insert (o := .value (.bag kind _)) trivial ?_) []
  · exact List.forall_mem_singleton.mpr (Holding.holds_withBag _ _ kind)
  · exact List.forall_mem_singleton.mpr bag

theorem build_seals (backed : old.Backed w σ) (on : String) : (w.build on).Seals := by
  refine onObject_seals backed fun i o present holds => ?_
  cases o with
  | draft d =>
      refine Turn.ofOutcome_seals old fun c => ?_
      obtain ⟨τ, -, built, new⟩ : ∃ τ, Leads .all σ τ ∧ _ ∧ _ :=
        backed.insertBuilt (holds _ List.mem_cons_self)
          (holds _ (List.mem_cons_of_mem _ List.mem_cons_self)) c
      exact ⟨τ, built, new⟩
  | settingsDraft kind a =>
      obtain ⟨sealing, built⟩ := backed.buildBag (backed.drafts _ present a rfl)
      refine Turn.ofObject_seals (built.insert ?_ rfl)
        (sealsNew_insert (o := .value (.bag kind _)) trivial ?_) []
      · exact List.forall_mem_singleton.mpr (Holding.holds_withBag _ _ kind)
      · exact List.forall_mem_singleton.mpr (sealing .all).seals
  | _ => exact Turn.fail_seals w _

theorem restored_seals (backed : old.Backed w σ) {fields : HeldFields}
    (holds : ∀ f ∈ fields, σ.Holds f.2) (x : Outcome Client) :
    (Turn.ofOutcome w x (w.insertRestored fields)).Seals := by
  refine Turn.ofOutcome_seals old fun c => ?_
  obtain ⟨τ, -, built, new⟩ : ∃ τ, Leads .all σ τ ∧ _ ∧ _ :=
    backed.insertRestored holds c
  exact ⟨τ, built, new⟩

theorem toClient_seals (backed : old.Backed w σ) (on : String) : (w.toClient on).Seals := by
  refine onObject_seals backed fun i o _ holds => ?_
  cases o with
  | snapshot fields =>
      have restored := restored_seals backed (List.forall_mem_map.mp holds)
      simp only
      split
      · exact restored _
      · exact after_seals fun r _ => restored _
  | _ => exact Turn.fail_seals w _

theorem rowToClient_seals (backed : old.Backed w σ) (on : String) : (w.rowToClient on).Seals := by
  refine onObject_seals backed fun i o _ holds => ?_
  cases o with
  | row fields =>
      exact after_seals fun r _ => restored_seals backed (List.forall_mem_map.mp holds) _
  | _ => exact Turn.fail_seals w _

theorem perform_seals (backed : old.Backed w σ) {action : Action} (builds : action.Builds) :
    (w.perform action).Seals := by
  cases action with
  | build on => exact build_seals backed on
  | bag kind mapping => exact bag_seals backed kind mapping
  | toClient on => exact toClient_seals backed on
  | rowToClient on => exact rowToClient_seals backed on
  | _ => exact builds.elim

/-- The cells of the bags of an object, if it is a record. -/
def bagsOf (w : Workspace) (h : Handle) : List Address :=
  match w.objects[h]? with
  | some o => o.bags
  | none => []

/-- The steps leave a bag alone: none of them looks into it, or else none of them edits a list, a
set or a dictionary that it is made of. -/
def Spares (w : Workspace) (steps : List Step) (a : Address) : Prop :=
  a ∉ w.viewings steps ∨
    ∀ c ∈ w.store.bagCells a, (w.store.cellAt c).editable = true → c ∉ w.editings steps

/-- A record is what its bags are. -/
theorem unaltered_of_bags {o : Object} (present : w.objects[h]? = some o) (record : o.Record)
    (lasts : w.Lasts w')
    (kept : ∀ a ∈ o.bags, w'.store.optionsAt a = w.store.optionsAt a ∧
      ∀ kind, w'.store.read (.bag kind a) = w.store.read (.bag kind a)) : w.Unaltered w' h := by
  refine ⟨o, present, lasts h o present record.steady, ?_⟩
  cases o with
  | value x =>
      cases x with
      | bag kind a => exact congrArg Shown.value ((kept a (List.mem_singleton_self a)).2 kind)
      | _ => exact record.elim
  | client c =>
      have first := (kept c.clientSettings List.mem_cons_self).1
      have second := (kept c.tokenSettings (List.mem_cons_of_mem _ List.mem_cons_self)).1
      simp only [shown, HeldClient.current, first, second]
  | _ => exact record.elim

/-- A record with sealed bags is not altered by steps that leave its bags alone. -/
theorem unaltered_of_seals (grounded : w.holding.Grounded) {o : Object}
    (present : w.objects[h]? = some o) (record : o.Record)
    (seals : ∀ a ∈ o.bags, w.holding.Seals a) {steps : List Step}
    (spared : ∀ a ∈ o.bags, w.Spares steps a) : w.Unaltered (w.reached steps) h := by
  obtain ⟨moves, lasts⟩ := reached_moves grounded steps
  have holds := (Backed.start grounded).held o (List.mem_of_getElem? present)
  refine unaltered_of_bags present record lasts fun a bag => ?_
  rcases spared a bag with unseen | unedited
  · exact ((seals a bag).moves grounded moves unseen).2
  · obtain ⟨kind, member⟩ := Object.held_of_bags record bag
    have same := grounded.bag_moves moves (holds _ member) unedited
    exact ⟨same.1, fun kind => same.2 (.bag kind a) rfl⟩

/-- No steps make a store whose cells hold themselves. Whatever is shared in such a store, a client
or a bag that a step builds is not altered by later steps, unless they look into one of its bags
and edit what they find there. So its hash stays what it is, and so do the answers when it is
compared with whatever is not altered either. -/
theorem built_isolated :
    (∀ before : List Step, (empty.reached before).holding.Grounded) ∧
      ∀ (w : Workspace) (step : Step) (d : Display), w.holding.Grounded → step.action.Builds →
        (w.perform step.action).display = .ok d →
        ∃ h, (w.perform step.action).object = some h ∧ ∀ after : List Step,
          (∀ a ∈ (w.reached [step]).bagsOf h, (w.reached [step]).Spares after a) →
          (w.reached [step]).Unaltered ((w.reached [step]).reached after) h ∧
            ((w.reached [step]).reached after).footprint h = (w.reached [step]).footprint h ∧
            ∀ g, (w.reached [step]).Unaltered ((w.reached [step]).reached after) g →
              ((w.reached [step]).reached after).isEqual g h = (w.reached [step]).isEqual g h ∧
                ((w.reached [step]).reached after).isEqual h g =
                  (w.reached [step]).isEqual h g := by
  refine ⟨reached_grounded empty_grounded, fun w step d grounded builds built => ?_⟩
  obtain ⟨h, o, object, present, record, seals⟩ := perform_seals (.start grounded) builds d built
  refine ⟨h, object, fun after spared => ?_⟩
  have grounded' : (w.reached [step]).holding.Grounded := reached_grounded grounded [step]
  have present' : (w.reached [step]).objects[h]? = some o := by
    rw [reached, reached, Turn.named_objects]
    exact present
  have seals' : ∀ a ∈ o.bags, (w.reached [step]).holding.Seals a := by
    rw [reached, reached, Turn.named_holding]
    exact seals
  simp only [bagsOf, present'] at spared
  have same := unaltered_of_seals grounded' present' record seals' spared
  exact ⟨same, same.footprint, fun g other => ⟨other.isEqual same, same.isEqual other⟩⟩

/-- A draft of a client with a bag whose options share lists with each other and with the values
that they came from. -/
def supply : List Step :=
  [⟨.value (.given (.dict [(.text "l", .list [.int 1, .list [.int 2]]),
      (.text "s", .tuple [.set [.int 3]])])), some "source"⟩,
    ⟨.value (.given (.list [.list [.int 5]])), some "shared"⟩,
    ⟨.withSettings .client (.variable "source"), some "options"⟩,
    ⟨.setting "options" (.given (.text "x")) (.variable "shared"), none⟩,
    ⟨.setting "options" (.given (.text "y")) (.variable "shared"), none⟩,
    ⟨.build "options", some "bag"⟩,
    ⟨.withId (.given (.text "r")), some "draft"⟩,
    ⟨.assign "draft" .clientId (.given (.text "web")), none⟩,
    ⟨.add "draft" .grants (.given authorizationCode), none⟩,
    ⟨.add "draft" .redirectUris (.given (.text "https://c.example/cb")), none⟩,
    ⟨.add "draft" .scopes (.given (.text "openid")), none⟩,
    ⟨.assign "draft" .clientSettings (.variable "bag"), none⟩]

/-- Edits of everything that the client was built of, and of what was taken from it since. -/
def tampering : List Step :=
  [⟨.mutate "source" [.text "l", .int 1] [.call .append [.int 9]], none⟩,
    ⟨.mutate "shared" [.int 0] [.call .append [.int 9]], none⟩,
    ⟨.setting "options" (.given (.text "z")) (.variable "shared"), none⟩,
    ⟨.settings "options" [.call .clear []], none⟩,
    ⟨.build "options", none⟩,
    ⟨.edit "draft" .scopes [.call .clear []], none⟩,
    ⟨.assign "draft" .name (.given (.text "Web")), none⟩,
    ⟨.build "draft", none⟩,
    ⟨.takeView "bag", some "seen"⟩,
    ⟨.mutate "seen" [.text "x", .int 0] [.call .append [.int 9]], none⟩,
    ⟨.snapshot "built", some "snapshot"⟩,
    ⟨.mutateField "snapshot" "client_settings" [.text "l"] [.call .clear []], none⟩]

instance (w : Workspace) (steps : List Step) (a : Address) : Decidable (w.Spares steps a) :=
  inferInstanceAs (Decidable (_ ∨ _))

theorem supply_isolated :
    ((empty.reached supply).reached [⟨.build "draft", some "built"⟩]).Unaltered
      (((empty.reached supply).reached [⟨.build "draft", some "built"⟩]).reached tampering) 5 := by
  have built : ((empty.reached supply).perform (.build "draft")).display.isOk = true := by
    decide +kernel
  have object : ((empty.reached supply).perform (.build "draft")).object = some 5 := by
    decide +kernel
  cases display : ((empty.reached supply).perform (.build "draft")).display with
  | error e =>
      rw [display] at built
      cases built
  | ok d =>
      obtain ⟨h, found, isolated⟩ := built_isolated.2 (empty.reached supply)
        ⟨.build "draft", some "built"⟩ d (built_isolated.1 supply) trivial display
      obtain rfl : h = 5 := Option.some.inj (found.symm.trans object)
      exact (isolated tampering (by decide +kernel)).1

end ClientRegistry.Workspace

import ClientRegistry.Proofs.Client.Consistent
import ClientRegistry.Proofs.Workspace.Objects

/-! Sound workspaces: every client in them is consistent. A step can put a client into a workspace
only by making it, by rebuilding it, or by copying one that is there. -/

namespace ClientRegistry

/-- A record that a session finds was rebuilt of its row. -/
theorem Session.accepted_of_rebuilt {row : Option Row} {c : Client}
    (found : (rebuilt row).result = .ok (some c)) : c.Accepted := by
  cases row with
  | none => simp [rebuilt] at found
  | some r =>
      obtain ⟨d, restored, same⟩ := Outcome.bind_eq_ok.mp found
      cases same
      exact Row.accepted_of_toClient restored

theorem Session.accepted_of_findById {s : Session} {key : Value} {c : Client}
    (found : (s.findById key).2.result = .ok (some c)) : c.Accepted := by
  simp only [findById] at found
  split at found
  · simp at found
  · exact accepted_of_rebuilt found

theorem Session.accepted_of_findByClientId {s : Session} {key : Value} {c : Client}
    (found : (s.findByClientId key).2.result = .ok (some c)) : c.Accepted := by
  simp only [findByClientId] at found
  split at found
  · simp at found
  · split at found
    · simp at found
    · exact accepted_of_rebuilt found

namespace Work

/-- Every client among the answers of a body is consistent. -/
def Sound (w : Work) : Prop := ∀ c, .ok (some c) ∈ w.answers → c.Sound

theorem Sound.answered {w w' : Work} {answer : Except Fault (Option Client)} (h : w.Sound)
    (extended : w'.answers = w.answers ++ [answer]) (valid : ∀ c, answer = .ok (some c) → c.Sound) :
    w'.Sound := by
  intro c member
  rw [extended, List.mem_append, List.mem_singleton] at member
  rcases member with old | new
  · exact h c old
  · exact valid c new.symm

theorem Sound.faulted {w w' : Work} {e : Fault} (h : w.Sound)
    (extended : w'.answers = w.answers ++ [.error e]) : w'.Sound := by
  refine h.answered extended ?_
  intro c same
  cases same

theorem Sound.nothing {w w' : Work} (h : w.Sound)
    (extended : w'.answers = w.answers ++ [.ok none]) : w'.Sound := by
  refine h.answered extended ?_
  intro c same
  cases same

theorem save_sound {w : Work} (h : w.Sound) (c : Client) : (w.save c).1.Sound := by
  simp only [save]
  split
  · exact h.nothing rfl
  · exact h.faulted rfl

theorem fail_sound {w : Work} (h : w.Sound) (e : Fault) : (w.fail e).1.Sound :=
  h.faulted rfl

theorem answer_sound {w : Work} (h : w.Sound) {found : Session × Outcome (Option Client)}
    (valid : ∀ c, found.2.result = .ok (some c) → c.Sound) : (perform.answer w found).1.Sound := by
  simp only [perform.answer]
  split
  · exact h.answered rfl valid
  · exact h.answered rfl valid

theorem perform_sound {w : Work} (h : w.Sound) (step : WorkStep) : (w.perform step).1.Sound := by
  cases step with
  | save c => exact save_sound h c
  | saveFound positions otherwise =>
      simp only [perform]
      split
      · exact save_sound h _
      · exact save_sound h _
      · exact fail_sound h _
  | findById key =>
      refine answer_sound h ?_
      intro c found
      exact (Session.accepted_of_findById found).sound
  | findByClientId key =>
      refine answer_sound h ?_
      intro c found
      exact (Session.accepted_of_findByClientId found).sound
  | putRow row => exact h.nothing rfl
  | raise fault => exact fail_sound h fault

theorem run_sound {w : Work} (h : w.Sound) (body : List BodyStep) : (w.run body).1.Sound := by
  induction body generalizing w with
  | nil => exact h
  | cons s rest ih =>
      have stepped := perform_sound h s.step
      simp only [run]
      split
      · rename_i w' performed
        rw [performed] at stepped
        exact ih stepped
      · rename_i w' e performed
        rw [performed] at stepped
        split
        · exact ih stepped
        · exact stepped

end Work

theorem sound_of_unitOfWork {backend : Backend} {t : Table} {body : List BodyStep} {c : Client}
    (answered : .ok (some c) ∈ (unitOfWork backend t body).answers) : c.Sound := by
  have started : (Work.start t).Sound := by
    intro c member
    cases member
  have ran := Work.run_sound started body
  simp only [unitOfWork] at answered
  split at answered
  · split at answered
    · rename_i w run
      rw [run] at ran
      split at answered
      · exact ran c answered
      · exact ran c answered
    · rename_i w e run
      rw [run] at ran
      exact ran c answered
  · simp at answered

namespace Workspace

def Object.Sound : Object → Prop
  | .client c => c.client.Sound
  | _ => True

/-- The invariant of all steps. -/
def Sound (w : Workspace) : Prop := ∀ o ∈ w.objects, o.Sound

def Shown.Sound : Shown → Prop
  | .client c => c.Sound
  | _ => True

def Display.Sound : Display → Prop
  | .shown s => s.Sound
  | .settled s => ∀ c, .ok (some c) ∈ s.answers → c.Sound

/-- A turn is sound if the workspace it leaves and what it shows are. -/
structure Turn.Sound (t : Turn) : Prop where
  workspace : t.workspace.Sound
  display : ∀ d, t.display = .ok d → d.Sound

variable {w w' : Workspace}

theorem empty_sound : empty.Sound := by
  intro o member
  cases member

theorem Sound.of_objects (h : w.Sound) (same : w'.objects = w.objects) : w'.Sound := by
  intro o member
  rw [same] at member
  exact h o member

theorem Sound.withStore (h : w.Sound) (store : Store) : ({ w with store } : Workspace).Sound := h

theorem Sound.insert (h : w.Sound) {o : Object} (ho : o.Sound) : (w.insert o).1.Sound := by
  intro x member
  rw [insert_objects, List.mem_append, List.mem_singleton] at member
  rcases member with old | rfl
  · exact h x old
  · exact ho

theorem Sound.replace (h : w.Sound) (i : Handle) {o : Object} (ho : o.Sound) :
    (w.replace i o).Sound := by
  intro x member
  rcases List.mem_or_eq_of_mem_set member with old | rfl
  · exact h x old
  · exact ho

theorem Sound.object (h : w.Sound) {i : Handle} {o : Object} (found : w.object? i = .ok o) :
    o.Sound := by
  simp only [object?] at found
  split at found
  · rename_i x present
    cases found
    exact h o (List.mem_of_getElem? present)
  · cases found

theorem Sound.insertClient (h : w.Sound) {c : Client} (hc : c.Sound) :
    (w.insertClient c).1.Sound :=
  (h.of_objects (holdClient_objects w c)).insert (o := .client (w.holdClient c).2) hc

theorem HeldClient.sound_current {c : HeldClient} (h : c.client.Sound) (s : Store) :
    (c.current s).Sound :=
  h.withSettings _ _

theorem shown_sound {o : Object} (ho : o.Sound) : (w.shown o).Sound := by
  cases o with
  | client c => exact HeldClient.sound_current ho w.store
  | registry r => trivial
  | _ => trivial

namespace Turn

theorem fail_sound (h : w.Sound) (e : Fault) : (fail w e).Sound := by
  refine ⟨h, ?_⟩
  intro d shown
  cases shown

theorem failLogged_sound (h : w.Sound) (e : Fault) (log : List LogRecord) :
    (failLogged w e log).Sound := by
  refine ⟨h, ?_⟩
  intro d shown
  cases shown

theorem ofResult_sound (h : w.Sound) {s : Shown} (hs : s.Sound) : (ofResult w s).Sound := by
  refine ⟨h, ?_⟩
  intro d shown
  cases shown
  exact hs

theorem ofObject_sound (h : w.Sound) (i : Handle) (log : List LogRecord) :
    (ofObject w i log).Sound := by
  simp only [ofObject]
  split
  · rename_i o found
    refine ⟨h, ?_⟩
    intro d shown
    cases shown
    exact shown_sound (h.object found)
  · refine ⟨h, ?_⟩
    intro d shown
    cases shown

theorem ofNew_sound {p : Workspace × Handle} (h : p.1.Sound) : (ofNew p).Sound :=
  ofObject_sound h p.2 []

theorem ofEdited_sound (h : w.Sound) (i : Handle) (fault : Option Fault) :
    (ofEdited w i fault).Sound := by
  cases fault with
  | none => exact ofObject_sound h i []
  | some e => exact fail_sound h e

theorem ofOutcome_sound (h : w.Sound) {x : Outcome Client} {f : Client → Workspace × Handle}
    (hf : ∀ c, x.result = .ok c → (f c).1.Sound) : (ofOutcome w x f).Sound := by
  simp only [ofOutcome]
  split
  · rename_i c made
    exact ofObject_sound (hf c made) _ _
  · exact failLogged_sound h _ _

end Turn

theorem after_sound {α : Type} (h : w.Sound) {r : Except Fault α} {f : α → Turn}
    (hf : ∀ a, r = .ok a → (f a).Sound) : (w.after r f).Sound := by
  cases r with
  | ok a => exact hf a rfl
  | error e => exact Turn.fail_sound h e

theorem onObject_sound (h : w.Sound) {name : String} {f : Handle → Object → Turn}
    (hf : ∀ i o, o.Sound → (f i o).Sound) : (w.onObject name f).Sound := by
  refine after_sound h ?_
  intro i _
  refine after_sound h ?_
  intro o found
  exact hf i o (h.object found)

theorem onDraft_sound (h : w.Sound) {name : String} {f : Handle → HeldDraft → Turn}
    (hf : ∀ i d, (f i d).Sound) : (w.onDraft name f).Sound := by
  refine onObject_sound h ?_
  intro i o _
  cases o with
  | draft d => exact hf i d
  | _ => exact Turn.fail_sound h _

theorem onClient_sound (h : w.Sound) {name : String} {f : HeldClient → Turn}
    (hf : ∀ c, c.client.Sound → (f c).Sound) : (w.onClient name f).Sound := by
  refine onObject_sound h ?_
  intro i o ho
  cases o with
  | client c => exact hf c ho
  | _ => exact Turn.fail_sound h _

theorem onSettingsDraft_sound (h : w.Sound) {name : String}
    {f : Handle → BagKind → Address → Turn} (hf : ∀ i kind a, (f i kind a).Sound) :
    (w.onSettingsDraft name f).Sound := by
  refine onObject_sound h ?_
  intro i o _
  cases o with
  | settingsDraft kind a => exact hf i kind a
  | _ => exact Turn.fail_sound h _

theorem onBag_sound (h : w.Sound) {name : String} {f : BagKind → Address → Turn}
    (hf : ∀ kind a, (f kind a).Sound) : (w.onBag name f).Sound := by
  refine onObject_sound h ?_
  intro i o _
  split
  · exact hf _ _
  · exact Turn.fail_sound h _

theorem onRegistry_sound (h : w.Sound) {name : String} {f : Handle → Registry Listed → Turn}
    (hf : ∀ i r, (f i r).Sound) : (w.onRegistry name f).Sound := by
  refine onObject_sound h ?_
  intro i o _
  cases o with
  | registry r => exact hf i r
  | _ => exact Turn.fail_sound h _

theorem onSnapshot_sound (h : w.Sound) {name : String} {f : HeldFields → Turn}
    (hf : ∀ fields, (f fields).Sound) : (w.onSnapshot name f).Sound := by
  refine onObject_sound h ?_
  intro i o _
  cases o with
  | snapshot fields => exact hf fields
  | _ => exact Turn.fail_sound h _

theorem onRow_sound (h : w.Sound) {name : String} {f : HeldFields → Turn}
    (hf : ∀ fields, (f fields).Sound) : (w.onRow name f).Sound := by
  refine onObject_sound h ?_
  intro i o _
  cases o with
  | row fields => exact hf fields
  | _ => exact Turn.fail_sound h _

theorem onDatabase_sound (h : w.Sound) {name : String} {f : Handle → Table → Turn}
    (hf : ∀ i t, (f i t).Sound) : (w.onDatabase name f).Sound := by
  refine onObject_sound h ?_
  intro i o _
  cases o with
  | database t => exact hf i t
  | _ => exact Turn.fail_sound h _

theorem onHeld_sound (h : w.Sound) {x : Operand} {f : Workspace → Shared → Turn}
    (hf : ∀ w' y, w'.Sound → (f w' y).Sound) : (w.onHeld x f).Sound := by
  refine after_sound h ?_
  intro p held
  exact hf p.1 p.2 (h.of_objects (held_objects held))

end Workspace

end ClientRegistry

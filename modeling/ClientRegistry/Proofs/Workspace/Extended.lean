import ClientRegistry.Proofs.Store.Extended
import ClientRegistry.Proofs.Workspace.Isolation

/-! Workspaces that only grow. A step that puts new cells and new objects behind the old ones alters
no object. -/

namespace ClientRegistry.Workspace

variable {w w' : Workspace} {o : Object} {x : Shared} {a : Address} {i : Handle}

/-- What is copied along is in the store. -/
theorem parts_lt (grounded : w.holding.Grounded) (present : o ∈ w.objects) :
    ∀ x ∈ o.parts, ∀ a, x.address? = some a → a < w.store.length := by
  intro x member a at'
  rcases Object.known_of_listed member at' with ⟨y, held, at''⟩ | own
  · exact (grounded.held y a ⟨o, present, held⟩ at'').1
  · exact (grounded.drafts a ⟨o, present, own⟩).1

/-- An object shows what its parts read as. -/
theorem shown_congr (read : ∀ x ∈ o.parts, w'.store.read x = w.store.read x)
    (options : ∀ a, .cell a ∈ o.parts → w'.store.optionsAt a = w.store.optionsAt a) :
    w'.shown o = w.shown o := by
  cases o with
  | value x => exact congrArg Shown.value (read x (List.mem_singleton_self x))
  | draft d =>
      have first := read d.clientSettings List.mem_cons_self
      have second := read d.tokenSettings (List.mem_cons_of_mem _ List.mem_cons_self)
      simp only [shown, HeldDraft.current, first, second]
  | client c =>
      have first := options c.clientSettings List.mem_cons_self
      have second := options c.tokenSettings (List.mem_cons_of_mem _ List.mem_cons_self)
      simp only [shown, HeldClient.current, first, second]
  | settingsDraft kind a =>
      have same := options a (List.mem_singleton_self _)
      simp only [shown, same]
  | snapshot fields =>
      refine congrArg Shown.snapshot (List.map_congr_left fun f listed => ?_)
      rw [read f.2 (List.mem_map_of_mem listed)]
  | row fields =>
      refine congrArg Shown.row (List.map_congr_left fun f listed => ?_)
      rw [read f.2 (List.mem_map_of_mem listed)]
  | registry r => rfl
  | database t => rfl

/-- The second workspace has the cells and the objects of the first, and perhaps more. -/
structure Extends (w w' : Workspace) : Prop where
  store : w.store.Extends w'.store
  objects : ∀ (i : Handle) (o : Object), w.objects[i]? = some o → w'.objects[i]? = some o

namespace Extends

theorem refl (w : Workspace) : w.Extends w := ⟨.refl _, fun _ _ => id⟩

theorem of_store (store : w.store.Extends w'.store) (objects : w'.objects = w.objects) :
    w.Extends w' :=
  ⟨store, fun _ _ present => objects ▸ present⟩

theorem insert (h : w.Extends w') (o : Object) : w.Extends (w'.insert o).1 := by
  refine ⟨h.store, fun i o' present => ?_⟩
  have there := h.objects i o' present
  rw [insert_objects, List.getElem?_append_left (List.getElem?_eq_some_iff.mp there).1]
  exact there

theorem unaltered (h : w.Extends w') (grounded : w.holding.Grounded) (inside : i < w.objects.length) :
    w.Unaltered w' i := by
  have present : w.objects[i]? = some w.objects[i] := List.getElem?_eq_getElem inside
  have parts := parts_lt grounded (List.mem_of_getElem? present)
  refine ⟨w.objects[i], present, h.objects i _ present, shown_congr ?_ ?_⟩
  · exact fun x member => h.store.read grounded.ranked (parts x member)
  · exact fun a member => h.store.optionsAt grounded.ranked (parts _ member a rfl)

end Extends

end ClientRegistry.Workspace

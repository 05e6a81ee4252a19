import ClientRegistry.Proofs.Value.Keyed
import ClientRegistry.Settings.Bag

/-! A bag of a dictionary holds the entries of the dictionary, in their order. -/

namespace ClientRegistry

namespace Entries

variable {α : Type} {es fs : List (Value × α)} {k : Value} {a : α}

theorem put_of_absent (h : ∀ e ∈ es, k.same e.1 = false) : put es k a = es ++ [(k, a)] := by
  induction es with
  | nil => rfl
  | cons e rest ih =>
      rw [List.forall_mem_cons] at h
      simp only [put, h.1, Bool.false_eq_true, if_false, ih h.2, List.cons_append]

/-- A key that no entry has yet is stored at the end. -/
theorem put_of_keyed (h : Keyed (es ++ (k, a) :: fs)) : put es k a = es ++ [(k, a)] := by
  have text : k.IsText := h.texts (k, a) (by simp)
  refine put_of_absent fun e member => ?_
  have ne : e.1 ≠ k := by
    have distinct := h.distinct
    rw [List.map_append, List.nodup_append] at distinct
    exact distinct.2.2 e.1 (List.mem_map.mpr ⟨e, member, rfl⟩) k (by simp)
  rw [← Bool.not_eq_true, text.same_iff]
  exact ne

/-- Storing keyed entries one after the other lists them in their order. -/
theorem putAll_of_keyed (h : Keyed (es ++ fs)) : Edit.putAll es (fs.map .ok) = (es ++ fs, none) := by
  induction fs generalizing es with
  | nil => simp [Edit.putAll]
  | cons f rest ih =>
      obtain ⟨k, a⟩ := f
      have text : k.IsText := h.texts (k, a) (by simp)
      simp only [List.map_cons, Edit.putAll, text.hashable, if_true, put_of_keyed h]
      rw [List.append_cons] at h
      rw [ih h, ← List.append_cons]

theorem foldl_put_of_keyed (h : Keyed (es ++ fs)) :
    fs.foldl (fun es e => put es e.1 e.2) es = es ++ fs := by
  induction fs generalizing es with
  | nil => exact (List.append_nil es).symm
  | cons f rest ih =>
      rw [List.foldl_cons, put_of_keyed h]
      rw [List.append_cons] at h
      rw [ih h, ← List.append_cons]

theorem ofList_of_keyed (h : Keyed es) : ofList es = es :=
  foldl_put_of_keyed h

/-- Gathering leaves one entry for each text, with one of the values given for it. -/
theorem foldl_put_keyed {P : α → Prop} (h : Keyed es) (values : ∀ e ∈ es, P e.2)
    (given : ∀ f ∈ fs, f.1.IsText ∧ P f.2) :
    Keyed (fs.foldl (fun es e => put es e.1 e.2) es) ∧
      ∀ e ∈ fs.foldl (fun es e => put es e.1 e.2) es, P e.2 := by
  induction fs generalizing es with
  | nil => exact ⟨h, values⟩
  | cons f rest ih =>
      rw [List.forall_mem_cons] at given
      refine ih (h.put given.1.1 f.2) (fun e member => ?_) given.2
      rcases (mem_put h).mp member with rfl | ⟨old, _⟩
      · exact given.1.2
      · exact values e old

theorem ofList_keyed {P : α → Prop} (given : ∀ e ∈ es, e.1.IsText ∧ P e.2) :
    Keyed (ofList es) ∧ ∀ e ∈ ofList es, P e.2 :=
  foldl_put_keyed Keyed.nil (fun _ member => absurd member List.not_mem_nil) given

end Entries

theorem Bag.ofMapping_dict {kind : BagKind} {es : Options} (h : Entries.Keyed es) :
    ofMapping kind (.dict es) = .ok ⟨kind, es⟩ := by
  cases es with
  | nil => rfl
  | cons e rest =>
      have stored : Edit.putAll [] ((e :: rest).map .ok) = (e :: rest, none) :=
        Entries.putAll_of_keyed h
      simp only [ofMapping, optionsOf, entriesFrom, Child.value, Child.entriesOf, id, Value.truthy,
        List.isEmpty_cons, Bool.not_false, if_true, List.map_cons] at stored ⊢
      simp [stored, bind, Except.bind, Except.map]

end ClientRegistry

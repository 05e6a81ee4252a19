import ClientRegistry.Proofs.Value.Kinds
import Mathlib.Data.List.Nodup

/-! Entries with texts for keys. With distinct keys a look-up is membership, and storing and
erasing change the entries of one key only. -/

namespace ClientRegistry.Entries

variable {α : Type} {es : List (Value × α)} {e : Value × α} {k : Value} {a : α}

structure Keyed (es : List (Value × α)) : Prop where
  texts : ∀ e ∈ es, e.1.IsText
  distinct : (es.map Prod.fst).Nodup

theorem Keyed.nil : Keyed ([] : List (Value × α)) :=
  ⟨fun _ member => absurd member List.not_mem_nil, List.nodup_nil⟩

theorem Keyed.tail {e : Value × α} (h : Keyed (e :: es)) : Keyed es :=
  ⟨fun x member => h.texts x (List.mem_cons_of_mem e member), (List.nodup_cons.mp h.distinct).2⟩

theorem Keyed.head_text {e : Value × α} (h : Keyed (e :: es)) : e.1.IsText :=
  h.texts e List.mem_cons_self

theorem Keyed.head_notin {e : Value × α} (h : Keyed (e :: es)) : ∀ b, (e.1, b) ∉ es :=
  fun _ member => (List.nodup_cons.mp h.distinct).1 (List.mem_map.mpr ⟨_, member, rfl⟩)

theorem Keyed.unique {b : α} (h : Keyed es) (ha : (k, a) ∈ es) (hb : (k, b) ∈ es) : a = b := by
  induction es with
  | nil => cases ha
  | cons e rest ih =>
      rcases List.mem_cons.mp ha with rfl | ha'
      · rcases List.mem_cons.mp hb with same | hb'
        · exact (Prod.mk.inj same).2.symm
        · exact absurd hb' (h.head_notin b)
      · rcases List.mem_cons.mp hb with rfl | hb'
        · exact absurd ha' (h.head_notin a)
        · exact ih h.tail ha' hb'

theorem find?_eq_some (h : Keyed es) : find? es k = some a ↔ (k, a) ∈ es := by
  induction es with
  | nil => simp [find?]
  | cons e rest ih =>
      obtain ⟨l, b⟩ := e
      have rest_iff := ih h.tail
      simp only [find?, List.find?_cons, List.mem_cons, Prod.mk.injEq] at rest_iff ⊢
      cases same : k.same l with
      | true =>
          have eq : k = l := h.head_text.iff_same.mp same
          subst eq
          simp only [Option.map_some, Option.some.injEq, true_and]
          constructor
          · rintro rfl
            exact .inl rfl
          · rintro (rfl | member)
            · rfl
            · exact absurd member (h.head_notin a)
      | false =>
          have ne : k ≠ l := fun eq => by simp [h.head_text.iff_same.mpr eq] at same
          simp [ne, rest_iff]

theorem find?_eq_none (h : Keyed es) : find? es k = none ↔ ∀ a, (k, a) ∉ es := by
  rw [Option.eq_none_iff_forall_ne_some]
  exact forall_congr' fun a => not_congr (find?_eq_some h)

/-- After a text is stored, a look-up of it finds what was stored. -/
theorem find?_put {l : Value} (hk : k.IsText) :
    find? (put es k a) l = if l.same k then some a else find? es l := by
  induction es with
  | nil => cases same : l.same k <;> simp [put, find?, same]
  | cons e rest ih =>
      simp only [put]
      by_cases here : k.same e.1 = true
      · have eq := hk.same_iff.mp here
        rw [if_pos here]
        cases same : l.same k <;> simp [find?, eq, same]
      · rw [if_neg here]
        cases same : l.same e.1 with
        | true =>
            have other : ¬l.same k = true := fun hit => by
              rw [hk.iff_same.mp hit] at same
              exact here same
            simp [find?, same, other]
        | false =>
            simp only [find?, List.find?_cons, same] at ih ⊢
            exact ih

theorem keys_put (hk : k.IsText) :
    (put es k a).map Prod.fst = es.map Prod.fst ∨
      k ∉ es.map Prod.fst ∧ (put es k a).map Prod.fst = es.map Prod.fst ++ [k] := by
  induction es with
  | nil => exact .inr ⟨List.not_mem_nil, rfl⟩
  | cons e rest ih =>
      simp only [put]
      by_cases same : k.same e.1 = true
      · rw [if_pos same]
        exact .inl rfl
      · have ne : k ≠ e.1 := fun eq => same (hk.same_iff.mpr eq.symm)
        rw [if_neg same]
        simp only [List.map_cons, List.mem_cons, ne, false_or, List.cons_append]
        rcases ih with kept | ⟨absent, added⟩
        · exact .inl (by rw [kept])
        · exact .inr ⟨absent, by rw [added]⟩

theorem mem_put (h : Keyed es) :
    e ∈ put es k a ↔ e = (k, a) ∨ e ∈ es ∧ e.1 ≠ k := by
  induction es with
  | nil => simp [put]
  | cons x rest ih =>
      simp only [put]
      by_cases same : k.same x.1 = true
      · have eq : x.1 = k := (h.head_text.iff_same.mp same).symm
        have absent : ∀ y ∈ rest, y.1 ≠ k := fun y member other =>
          h.head_notin y.2 (by rw [eq, ← other]; exact member)
        rw [if_pos same]
        simp only [List.mem_cons, eq]
        constructor
        · rintro (rfl | member)
          · exact .inl rfl
          · exact .inr ⟨.inr member, absent e member⟩
        · rintro (rfl | ⟨rfl | member, ne⟩)
          · exact .inl rfl
          · exact absurd eq ne
          · exact .inr member
      · have ne : x.1 ≠ k := fun eq => same (h.head_text.iff_same.mpr eq.symm)
        rw [if_neg same]
        simp only [List.mem_cons, ih h.tail]
        constructor
        · rintro (rfl | rfl | ⟨member, other⟩)
          · exact .inr ⟨.inl rfl, ne⟩
          · exact .inl rfl
          · exact .inr ⟨.inr member, other⟩
        · rintro (rfl | ⟨rfl | member, other⟩)
          · exact .inr (.inl rfl)
          · exact .inl rfl
          · exact .inr (.inr ⟨member, other⟩)

theorem Keyed.put (h : Keyed es) (hk : k.IsText) (a : α) : Keyed (put es k a) := by
  constructor
  · intro e member
    rcases (mem_put h).mp member with rfl | ⟨old, _⟩
    · exact hk
    · exact h.texts e old
  · rcases keys_put hk with kept | ⟨absent, added⟩
    · rw [kept]
      exact h.distinct
    · rw [added]
      refine List.nodup_append.mpr ⟨h.distinct, by simp, fun x member y single => ?_⟩
      rw [List.mem_singleton.mp single]
      rintro rfl
      exact absent member

theorem mem_erase (hk : k.IsText) : e ∈ erase es k ↔ e ∈ es ∧ e.1 ≠ k := by
  rw [erase, List.mem_filter]
  refine and_congr_right ?_
  intro _
  rw [Bool.not_eq_true', ← Bool.not_eq_true, hk.same_iff]

theorem Keyed.erase (h : Keyed es) (k : Value) : Keyed (erase es k) :=
  ⟨fun e member => h.texts e ((List.mem_filter.mp member).1),
    h.distinct.sublist (List.filter_sublist.map Prod.fst)⟩

variable {key : α → Value}

theorem mem_values (told : ∀ e ∈ es, e.1 = key e.2) : a ∈ es.map Prod.snd ↔ (key a, a) ∈ es := by
  rw [List.mem_map]
  constructor
  · rintro ⟨e, member, rfl⟩
    rw [← told e member]
    exact member
  · exact fun member => ⟨_, member, rfl⟩

/-- Under distinct keys no such value stands twice. -/
theorem nodup_values (told : ∀ e ∈ es, e.1 = key e.2) (distinct : (es.map Prod.fst).Nodup) :
    (es.map Prod.snd).Nodup := by
  have keys : es.map Prod.fst = (es.map Prod.snd).map key := by
    rw [List.map_map]
    exact List.map_congr_left told
  rw [keys] at distinct
  exact List.Nodup.of_map key distinct

end ClientRegistry.Entries

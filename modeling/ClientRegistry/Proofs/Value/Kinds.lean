import ClientRegistry.Value.Basic

/-! Sameness of values, and the types of values that registrations are made of. Every value is the
same as itself, a not-a-number included, and so are two sets that list the same members, whatever
their order; a text is the same as itself only. -/

namespace ClientRegistry

theorem Binary64.same_refl (x : Binary64) : x.same x = true := by
  cases x <;> simp [same]

theorem Moment.same_refl (m : Moment) : m.same m = true := by
  simp [same]

namespace Value

mutual

theorem same_refl : ∀ v : Value, v.same v = true
  | .null => by simp [same, sameLeaf]
  | .bool b => by simp [same, sameLeaf, integer?]
  | .int n => by simp [same, sameLeaf, integer?]
  | .real x => by simp [same, sameLeaf, Binary64.same_refl]
  | .text s => by simp [same, sameLeaf]
  | .bytes bs => by simp [same, sameLeaf]
  | .moment m => by simp [same, sameLeaf, Moment.same_refl]
  | .token kind name => by simp [same, same_refl name]
  | .bag kind es => by simp [same, allEntries_of_subset es es (fun _ h => h)]
  | .list xs => by simp [same, sameList_refl xs]
  | .tuple xs => by simp [same, sameList_refl xs]
  | .set xs => by simp [same, allMembers_of_subset xs xs (fun _ h => h)]
  | .frozen xs => by simp [same, allMembers_of_subset xs xs (fun _ h => h)]
  | .dict es => by simp [same, allEntries_of_subset es es (fun _ h => h)]

theorem sameList_refl : ∀ xs : List Value, sameList xs xs = true
  | [] => by simp [sameList]
  | x :: xs => by simp [sameList, same_refl x, sameList_refl xs]

theorem allMembers_of_subset : ∀ xs ys : List Value, xs ⊆ ys → allMembers xs ys = true
  | [], _, _ => by simp [allMembers]
  | x :: xs, ys, h => by
      have here : ys.any (fun y => x.same y) = true :=
        List.any_eq_true.mpr ⟨x, h List.mem_cons_self, same_refl x⟩
      simp [allMembers, here, allMembers_of_subset xs ys fun y m => h (List.mem_cons_of_mem x m)]

theorem allEntries_of_subset :
    ∀ es fs : List (Value × Value), es ⊆ fs → allEntries es fs = true
  | [], _, _ => by simp [allEntries]
  | (k, v) :: es, fs, h => by
      have here : fs.any (fun f => k.same f.1 && v.same f.2) = true :=
        List.any_eq_true.mpr ⟨(k, v), h List.mem_cons_self, by simp [same_refl k, same_refl v]⟩
      simp [allEntries, here, allEntries_of_subset es fs fun f m => h (List.mem_cons_of_mem _ m)]

end

theorem frozen_same_of_perm {xs ys : List Value} (h : xs.Perm ys) :
    (frozen xs).same (.frozen ys) = true := by
  simp [same, h.length_eq, allMembers_of_subset xs ys h.subset]

end Value

def Value.IsText (v : Value) : Prop := ∃ s, v = .text s

def Value.IsMoment (v : Value) : Prop := ∃ m, v = .moment m

def Value.IsToken (kind : TokenKind) (v : Value) : Prop := ∃ s, v = .token kind (.text s)

instance (v : Value) : Decidable v.IsText :=
  match v with
  | .text s => isTrue ⟨s, rfl⟩
  | .null | .bool _ | .int _ | .real _ | .bytes _ | .moment _ | .token _ _ | .bag _ _ | .list _
  | .tuple _ | .set _ | .frozen _ | .dict _ => isFalse (by rintro ⟨s, h⟩; cases h)

instance (v : Value) : Decidable v.IsMoment :=
  match v with
  | .moment m => isTrue ⟨m, rfl⟩
  | .null | .bool _ | .int _ | .real _ | .text _ | .bytes _ | .token _ _ | .bag _ _ | .list _
  | .tuple _ | .set _ | .frozen _ | .dict _ => isFalse (by rintro ⟨m, h⟩; cases h)

instance (kind : TokenKind) (v : Value) : Decidable (v.IsToken kind) :=
  match v with
  | .token k name =>
      decidable_of_iff (k = kind ∧ name.IsText) (by
        constructor
        · rintro ⟨rfl, s, rfl⟩
          exact ⟨s, rfl⟩
        · rintro ⟨s, h⟩
          cases h
          exact ⟨rfl, s, rfl⟩)
  | .null | .bool _ | .int _ | .real _ | .text _ | .bytes _ | .moment _ | .bag _ _ | .list _
  | .tuple _ | .set _ | .frozen _ | .dict _ => isFalse (by rintro ⟨s, h⟩; cases h)

theorem Value.isNull_iff {v : Value} : v.isNull = true ↔ v = .null := by
  cases v <;> simp [isNull]

instance (v : Value) : Decidable (v = .null) := decidable_of_iff _ Value.isNull_iff

namespace Value

@[simp] theorem same_text {v : Value} {s : String} : v.same (.text s) = true ↔ v = .text s := by
  cases v <;> simp [same, sameLeaf, integer?]

@[simp] theorem text_same {v : Value} {s : String} : (text s).same v = true ↔ v = .text s := by
  cases v with
  | text t =>
      simp only [same, sameLeaf, beq_iff_eq, text.injEq]
      exact eq_comm
  | _ => simp [same, sameLeaf, integer?]

theorem IsText.same_iff {v w : Value} (h : v.IsText) : v.same w = true ↔ w = v := by
  obtain ⟨s, rfl⟩ := h
  exact text_same

theorem IsText.iff_same {v w : Value} (h : w.IsText) : v.same w = true ↔ v = w := by
  obtain ⟨s, rfl⟩ := h
  exact same_text

theorem IsText.equal_iff {v w : Value} (h : w.IsText) : v.equal w = true ↔ v = w := by
  obtain ⟨s, rfl⟩ := h
  simp only [equal, Bool.and_eq_true, same_text]
  constructor
  · exact And.left
  · rintro rfl
    exact ⟨rfl, rfl⟩

theorem IsText.hashable {v : Value} (h : v.IsText) : v.hashable = true := by
  obtain ⟨s, rfl⟩ := h
  rfl

end Value

end ClientRegistry

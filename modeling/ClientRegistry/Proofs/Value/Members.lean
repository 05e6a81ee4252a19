import ClientRegistry.Proofs.Value.Kinds

/-! Sets of values that are the same only if they are equal, as texts and tokens of texts are:
gathering such a list keeps it as it stands unless it repeats a member. -/

namespace ClientRegistry.Value

variable {xs ys : List Value} {v w : Value}

/-- Only equal members are the same. -/
def Plain (xs : List Value) : Prop := ∀ v ∈ xs, ∀ w ∈ xs, v.same w = true → v = w

theorem IsToken.eq_of_same {kind : TokenKind} (h : v.IsToken kind) (hw : w.IsToken kind)
    (same : v.same w = true) : v = w := by
  obtain ⟨s, rfl⟩ := h
  obtain ⟨t, rfl⟩ := hw
  simp only [Value.same, sameLeaf, Bool.and_eq_true, beq_iff_eq] at same
  rw [same.2]

theorem plain_of_texts (h : ∀ v ∈ xs, v.IsText) : Plain xs :=
  fun v hv _ _ same => ((h v hv).same_iff.mp same).symm

theorem plain_of_tokens {kind : TokenKind} (h : ∀ v ∈ xs, v.IsToken kind) : Plain xs :=
  fun v hv w hw same => (h v hv).eq_of_same (h w hw) same

theorem memberOf_perm (h : xs.Perm ys) : v.memberOf xs = v.memberOf ys := by
  rw [Bool.eq_iff_iff, memberOf, memberOf, List.any_eq_true, List.any_eq_true]
  exact exists_congr fun w => and_congr_left' h.mem_iff

theorem foldl_insertMember (plain : Plain (xs ++ ys)) (distinct : (xs ++ ys).Nodup) :
    ys.foldl insertMember xs = xs ++ ys := by
  induction ys generalizing xs with
  | nil => simp
  | cons y rest ih =>
      have absent : y ∉ xs := fun member =>
        (List.nodup_append.mp distinct).2.2 y member y List.mem_cons_self rfl
      have new : y.memberOf xs = false := by
        rw [memberOf, List.any_eq_false]
        intro z member same
        have eq := plain y (by simp) z (List.mem_append_left _ member) same
        exact absent (eq ▸ member)
      rw [List.append_cons] at plain distinct
      simp only [List.foldl_cons, insertMember, new, Bool.false_eq_true, if_false]
      rw [ih plain distinct, List.append_cons xs y rest]

theorem toMembers_of_nodup (plain : Plain xs) (distinct : xs.Nodup) : toMembers xs = xs := by
  rw [← List.nil_append xs] at plain distinct
  exact foldl_insertMember plain distinct

theorem mem_of_mem_insertMember (h : v ∈ insertMember xs w) : v ∈ xs ∨ v = w := by
  simp only [insertMember] at h
  split at h
  · exact .inl h
  · simpa using h

theorem nodup_insertMember (once : xs.Nodup) : (insertMember xs v).Nodup := by
  simp only [insertMember]
  split
  · exact once
  next absent =>
    refine List.nodup_append.mpr ⟨once, by simp, fun w member x single => ?_⟩
    rw [List.mem_singleton.mp single]
    rintro rfl
    exact absent (List.any_eq_true.mpr ⟨w, member, same_refl w⟩)

/-- Gathering lists each member once, and nothing that was not given. -/
theorem foldl_insertMember_spec (once : xs.Nodup) :
    (ys.foldl insertMember xs).Nodup ∧ ∀ v ∈ ys.foldl insertMember xs, v ∈ xs ∨ v ∈ ys := by
  induction ys generalizing xs with
  | nil => exact ⟨once, fun v member => .inl member⟩
  | cons y rest ih =>
      obtain ⟨once', given⟩ := ih (nodup_insertMember (v := y) once)
      refine ⟨once', fun v member => ?_⟩
      rcases given v member with old | new
      · rcases mem_of_mem_insertMember old with old | rfl
        · exact .inl old
        · exact .inr List.mem_cons_self
      · exact .inr (List.mem_cons_of_mem y new)

theorem nodup_toMembers (xs : List Value) : (toMembers xs).Nodup :=
  (foldl_insertMember_spec List.nodup_nil).1

theorem mem_of_mem_toMembers (h : v ∈ toMembers xs) : v ∈ xs :=
  ((foldl_insertMember_spec List.nodup_nil).2 v h).resolve_left List.not_mem_nil

theorem mem_insertMember_of_plain (plain : Plain (xs ++ w :: ys)) (h : v ∈ xs ∨ v = w) :
    v ∈ insertMember xs w := by
  simp only [insertMember]
  split
  next present =>
    obtain ⟨x, member, same⟩ := List.any_eq_true.mp present
    have eq := plain w (by simp) x (List.mem_append_left _ member) same
    rcases h with old | rfl
    · exact old
    · exact eq ▸ member
  · simpa using h

/-- Gathering drops nothing but what is the same as a member, which for plain lists is equal. -/
theorem mem_foldl_insertMember (plain : Plain (xs ++ ys)) (h : v ∈ xs ∨ v ∈ ys) :
    v ∈ ys.foldl insertMember xs := by
  induction ys generalizing xs with
  | nil => simpa using h
  | cons y rest ih =>
      refine ih (fun a ha b hb => ?_) ?_
      · have given : ∀ c ∈ insertMember xs y ++ rest, c ∈ xs ++ y :: rest := by
          intro c member
          rcases List.mem_append.mp member with old | later
          · rcases mem_of_mem_insertMember old with old | rfl <;> simp [*]
          · simp [later]
        exact plain a (given a ha) b (given b hb)
      · rcases h with old | new
        · exact .inl (mem_insertMember_of_plain plain (.inl old))
        · rcases List.mem_cons.mp new with rfl | later
          · exact .inl (mem_insertMember_of_plain plain (.inr rfl))
          · exact .inr later

theorem mem_toMembers (plain : Plain xs) : v ∈ toMembers xs ↔ v ∈ xs :=
  ⟨mem_of_mem_toMembers, fun member => mem_foldl_insertMember plain (.inr member)⟩

/-- Plain lists of the same members are gathered to the same set. -/
theorem toMembers_perm (hx : Plain xs) (hy : Plain ys) (same : ∀ v, v ∈ xs ↔ v ∈ ys) :
    (toMembers xs).Perm (toMembers ys) := by
  refine (List.perm_ext_iff_of_nodup (nodup_toMembers xs) (nodup_toMembers ys)).mpr fun v => ?_
  rw [mem_toMembers hx, mem_toMembers hy, same v]

end ClientRegistry.Value

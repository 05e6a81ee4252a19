import ClientRegistry.Proofs.Value.Edited
import ClientRegistry.Proofs.Value.Equality
import ClientRegistry.Proofs.Value.Members
import ClientRegistry.Value.Edit.Members

/-! Listings of one set. Sets that are the same may list their members in another order and spell
them in another way. An edit leaves them the same and fails on both or on neither, whatever its
method, but for the one that takes out whichever member comes first. -/

namespace ClientRegistry

namespace Value

variable {xs ys zs : List Value} {v w : Value}

/-- Two listings of one set. -/
structure SameMembers (xs ys : List Value) : Prop where
  left : (frozen xs).Proper
  right : (frozen ys).Proper
  same : (frozen xs).same (.frozen ys) = true

theorem Proper.same_symm (hv : v.Proper) (hw : w.Proper) : v.same w = w.same v := by
  rw [Bool.eq_iff_iff]
  exact ⟨hv.lawful.symm w hw, hw.lawful.symm v hv⟩

/-- What is the same as one of two values that are the same is the same as the other. -/
theorem Proper.same_congr {a : Value} (ha : a.Proper) (hv : v.Proper) (hw : w.Proper)
    (alike : v.same w = true) : a.same v = a.same w := by
  rw [Bool.eq_iff_iff]
  exact ⟨fun same => ha.lawful.trans v w hv hw same alike,
    fun same => ha.lawful.trans w v hw hv same (hv.lawful.symm w hw alike)⟩

theorem proper_filter {p : Value → Bool} (h : (frozen xs).Proper) :
    (frozen (xs.filter p)).Proper := by
  obtain ⟨apart, proper⟩ := proper_frozen_iff.mp h
  have part : xs.filter p ⊆ xs := List.filter_subset_self _
  exact .frozen
    ⟨fun v member => apart.hashable v (part member), apart.distinct.sublist List.filter_sublist⟩
    fun v member => proper v (part member)

theorem proper_append (h : (frozen xs).Proper) (hv : v.Proper) (hashable : v.hashable = true)
    (absent : v.memberOf xs = false) : (frozen (xs ++ [v])).Proper := by
  obtain ⟨apart, proper⟩ := proper_frozen_iff.mp h
  rw [memberOf, List.any_eq_false] at absent
  refine .frozen ⟨?_, ?_⟩ ?_
  · exact List.forall_mem_append.mpr ⟨apart.hashable, List.forall_mem_singleton.mpr hashable⟩
  · refine List.pairwise_append.mpr ⟨apart.distinct, List.pairwise_singleton _ _, ?_⟩
    intro x member y last
    rw [List.mem_singleton.mp last, (proper x member).same_symm hv]
    exact Bool.eq_false_iff.mpr (absent x member)
  · exact List.forall_mem_append.mpr ⟨proper, List.forall_mem_singleton.mpr hv⟩

theorem Apart.nodup (apart : Apart xs) : xs.Nodup :=
  apart.distinct.imp fun {x y} distinct equal => by
    rw [equal, same_refl] at distinct
    cases distinct

theorem exact_null : Exact .null := by
  intro w same
  cases w <;> simp [Value.same, sameLeaf, integer?] at same ⊢

theorem eq_of_forall₂_exact (exact : ∀ x ∈ xs, x.Exact)
    (all : List.Forall₂ (fun x y => x.same y = true) xs ys) : ys = xs := by
  induction all with
  | nil => rfl
  | cons same _ ih =>
      rw [List.forall_mem_cons] at exact
      rw [exact.1 _ same, ih exact.2]

namespace SameMembers

theorem refl (h : (frozen xs).Proper) : SameMembers xs xs := ⟨h, h, same_refl _⟩

theorem symm (h : SameMembers xs ys) : SameMembers ys xs :=
  ⟨h.right, h.left, h.left.lawful.symm _ h.right h.same⟩

theorem trans (h : SameMembers xs ys) (h' : SameMembers ys zs) : SameMembers xs zs :=
  ⟨h.left, h'.right, h.left.lawful.trans _ _ h.right h'.right h.same h'.same⟩

theorem length_eq (h : SameMembers xs ys) : xs.length = ys.length := by
  obtain ⟨_, members, length, -⟩ := (same_members_iff rfl).mp h.same
  cases members
  exact length

theorem isEmpty_eq (h : SameMembers xs ys) : xs.isEmpty = ys.isEmpty := by
  rw [Bool.eq_iff_iff, List.isEmpty_iff_length_eq_zero, List.isEmpty_iff_length_eq_zero,
    h.length_eq]

theorem exists_same (h : SameMembers xs ys) (member : v ∈ xs) : ∃ w ∈ ys, v.same w = true := by
  obtain ⟨_, members, -, total⟩ := (same_members_iff rfl).mp h.same
  cases members
  exact total v member

theorem matched (h : SameMembers xs ys) : Matched (fun v w => v.same w = true) xs ys := by
  obtain ⟨apart, proper⟩ := proper_frozen_iff.mp h.left
  exact matched_members apart (fun v member => (proper v member).lawful) proper
    (proper_frozen_iff.mp h.right).2 h.length_eq fun _ => h.exists_same

theorem of_matched (left : (frozen xs).Proper) (right : (frozen ys).Proper)
    (matched : Matched (fun v w => v.same w = true) xs ys) : SameMembers xs ys :=
  ⟨left, right, (same_members_iff rfl).mpr
    ⟨ys, rfl, matched.length_eq, fun _ member => matched.exists_right member⟩⟩

/-- Members that only they themselves are the same as are members of both. -/
theorem mem_of_exact (h : SameMembers xs ys) (exact : ∀ v ∈ xs, v.Exact) (member : w ∈ ys) :
    w ∈ xs := by
  obtain ⟨v, listed, same⟩ := h.symm.exists_same member
  have back : v.same w = true :=
    ((proper_frozen_iff.mp h.right).2 w member).lawful.symm v
      ((proper_frozen_iff.mp h.left).2 v listed) same
  exact exact v listed w back ▸ listed

theorem memberOf_eq (h : SameMembers xs ys) (hv : v.Proper) : v.memberOf xs = v.memberOf ys := by
  have into : ∀ {xs ys}, SameMembers xs ys → v.memberOf xs = true → v.memberOf ys = true := by
    intro xs ys h member
    obtain ⟨x, listed, same⟩ := List.any_eq_true.mp member
    obtain ⟨y, listed', alike⟩ := h.exists_same listed
    have hx := (proper_frozen_iff.mp h.left).2 x listed
    have hy := (proper_frozen_iff.mp h.right).2 y listed'
    exact List.any_eq_true.mpr ⟨y, listed', hv.lawful.trans x y hx hy same alike⟩
  rw [Bool.eq_iff_iff]
  exact ⟨into h, into h.symm⟩

theorem filter {p : Value → Bool} (h : SameMembers xs ys)
    (congr : ∀ v w : Value, v.Proper → w.Proper → v.same w = true → p v = p w) :
    SameMembers (xs.filter p) (ys.filter p) := by
  refine of_matched (proper_filter h.left) (proper_filter h.right) (h.matched.filter_of ?_)
  intro x hx y hy
  exact congr x y ((proper_frozen_iff.mp h.left).2 x hx) ((proper_frozen_iff.mp h.right).2 y hy)

theorem append (h : SameMembers xs ys) (hv : v.Proper) (hashable : v.hashable = true)
    (absent : v.memberOf xs = false) : SameMembers (xs ++ [v]) (ys ++ [v]) := by
  have absent' : v.memberOf ys = false := h.memberOf_eq hv ▸ absent
  refine of_matched (proper_append h.left hv hashable absent)
    (proper_append h.right hv hashable absent') ?_
  obtain ⟨us, all, perm⟩ := h.matched
  exact ⟨us ++ [v], List.rel_append all (.cons (same_refl v) .nil), perm.append_right [v]⟩

theorem insertMember (h : SameMembers xs ys) (hv : v.Proper) (hashable : v.hashable = true) :
    SameMembers (insertMember xs v) (insertMember ys v) := by
  simp only [Value.insertMember, h.memberOf_eq hv]
  split
  · exact h
  next absent => exact h.append hv hashable (h.memberOf_eq hv ▸ Bool.eq_false_iff.mpr absent)

theorem eraseMember (h : SameMembers xs ys) (hv : v.Proper) :
    SameMembers (eraseMember xs v) (eraseMember ys v) :=
  h.filter fun _ _ hx hy alike => congrArg not (hv.same_congr hx hy alike)

theorem toggle (h : SameMembers xs ys) (hv : v.Proper) (hashable : v.hashable = true) :
    SameMembers (Edit.toggle xs v) (Edit.toggle ys v) := by
  simp only [Edit.toggle, h.memberOf_eq hv]
  split
  · exact h.eraseMember hv
  next absent => exact h.append hv hashable (h.memberOf_eq hv ▸ Bool.eq_false_iff.mpr absent)

end SameMembers

theorem proper_insertMember (h : (frozen xs).Proper) (hv : v.Proper) (hashable : v.hashable = true) :
    (frozen (insertMember xs v)).Proper :=
  ((SameMembers.refl h).insertMember hv hashable).left

theorem insertMember_of_present (present : v.memberOf xs = true) : insertMember xs v = xs := by
  rw [insertMember, if_pos present]

theorem insertMember_of_absent (absent : v.memberOf xs = false) :
    insertMember xs v = xs ++ [v] := by
  rw [insertMember, absent, if_neg Bool.false_ne_true]

theorem memberOf_append_singleton (xs : List Value) (v w : Value) :
    v.memberOf (xs ++ [w]) = (v.memberOf xs || v.same w) := by
  simp [memberOf]

theorem memberOf_insertMember_of_present (present : v.memberOf xs = true) :
    v.memberOf (insertMember xs w) = true := by
  rw [insertMember]
  split
  · exact present
  · rw [memberOf_append_singleton, present, Bool.true_or]

theorem memberOf_insertMember_self : v.memberOf (insertMember xs v) = true := by
  cases present : v.memberOf xs with
  | true => exact memberOf_insertMember_of_present present
  | false =>
      rw [insertMember_of_absent present, memberOf_append_singleton, same_refl, Bool.or_true]

/-- Two members join a set in either order. Of members that are the same the first one stays. -/
theorem SameMembers.insert_comm (h : (frozen xs).Proper) (hv : v.Proper) (hw : w.Proper)
    (hashable : v.hashable = true) (hashable' : w.hashable = true) :
    SameMembers (Value.insertMember (Value.insertMember xs v) w)
      (Value.insertMember (Value.insertMember xs w) v) := by
  have joined := proper_insertMember h hv hashable
  have joined' := proper_insertMember h hw hashable'
  cases first : v.memberOf xs with
  | true =>
      rw [insertMember_of_present first,
        insertMember_of_present (memberOf_insertMember_of_present first)]
      exact .refl joined'
  | false =>
      cases second : w.memberOf xs with
      | true =>
          rw [insertMember_of_present second,
            insertMember_of_present (memberOf_insertMember_of_present second)]
          exact .refl joined
      | false =>
          have back : w.same v = v.same w := hw.same_symm hv
          cases alike : v.same w with
          | true =>
              rw [insertMember_of_absent first] at joined ⊢
              rw [insertMember_of_absent second] at joined' ⊢
              rw [insertMember_of_present (by simp [memberOf_append_singleton, back, alike]),
                insertMember_of_present (by simp [memberOf_append_singleton, alike])]
              have kept : List.Forall₂ (fun v w : Value => v.same w = true) xs xs :=
                List.forall₂_same.mpr fun x _ => same_refl x
              exact .of_matched joined joined'
                ⟨_, List.rel_append kept (.cons alike .nil), .refl _⟩
          | false =>
              refine ⟨proper_insertMember joined hw hashable',
                proper_insertMember joined' hv hashable, frozen_same_of_perm ?_⟩
              rw [insertMember_of_absent first, insertMember_of_absent second,
                insertMember_of_absent (by simp [memberOf_append_singleton, back, alike, second]),
                insertMember_of_absent (by simp [memberOf_append_singleton, alike, first]),
                List.append_assoc, List.append_assoc]
              exact (List.Perm.swap w v []).append_left xs

/-- The items of a proper value are proper. -/
theorem Proper.items (h : v.Proper) (items : v.items? = some xs) : ∀ x ∈ xs, x.Proper := by
  cases h <;> cases items
  case text s => exact List.forall_mem_map.mpr fun c _ => .text _
  case bytes bs => exact List.forall_mem_map.mpr fun b _ => .int _
  case dict apart keys values => exact List.forall_mem_map.mpr keys
  all_goals assumption

end Value

namespace Edit

open Value (SameMembers)

variable {f : List Value → Value → List Value} {xs ys zs found args : List Value} {v : Value}
  {method : Method}

/-- Edits that ended alike: on the same members, and with the same fault. -/
def SameEnd (r r' : Edited (List Value)) : Prop := SameMembers r.1 r'.1 ∧ r.2 = r'.2

/-- Answers for sets that are the same. -/
inductive SameAnswer : Except Fault (List Value) → Except Fault (List Value) → Prop
  | members {us vs : List Value} (same : SameMembers us vs) : SameAnswer (.ok us) (.ok vs)
  | fault (e : Fault) : SameAnswer (.error e) (.error e)

/-- A change by one value that does not tell sets apart that are the same. -/
def Respects (f : List Value → Value → List Value) : Prop :=
  ∀ xs ys v, SameMembers xs ys → v.Proper → v.hashable = true → SameMembers (f xs v) (f ys v)

theorem respects_insertMember : Respects Value.insertMember :=
  fun _ _ _ same proper hashable => same.insertMember proper hashable

theorem respects_eraseMember : Respects Value.eraseMember :=
  fun _ _ _ same proper _ => same.eraseMember proper

theorem respects_toggle : Respects toggle :=
  fun _ _ _ same proper hashable => same.toggle proper hashable

theorem Respects.foldl (h : Respects f) (same : SameMembers xs ys)
    (given : ∀ v ∈ zs, v.Proper ∧ v.hashable = true) :
    SameMembers (zs.foldl f xs) (zs.foldl f ys) := by
  induction zs generalizing xs ys with
  | nil => exact same
  | cons z rest ih =>
      rw [List.forall_mem_cons] at given
      exact ih (h xs ys z same given.1.1 given.1.2) given.2

theorem Respects.eachMember (h : Respects f) (same : SameMembers xs ys)
    (given : ∀ v ∈ zs, v.Proper) : SameEnd (eachMember f xs zs) (eachMember f ys zs) := by
  induction zs generalizing xs ys with
  | nil => exact ⟨same, rfl⟩
  | cons z rest ih =>
      rw [List.forall_mem_cons] at given
      simp only [Edit.eachMember]
      split
      next hashable => exact ih (h xs ys z same given.1 hashable) given.2
      · exact ⟨same, rfl⟩

theorem Respects.eachIterable (h : Respects f) (same : SameMembers xs ys)
    (given : ∀ a ∈ args, a.Proper) : SameEnd (eachIterable f xs args) (eachIterable f ys args) := by
  induction args generalizing xs ys with
  | nil => exact ⟨same, rfl⟩
  | cons a rest ih =>
      rw [List.forall_mem_cons] at given
      cases items : a.items? with
      | none =>
          simp only [Edit.eachIterable, items]
          exact ⟨same, rfl⟩
      | some zs =>
          obtain ⟨gone, fault⟩ := h.eachMember same (given.1.items items)
          simp only [Edit.eachIterable, items]
          generalize Edit.eachMember f xs zs = r at gone fault
          generalize Edit.eachMember f ys zs = r' at gone fault
          obtain ⟨xs', e⟩ := r
          obtain ⟨ys', e'⟩ := r'
          cases fault
          cases e with
          | none => exact ih gone given.2
          | some e => exact ⟨gone, rfl⟩

/-- The walk only asks for membership and for the number of members. -/
theorem sharedFrom_congr (same : SameMembers xs ys) (given : ∀ v ∈ zs, v.Proper) :
    sharedFrom xs found zs = sharedFrom ys found zs := by
  induction zs generalizing found with
  | nil => rfl
  | cons z rest ih =>
      rw [List.forall_mem_cons] at given
      simp only [sharedFrom, same.memberOf_eq given.1, same.length_eq, ih given.2]

theorem proper_sharedFrom {shared : List Value} (h : (Value.frozen found).Proper)
    (given : ∀ v ∈ zs, v.Proper) (done : sharedFrom xs found zs = .ok shared) :
    (Value.frozen shared).Proper := by
  induction zs generalizing found with
  | nil =>
      cases done
      exact h
  | cons z rest ih =>
      rw [List.forall_mem_cons] at given
      simp only [sharedFrom] at done
      split at done
      next hashable =>
        have joined := Value.proper_insertMember h given.1 hashable
        split at done
        · split at done
          · cases done
            exact joined
          · exact ih joined given.2 done
        · exact ih h given.2 done
      · cases done

theorem sharedFrom_same (same : SameMembers xs ys) (given : ∀ v ∈ zs, v.Proper) :
    SameAnswer (sharedFrom xs [] zs) (sharedFrom ys [] zs) := by
  rw [← sharedFrom_congr same given]
  cases done : sharedFrom xs [] zs with
  | error e => exact .fault e
  | ok shared =>
      have none : (Value.frozen []).Proper := by decide
      exact .members (.refl (proper_sharedFrom none given done))

theorem sharedMembers_same (same : SameMembers xs ys) (h : (Value.frozen zs).Proper) :
    SameMembers (sharedMembers xs zs) (sharedMembers ys zs) := by
  have proper := (Value.proper_frozen_iff.mp h).2
  simp only [sharedMembers, same.length_eq]
  split
  · refine same.filter fun v w hv hw alike => ?_
    simp only [Value.memberOf]
    rw [Bool.eq_iff_iff, List.any_eq_true, List.any_eq_true]
    refine exists_congr fun z => and_congr_right fun member => ?_
    rw [hv.same_symm (proper z member), hw.same_symm (proper z member),
      (proper z member).same_congr hv hw alike]
  · have asked : zs.filter (fun z => z.memberOf xs) = zs.filter fun z => z.memberOf ys :=
      List.filter_congr fun z member => same.memberOf_eq (proper z member)
    rw [asked]
    exact .refl (Value.proper_filter h)

theorem shared_of_members (members : v.members? = some zs) :
    shared xs v = .ok (sharedMembers xs zs) := by
  cases v <;> cases members <;> rfl

theorem shared_of_unset (unset : v.members? = none) :
    shared xs v = match v.items? with
      | some zs => sharedFrom xs [] zs
      | none => .error .badType := by
  cases v <;> first | rfl | cases unset

theorem shared_same (same : SameMembers xs ys) (given : v.Proper) :
    SameAnswer (shared xs v) (shared ys v) := by
  cases members : v.members? with
  | some zs =>
      obtain ⟨apart, proper⟩ := given.member members
      rw [shared_of_members members, shared_of_members members]
      exact .members (sharedMembers_same same (.frozen apart proper))
  | none =>
      rw [shared_of_unset members, shared_of_unset members]
      cases items : v.items? with
      | none => exact .fault .badType
      | some zs => exact sharedFrom_same same (given.items items)

theorem foldlM_shared_same (same : SameMembers xs ys) (given : ∀ a ∈ args, a.Proper) :
    SameAnswer (args.foldlM shared xs) (args.foldlM shared ys) := by
  induction args generalizing xs ys with
  | nil => exact .members same
  | cons a rest ih =>
      rw [List.forall_mem_cons] at given
      rw [List.foldlM_cons, List.foldlM_cons]
      have first := shared_same same given.1
      generalize shared xs a = r at first ⊢
      generalize shared ys a = r' at first ⊢
      cases first with
      | members first => exact ih first given.2
      | fault e => exact .fault e

theorem whole_same {r r' : Except Fault (List Value)} (same : SameMembers xs ys)
    (answers : SameAnswer r r') : SameEnd (whole xs r) (whole ys r') := by
  cases answers with
  | members same => exact ⟨same, rfl⟩
  | fault e => exact ⟨same, rfl⟩

theorem symmetric_same (same : SameMembers xs ys) (given : v.Proper) :
    SameAnswer ((membersOf v).map fun zs => (Value.toMembers zs).foldl toggle xs)
      ((membersOf v).map fun zs => (Value.toMembers zs).foldl toggle ys) := by
  cases members : membersOf v with
  | error e => exact .fault e
  | ok zs =>
      simp only [membersOf] at members
      split at members
      next items found =>
        split at members <;> cases members
        next hashable =>
          refine .members (respects_toggle.foldl same fun z member => ?_)
          have listed := Value.mem_of_mem_toMembers member
          exact ⟨given.items found z listed, List.all_eq_true.mp hashable z listed⟩
      · cases members

/-- Only the method that takes out whichever member comes first tells sets apart that are the
same. -/
theorem onSet_same (same : SameMembers xs ys) (given : ∀ a ∈ args, a.Proper)
    (unpopped : method ≠ .pop) : SameEnd (onSet method args xs) (onSet method args ys) := by
  unfold onSet
  split
  next x =>
    split
    next hashable => exact ⟨same.insertMember (given x (List.mem_singleton_self x)) hashable, rfl⟩
    · exact ⟨same, rfl⟩
  next x =>
    have proper := given x (List.mem_singleton_self x)
    rw [same.memberOf_eq proper]
    split
    · split
      · exact ⟨same.eraseMember proper, rfl⟩
      · exact ⟨same, rfl⟩
    · exact ⟨same, rfl⟩
  next x =>
    split
    · exact ⟨same.eraseMember (given x (List.mem_singleton_self x)), rfl⟩
    · exact ⟨same, rfl⟩
  next => exact ⟨.refl (by decide), rfl⟩
  next => exact respects_insertMember.eachIterable same given
  next => exact respects_eraseMember.eachIterable same given
  next => exact whole_same same (foldlM_shared_same same given)
  next zs => exact whole_same same (symmetric_same same (given zs (List.mem_singleton_self zs)))
  next => exact absurd rfl unpopped
  all_goals exact ⟨same, rfl⟩

/-- The method that takes out a member leaves a set, too. -/
theorem proper_onSet (h : (Value.frozen xs).Proper) (given : ∀ a ∈ args, a.Proper) :
    (Value.frozen (onSet method args xs).1).Proper := by
  by_cases popped : method = .pop
  · subst popped
    unfold onSet
    split <;> try contradiction
    · split
      · exact h
      next x rest =>
        obtain ⟨apart, proper⟩ := Value.proper_frozen_iff.mp h
        rw [List.forall_mem_cons] at proper
        exact .frozen ⟨fun v member => apart.hashable v (List.mem_cons_of_mem x member),
          (List.pairwise_cons.mp apart.distinct).2⟩ proper.2
    · exact h
  · exact (onSet_same (.refl h) given popped).1.left

/-- A batch in which no member is taken out at random leaves sets the same, and ends alike. -/
theorem run_same {edits : List (Edit Value)} (same : SameMembers xs ys)
    (given : ∀ e ∈ edits, ∀ a ∈ e.args, a.Proper) (unpopped : ∀ args, .call .pop args ∉ edits) :
    SameEnd (run onSet edits xs) (run onSet edits ys) := by
  induction edits generalizing xs ys with
  | nil => exact ⟨same, rfl⟩
  | cons e rest ih =>
      rw [List.forall_mem_cons] at given
      cases e with
      | stop reason => exact ⟨same, rfl⟩
      | call method args =>
          have kept : method ≠ .pop := fun popped =>
            unpopped args (popped ▸ List.mem_cons_self)
          have later : ∀ args, .call .pop args ∉ rest := fun args member =>
            unpopped args (List.mem_cons_of_mem _ member)
          have stepped : SameEnd (onSet method args xs) (onSet method args ys) :=
            onSet_same same given.1 kept
          obtain ⟨gone, fault⟩ := stepped
          simp only [run]
          generalize onSet method args xs = r at gone fault
          generalize onSet method args ys = r' at gone fault
          obtain ⟨xs', e⟩ := r
          obtain ⟨ys', e'⟩ := r'
          cases fault
          cases e with
          | none => exact ih gone given.2 later
          | some e => exact ⟨gone, rfl⟩

theorem proper_run {edits : List (Edit Value)} (h : (Value.frozen xs).Proper)
    (given : ∀ e ∈ edits, ∀ a ∈ e.args, a.Proper) :
    (Value.frozen (run onSet edits xs).1).Proper :=
  run_induct (I := fun xs => (Value.frozen xs).Proper)
    (fun _ _ listed _ h => proper_onSet h (given _ listed)) h

end Edit

end ClientRegistry

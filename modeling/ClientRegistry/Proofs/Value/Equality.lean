import ClientRegistry.Proofs.Value.Matched
import ClientRegistry.Proofs.Value.Proper

/-! Sameness of proper values is an equivalence, and it pairs off the members of sets and the
entries of dictionaries that are the same. -/

namespace ClientRegistry

/-- Entries with the same key and the same value. -/
def Entries.SameEntry (e f : Value × Value) : Prop := e.1.same f.1 = true ∧ e.2.same f.2 = true

namespace Value

open Entries (SameEntry)

variable {a b c name : Value} {xs ys : List Value} {es fs : List (Value × Value)}
  {kind : TokenKind} {bagKind : BagKind}

/-- The members of a set of either type. -/
def members? : Value → Option (List Value)
  | set xs => some xs
  | frozen xs => some xs
  | _ => none

theorem sameList_iff :
    sameList xs ys = true ↔ List.Forall₂ (fun x y => x.same y = true) xs ys := by
  induction xs generalizing ys with
  | nil => cases ys <;> simp [sameList]
  | cons x rest ih => cases ys <;> simp [sameList, ih]

theorem allEntries_iff : allEntries es fs = true ↔ ∀ e ∈ es, ∃ f ∈ fs, SameEntry e f := by
  induction es with
  | nil => simp [allEntries]
  | cons e rest ih =>
      rw [allEntries, Bool.and_eq_true, ih, List.any_eq_true, List.forall_mem_cons]
      simp only [Bool.and_eq_true, SameEntry]

theorem same_token_iff :
    (token kind name).same b = true ↔ ∃ n, b = token kind n ∧ name.same n = true := by
  cases b <;> simp [same, sameLeaf, integer?, eq_comm (a := kind)]

theorem same_list_iff : (list xs).same b = true ↔
    ∃ ys, b = list ys ∧ List.Forall₂ (fun x y => x.same y = true) xs ys := by
  cases b <;> simp [same, sameLeaf, integer?, sameList_iff]

theorem same_tuple_iff : (tuple xs).same b = true ↔
    ∃ ys, b = tuple ys ∧ List.Forall₂ (fun x y => x.same y = true) xs ys := by
  cases b <;> simp [same, sameLeaf, integer?, sameList_iff]

theorem same_members_iff (members : a.members? = some xs) : a.same b = true ↔
    ∃ ys, b.members? = some ys ∧ xs.length = ys.length ∧ ∀ x ∈ xs, ∃ y ∈ ys, x.same y = true := by
  cases a <;> cases members <;> cases b <;>
    simp [same, sameLeaf, integer?, members?, allMembers_iff]

theorem same_dict_iff : (dict es).same b = true ↔
    ∃ fs, b = dict fs ∧ es.length = fs.length ∧ ∀ e ∈ es, ∃ f ∈ fs, SameEntry e f := by
  cases b <;> simp [same, sameLeaf, integer?, allEntries_iff]

theorem same_bag_iff : (bag bagKind es).same b = true ↔
    ∃ fs, b = bag bagKind fs ∧ es.length = fs.length ∧ ∀ e ∈ es, ∃ f ∈ fs, SameEntry e f := by
  cases b <;> simp [same, sameLeaf, integer?, allEntries_iff, and_assoc, eq_comm (a := bagKind)]

/-- What sameness with a value obeys among proper values. -/
structure Lawful (a : Value) : Prop where
  symm : ∀ b, b.Proper → a.same b = true → b.same a = true
  trans : ∀ b c, b.Proper → c.Proper → a.same b = true → b.same c = true → a.same c = true

theorem Lawful.leaf (proper : a.Proper) (leaf : a.leafKey?.isSome = true) : a.Lawful where
  symm b hb same := by
    have key := (same_leaf_iff proper hb leaf).mp same
    exact (same_leaf_iff hb proper (key ▸ leaf)).mpr key.symm
  trans b c hb hc first second := by
    have key := (same_leaf_iff proper hb leaf).mp first
    have key' := (same_leaf_iff hb hc (key ▸ leaf)).mp second
    exact (same_leaf_iff proper hc leaf).mpr (key.trans key')

theorem forall₂_symm (laws : ∀ x ∈ xs, x.Lawful) (proper : ∀ y ∈ ys, y.Proper)
    (all : List.Forall₂ (fun x y => x.same y = true) xs ys) :
    List.Forall₂ (fun x y => x.same y = true) ys xs := by
  induction all with
  | nil => exact .nil
  | cons alike _ ih =>
      rw [List.forall_mem_cons] at laws proper
      exact .cons (laws.1.symm _ proper.1 alike) (ih laws.2 proper.2)

theorem forall₂_trans {zs : List Value} (laws : ∀ x ∈ xs, x.Lawful) (proper : ∀ y ∈ ys, y.Proper)
    (proper' : ∀ z ∈ zs, z.Proper) (first : List.Forall₂ (fun x y => x.same y = true) xs ys)
    (second : List.Forall₂ (fun x y => x.same y = true) ys zs) :
    List.Forall₂ (fun x y => x.same y = true) xs zs := by
  induction first generalizing zs with
  | nil => exact second
  | cons alike _ ih =>
      obtain ⟨z, rest, alike', others, rfl⟩ := List.forall₂_cons_left_iff.mp second
      rw [List.forall_mem_cons] at laws proper proper'
      exact .cons (laws.1.trans _ z proper.1 proper'.1 alike alike')
        (ih laws.2 proper.2 proper'.2 others)

/-- Lists whose parts have keys of which no two are the same are paired off if each part of the
first is related to one of the second with the same key. -/
theorem matched_of_distinct {α : Type} (key : α → Value) {r : α → α → Prop} {us vs : List α}
    (keyed : ∀ x y, r x y → (key x).same (key y) = true) (apart : Apart (us.map key))
    (laws : ∀ x ∈ us, (key x).Lawful) (proper : ∀ x ∈ us, (key x).Proper)
    (proper' : ∀ y ∈ vs, (key y).Proper) (length : us.length = vs.length)
    (total : ∀ x ∈ us, ∃ y ∈ vs, r x y) : Matched r us vs := by
  refine .of_injective length total ?_
  refine (List.pairwise_map.mp apart.distinct).imp_of_mem ?_
  intro x x' member member' distinct y listed related related'
  have back : (key y).same (key x') = true :=
    (laws x' member').symm _ (proper' y listed) (keyed x' y related')
  have alike : (key x).same (key x') = true :=
    (laws x member).trans _ _ (proper' y listed) (proper x' member') (keyed x y related) back
  rw [distinct] at alike
  cases alike

theorem matched_members (apart : Apart xs) (laws : ∀ x ∈ xs, x.Lawful)
    (proper : ∀ x ∈ xs, x.Proper) (proper' : ∀ y ∈ ys, y.Proper) (length : xs.length = ys.length)
    (total : ∀ x ∈ xs, ∃ y ∈ ys, x.same y = true) :
    Matched (fun x y => x.same y = true) xs ys :=
  matched_of_distinct id (fun _ _ alike => alike) (by rwa [List.map_id]) laws proper proper'
    length total

theorem matched_entries (apart : Apart (es.map Prod.fst)) (laws : ∀ e ∈ es, e.1.Lawful)
    (proper : ∀ e ∈ es, e.1.Proper) (proper' : ∀ f ∈ fs, f.1.Proper)
    (length : es.length = fs.length) (total : ∀ e ∈ es, ∃ f ∈ fs, SameEntry e f) :
    Matched SameEntry es fs :=
  matched_of_distinct Prod.fst (fun _ _ alike => alike.1) apart laws proper proper' length total

/-- Of a type of sequences, whose values are the same if their items are. -/
theorem Lawful.sequence {type : List Value → Value}
    (same_iff : ∀ {xs b}, (type xs).same b = true ↔
      ∃ ys, b = type ys ∧ List.Forall₂ (fun x y => x.same y = true) xs ys)
    (items : ∀ {xs}, (type xs).Proper → ∀ x ∈ xs, x.Proper) (laws : ∀ x ∈ xs, x.Lawful) :
    (type xs).Lawful where
  symm b hb same := by
    obtain ⟨ys, rfl, all⟩ := same_iff.mp same
    exact same_iff.mpr ⟨xs, rfl, forall₂_symm laws (items hb) all⟩
  trans b c hb hc first second := by
    obtain ⟨ys, rfl, all⟩ := same_iff.mp first
    obtain ⟨zs, rfl, all'⟩ := same_iff.mp second
    exact same_iff.mpr ⟨zs, rfl, forall₂_trans laws (items hb) (items hc) all all'⟩

theorem Proper.member (proper : a.Proper) (members : a.members? = some xs) :
    Apart xs ∧ ∀ x ∈ xs, x.Proper := by
  cases proper <;> cases members
  all_goals exact ⟨‹_›, ‹_›⟩

theorem Lawful.set (proper : a.Proper) (members : a.members? = some xs)
    (laws : ∀ x ∈ xs, x.Lawful) : a.Lawful where
  symm b hb same := by
    obtain ⟨ys, members', length, total⟩ := (same_members_iff members).mp same
    obtain ⟨apart, own⟩ := proper.member members
    have proper' := (hb.member members').2
    have paired := matched_members apart laws own proper' length total
    have back : Matched (fun y x => y.same x = true) ys xs :=
      paired.flip_of fun x hx y hy => (laws x hx).symm y (proper' y hy)
    exact (same_members_iff members').mpr
      ⟨xs, members, length.symm, fun y member => back.exists_right member⟩
  trans b c hb hc first second := by
    obtain ⟨ys, members', length, total⟩ := (same_members_iff members).mp first
    obtain ⟨zs, members'', length', total'⟩ := (same_members_iff members').mp second
    refine (same_members_iff members).mpr ⟨zs, members'', length.trans length', fun x hx => ?_⟩
    obtain ⟨y, hy, alike⟩ := total x hx
    obtain ⟨z, hz, alike'⟩ := total' y hy
    exact ⟨z, hz, (laws x hx).trans y z ((hb.member members').2 y hy) ((hc.member members'').2 z hz)
      alike alike'⟩

/-- Of a type of mappings, whose values are the same if their entries are. -/
theorem Lawful.mapping {type : List (Value × Value) → Value}
    (same_iff : ∀ {es b}, (type es).same b = true ↔
      ∃ fs, b = type fs ∧ es.length = fs.length ∧ ∀ e ∈ es, ∃ f ∈ fs, SameEntry e f)
    (entries : ∀ {es}, (type es).Proper →
      Apart (es.map Prod.fst) ∧ (∀ e ∈ es, e.1.Proper) ∧ ∀ e ∈ es, e.2.Proper)
    (proper : (type es).Proper) (keys : ∀ e ∈ es, e.1.Lawful) (values : ∀ e ∈ es, e.2.Lawful) :
    (type es).Lawful where
  symm b hb same := by
    obtain ⟨fs, rfl, length, total⟩ := same_iff.mp same
    obtain ⟨apart, own, -⟩ := entries proper
    obtain ⟨-, keys', values'⟩ := entries hb
    have paired := matched_entries apart keys own keys' length total
    have back : Matched SameEntry fs es := paired.flip_of fun e he f hf alike =>
      ⟨(keys e he).symm f.1 (keys' f hf) alike.1, (values e he).symm f.2 (values' f hf) alike.2⟩
    exact same_iff.mpr ⟨es, rfl, length.symm, fun f member => back.exists_right member⟩
  trans b c hb hc first second := by
    obtain ⟨fs, rfl, length, total⟩ := same_iff.mp first
    obtain ⟨gs, rfl, length', total'⟩ := same_iff.mp second
    obtain ⟨-, keys', values'⟩ := entries hb
    obtain ⟨-, keys'', values''⟩ := entries hc
    refine same_iff.mpr ⟨gs, rfl, length.trans length', fun e he => ?_⟩
    obtain ⟨f, hf, alike⟩ := total e he
    obtain ⟨g, hg, alike'⟩ := total' f hf
    exact ⟨g, hg, (keys e he).trans f.1 g.1 (keys' f hf) (keys'' g hg) alike.1 alike'.1,
      (values e he).trans f.2 g.2 (values' f hf) (values'' g hg) alike.2 alike'.2⟩

theorem Proper.lawful (proper : a.Proper) : a.Lawful := by
  induction proper with
  | token hashable proper ih =>
      refine ⟨fun b hb same => ?_, fun b c hb hc first second => ?_⟩
      · obtain ⟨n, rfl, alike⟩ := same_token_iff.mp same
        cases hb with
        | token hashable' proper' => exact same_token_iff.mpr ⟨_, rfl, ih.symm n proper' alike⟩
      · obtain ⟨n, rfl, alike⟩ := same_token_iff.mp first
        obtain ⟨l, rfl, alike'⟩ := same_token_iff.mp second
        cases hb with
        | token hashable' proper' =>
            cases hc with
            | token hashable'' proper'' =>
                exact same_token_iff.mpr ⟨l, rfl, ih.trans n l proper' proper'' alike alike'⟩
  | bag apart keys values ihk ihv =>
      refine Lawful.mapping same_bag_iff ?_ (.bag apart keys values) ihk ihv
      rintro es ⟨⟩
      exact ⟨‹_›, ‹_›, ‹_›⟩
  | dict apart keys values ihk ihv =>
      refine Lawful.mapping same_dict_iff ?_ (.dict apart keys values) ihk ihv
      rintro es ⟨⟩
      exact ⟨‹_›, ‹_›, ‹_›⟩
  | list items ih => exact Lawful.sequence same_list_iff (fun h => by cases h; assumption) ih
  | tuple items ih => exact Lawful.sequence same_tuple_iff (fun h => by cases h; assumption) ih
  | set apart members ih => exact .set (.set apart members) rfl ih
  | frozen apart members ih => exact .set (.frozen apart members) rfl ih
  | finite canonical => exact .leaf (.finite canonical) rfl
  | moment valid => exact .leaf (.moment valid) rfl
  | null => exact .leaf .null rfl
  | bool b => exact .leaf (.bool b) rfl
  | int n => exact .leaf (.int n) rfl
  | infinite negative => exact .leaf (.infinite negative) rfl
  | text s => exact .leaf (.text s) rfl
  | bytes bs => exact .leaf (.bytes bs) rfl

end Value

end ClientRegistry

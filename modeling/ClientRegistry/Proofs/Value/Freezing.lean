import ClientRegistry.Proofs.Value.Agreement
import ClientRegistry.Proofs.Value.Equality
import ClientRegistry.Proofs.Time.Instant
import ClientRegistry.Settings.Bag

/-! How a bag comes by a hash. What can change has none, so the options are first put into a form
that cannot change: sequences become tuples, and sets and dictionaries frozen sets. A proper value
loses nothing by it, and its frozen form has the digest of the value. -/

namespace ClientRegistry

namespace Value

open Digest (ofText)

mutual

/-- The form of a value that can be hashed. A bag stands for itself. -/
def freeze : Value → Value
  | list xs => tuple (freezeAll xs)
  | tuple xs => tuple (freezeAll xs)
  | set xs => frozen (toMembers (freezeAll xs))
  | frozen xs => frozen (toMembers (freezeAll xs))
  | dict es => frozen (toMembers (freezeEntries es))
  | v => v

def freezeAll : List Value → List Value
  | [] => []
  | x :: xs => x.freeze :: freezeAll xs

/-- Entries become pairs. -/
def freezeEntries : List (Value × Value) → List Value
  | [] => []
  | (k, v) :: es => tuple [k, v.freeze] :: freezeEntries es

end

mutual

/-- The size of a value; freezing does not increase it. -/
def weight : Value → Nat
  | token _ name => 1 + name.weight
  | bag _ es => 2 + weightEntries es
  | list xs => 1 + weightAll xs
  | tuple xs => 1 + weightAll xs
  | set xs => 1 + weightAll xs
  | frozen xs => 1 + weightAll xs
  | dict es => 1 + weightEntries es
  | _ => 1

def weightAll : List Value → Nat
  | [] => 0
  | x :: xs => 1 + x.weight + weightAll xs

def weightEntries : List (Value × Value) → Nat
  | [] => 0
  | (k, v) :: es => 4 + k.weight + v.weight + weightEntries es

end

theorem weightAll_append (xs ys : List Value) :
    weightAll (xs ++ ys) = weightAll xs + weightAll ys := by
  induction xs with
  | nil => simp [weightAll]
  | cons x rest ih => simp only [List.cons_append, weightAll, ih, Nat.add_assoc]

theorem weightAll_toMembers_le (xs : List Value) : weightAll (toMembers xs) ≤ weightAll xs := by
  have gathered : ∀ ys, weightAll (xs.foldl insertMember ys) ≤ weightAll ys + weightAll xs := by
    induction xs with
    | nil => exact fun ys => Nat.le_add_right _ _
    | cons x rest ih =>
        intro ys
        have inserted : weightAll (insertMember ys x) ≤ weightAll ys + (1 + x.weight) := by
          rw [insertMember]
          split
          · exact Nat.le_add_right _ _
          · simp [weightAll_append, weightAll]
        have := ih (insertMember ys x)
        simp only [List.foldl_cons, weightAll]
        omega
  simpa [weightAll, toMembers] using gathered []

mutual

theorem weight_freeze_le : ∀ v : Value, v.freeze.weight ≤ v.weight
  | .list xs => by simp [freeze, weight, weightAll_freezeAll_le xs]
  | .tuple xs => by simp [freeze, weight, weightAll_freezeAll_le xs]
  | .set xs => by
      have gathered := weightAll_toMembers_le (freezeAll xs)
      simp [freeze, weight, gathered.trans (weightAll_freezeAll_le xs)]
  | .frozen xs => by
      have gathered := weightAll_toMembers_le (freezeAll xs)
      simp [freeze, weight, gathered.trans (weightAll_freezeAll_le xs)]
  | .dict es => by
      have gathered := weightAll_toMembers_le (freezeEntries es)
      simp [freeze, weight, gathered.trans (weightAll_freezeEntries_le es)]
  | .null | .bool _ | .int _ | .real _ | .text _ | .bytes _ | .moment _ | .token _ _ | .bag _ _ => by
      simp [freeze]

theorem weightAll_freezeAll_le : ∀ xs : List Value, weightAll (freezeAll xs) ≤ weightAll xs
  | [] => by simp [freezeAll]
  | x :: xs => by
      have := weight_freeze_le x
      have := weightAll_freezeAll_le xs
      simp only [freezeAll, weightAll]
      omega

theorem weightAll_freezeEntries_le :
    ∀ es : List (Value × Value), weightAll (freezeEntries es) ≤ weightEntries es
  | [] => by simp [freezeEntries, weightAll, weightEntries]
  | (k, v) :: es => by
      have := weight_freeze_le v
      have := weightAll_freezeEntries_le es
      simp only [freezeEntries, weightAll, weight, weightEntries]
      omega

end

mutual

/-- The digest that the hash of a value is taken of, or the refusal of what can change. A bag is
hashed with the name of its type and its frozen options. -/
def hashed : Value → Except Fault Digest
  | list _ => .error .badType
  | set _ => .error .badType
  | dict _ => .error .badType
  | tuple xs => (hashedAll xs).map .sequence
  | frozen xs => (hashedAll xs).map .bunch
  | token _ name => name.hashed.map fun d => .sequence [d]
  | bag kind es =>
    (dict es).freeze.hashed.map fun d => .sequence [ofText kind.typeName.toList, d]
  | v => .ok v.digest
termination_by v => v.weight
decreasing_by
  all_goals simp only [weight, freeze]
  · omega
  · omega
  · omega
  · have gathered := weightAll_toMembers_le (freezeEntries es)
    have := gathered.trans (weightAll_freezeEntries_le es)
    omega

def hashedAll : List Value → Except Fault (List Digest)
  | [] => .ok []
  | x :: xs => do
    let d ← x.hashed
    let ds ← hashedAll xs
    .ok (d :: ds)
termination_by xs => weightAll xs
decreasing_by all_goals simp only [weightAll]; omega

end

variable {v : Value} {xs ys : List Value} {es : List (Value × Value)}

theorem freezeAll_eq_map (xs : List Value) : freezeAll xs = xs.map freeze := by
  induction xs with
  | nil => rfl
  | cons x rest ih => rw [freezeAll, ih, List.map_cons]

theorem freezeEntries_eq_map (es : List (Value × Value)) :
    freezeEntries es = es.map fun e => tuple [e.1, e.2.freeze] := by
  induction es with
  | nil => rfl
  | cons e rest ih => rw [freezeEntries, ih, List.map_cons]

theorem digestEntries_eq_map (es : List (Value × Value)) :
    digestEntries es = es.map fun e => .sequence [e.1.digest, e.2.digest] := by
  induction es with
  | nil => rfl
  | cons e rest ih => rw [digestEntries, ih, List.map_cons]

theorem allHashable_iff : allHashable xs = true ↔ ∀ x ∈ xs, x.hashable = true := by
  induction xs with
  | nil => simp [allHashable]
  | cons x rest ih => simp [allHashable, ih]

/-- A set of members of which no two are the same is made as it is listed. -/
theorem Apart.toMembers_eq (apart : Apart xs) (proper : ∀ x ∈ xs, x.Proper) :
    toMembers xs = xs := by
  have gathered : ∀ ys rest : List Value, (∀ y ∈ ys, ∀ x ∈ rest, x.same y = false) →
      rest.Pairwise (fun x y => y.same x = false) → rest.foldl insertMember ys = ys ++ rest := by
    intro ys rest
    induction rest generalizing ys with
    | nil => simp
    | cons x rest ih =>
        intro new distinct
        rw [List.pairwise_cons] at distinct
        have absent : x.memberOf ys = false := by
          rw [memberOf, List.any_eq_false]
          exact fun y member same => by simp [new y member x List.mem_cons_self] at same
        rw [List.foldl_cons, insertMember, absent, if_neg Bool.false_ne_true,
          List.append_cons ys x rest]
        refine ih (ys ++ [x]) (fun y member z later => ?_) distinct.2
        rcases List.mem_append.mp member with old | last
        · exact new y old z (List.mem_cons_of_mem x later)
        · rw [List.mem_singleton.mp last]
          exact distinct.1 z later
  refine gathered [] xs (fun _ member => absurd member List.not_mem_nil) ?_
  refine apart.distinct.imp_of_mem fun {x y} hx hy distinct => ?_
  rw [← Bool.not_eq_true] at distinct ⊢
  exact fun same => distinct ((proper y hy).lawful.symm x (proper x hx) same)

/-- What the frozen form of a value is to the value. -/
structure Frozen (v : Value) : Prop where
  proper : v.freeze.Proper
  hashable : v.freeze.hashable = true
  digest : v.freeze.digest = v.digest
  same : v.hashable = true → v.same v.freeze = true

theorem Frozen.self (proper : v.Proper) (hashable : v.hashable = true) (self : v.freeze = v) :
    v.Frozen := by
  refine ⟨?_, ?_, ?_, fun _ => ?_⟩ <;> rw [self]
  · exact proper
  · exact hashable
  · exact same_refl v

theorem digestList_freeze (parts : ∀ x ∈ xs, x.Frozen) :
    digestList (xs.map freeze) = digestList xs := by
  rw [digestList_eq_map, digestList_eq_map, List.map_map]
  exact List.map_congr_left fun x member => (parts x member).digest

theorem forall₂_freeze (parts : ∀ x ∈ xs, x.Frozen) (hashable : ∀ x ∈ xs, x.hashable = true) :
    List.Forall₂ (fun x y => x.same y = true) xs (xs.map freeze) := by
  rw [List.forall₂_map_right_iff, List.forall₂_same]
  exact fun x member => (parts x member).same (hashable x member)

/-- Freezing keeps members apart. -/
theorem Apart.freeze (apart : Apart xs) (proper : ∀ x ∈ xs, x.Proper)
    (parts : ∀ x ∈ xs, x.Frozen) : Apart (xs.map Value.freeze) where
  hashable := List.forall_mem_map.mpr fun x member => (parts x member).hashable
  distinct := by
    refine List.pairwise_map.mpr (apart.distinct.imp_of_mem fun {x y} hx hy distinct => ?_)
    rw [← Bool.not_eq_true] at distinct ⊢
    intro same
    have first : x.same x.freeze = true := (parts x hx).same (apart.hashable x hx)
    have second : y.same y.freeze = true := (parts y hy).same (apart.hashable y hy)
    have across : x.same y.freeze = true :=
      (proper x hx).lawful.trans _ _ (parts x hx).proper (parts y hy).proper first same
    have back : y.freeze.same y = true :=
      (proper y hy).lawful.symm _ (parts y hy).proper second
    exact distinct ((proper x hx).lawful.trans _ y (parts y hy).proper (proper y hy) across back)

/-- The pairs of a dictionary are as much apart as its keys are. -/
theorem Apart.pairs (apart : Apart (es.map Prod.fst)) (values : ∀ e ∈ es, e.2.Frozen) :
    Apart (es.map fun e => tuple [e.1, e.2.freeze]) where
  hashable := List.forall_mem_map.mpr fun e member => by
    have key := apart.hashable e.1 (List.mem_map_of_mem member)
    simp [Value.hashable, allHashable, key, (values e member).hashable]
  distinct := by
    refine List.pairwise_map.mpr ((List.pairwise_map.mp apart.distinct).imp fun distinct => ?_)
    simp [Value.same, sameList, distinct]

theorem freeze_members (apart : Apart xs) (proper : ∀ x ∈ xs, x.Proper)
    (parts : ∀ x ∈ xs, x.Frozen) : toMembers (freezeAll xs) = xs.map freeze := by
  rw [freezeAll_eq_map]
  exact (apart.freeze proper parts).toMembers_eq
    (List.forall_mem_map.mpr fun x member => (parts x member).proper)

theorem freeze_pairs (apart : Apart (es.map Prod.fst)) (keys : ∀ e ∈ es, e.1.Proper)
    (values : ∀ e ∈ es, e.2.Frozen) :
    (∀ p ∈ es.map fun e => tuple [e.1, e.2.freeze], p.Proper) ∧
      toMembers (freezeEntries es) = es.map fun e => tuple [e.1, e.2.freeze] := by
  have proper : ∀ p ∈ es.map fun e => tuple [e.1, e.2.freeze], p.Proper :=
    List.forall_mem_map.mpr fun e member => .tuple fun x part => by
      rcases List.mem_pair.mp part with rfl | rfl
      · exact keys e member
      · exact (values e member).proper
  rw [freezeEntries_eq_map]
  exact ⟨proper, (apart.pairs values).toMembers_eq proper⟩

theorem Frozen.ofItems (form : v.freeze = tuple (xs.map freeze))
    (digested : v.digest = .sequence (digestList xs)) (parts : ∀ x ∈ xs, x.Frozen)
    (same : v.hashable = true → v.same (tuple (xs.map freeze)) = true) : v.Frozen := by
  refine ⟨?_, ?_, ?_, fun hashable => ?_⟩ <;> rw [form]
  · exact .tuple (List.forall_mem_map.mpr fun x member => (parts x member).proper)
  · exact allHashable_iff.mpr (List.forall_mem_map.mpr fun x member => (parts x member).hashable)
  · rw [digested, Value.digest, digestList_freeze parts]
  · exact same hashable

theorem digest_of_members (members : v.members? = some xs) :
    v.digest = .bunch (digestList xs) := by
  cases v <;> cases members <;> rfl

theorem Frozen.ofMembers (members : v.members? = some xs) (apart : Apart xs)
    (proper : ∀ x ∈ xs, x.Proper) (parts : ∀ x ∈ xs, x.Frozen) : v.Frozen := by
  have form : v.freeze = frozen (xs.map freeze) := by
    rw [← freeze_members apart proper parts]
    cases v <;> cases members <;> rfl
  refine ⟨?_, ?_, ?_, fun _ => ?_⟩ <;> rw [form]
  · exact .frozen (apart.freeze proper parts)
      (List.forall_mem_map.mpr fun x member => (parts x member).proper)
  · rfl
  · rw [digest_of_members members, Value.digest, digestList_freeze parts]
  · refine (same_members_iff members).mpr ⟨_, rfl, (List.length_map _).symm, fun x member => ?_⟩
    exact ⟨_, List.mem_map_of_mem member, (parts x member).same (apart.hashable x member)⟩

theorem frozen_of_proper (proper : v.Proper) : v.Frozen := by
  induction proper with
  | token hashable proper _ => exact .self (.token hashable proper) hashable rfl
  | bag apart keys values _ _ => exact .self (.bag apart keys values) rfl rfl
  | @list xs items ih =>
      refine .ofItems (by rw [freeze, freezeAll_eq_map]) rfl ih fun hashable => ?_
      cases hashable
  | @tuple xs items ih =>
      refine .ofItems (by rw [freeze, freezeAll_eq_map]) rfl ih fun hashable => ?_
      exact same_tuple_iff.mpr ⟨_, rfl, forall₂_freeze ih (allHashable_iff.mp hashable)⟩
  | set apart members ih => exact .ofMembers rfl apart members ih
  | frozen apart members ih => exact .ofMembers rfl apart members ih
  | @dict es apart keys values _ ih =>
      obtain ⟨proper, gathered⟩ := freeze_pairs apart keys ih
      have form : (dict es).freeze = frozen (es.map fun e => tuple [e.1, e.2.freeze]) := by
        rw [freeze, gathered]
      refine ⟨?_, ?_, ?_, fun hashable => ?_⟩
      · rw [form]
        exact .frozen (apart.pairs ih) proper
      · rw [form]
        rfl
      · rw [form, digest, digest, digestList_eq_map, digestEntries_eq_map, List.map_map]
        refine congrArg _ (List.map_congr_left fun e member => ?_)
        simp only [Function.comp_apply, digest, digestList, (ih e member).digest]
      · cases hashable
  | finite canonical => exact .self (.finite canonical) rfl rfl
  | moment valid => exact .self (.moment valid) rfl rfl
  | null => exact .self .null rfl rfl
  | bool b => exact .self (.bool b) rfl rfl
  | int n => exact .self (.int n) rfl rfl
  | infinite negative => exact .self (.infinite negative) rfl rfl
  | text s => exact .self (.text s) rfl rfl
  | bytes bs => exact .self (.bytes bs) rfl rfl

theorem hashedAll_map {α : Type} {as : List α} {f : α → Value} {g : α → Digest}
    (parts : ∀ a ∈ as, (f a).hashed = .ok (g a)) : hashedAll (as.map f) = .ok (as.map g) := by
  induction as with
  | nil => rw [List.map_nil, hashedAll, List.map_nil]
  | cons a rest ih =>
      rw [List.forall_mem_cons] at parts
      rw [List.map_cons, hashedAll, parts.1, ih parts.2]
      rfl

theorem hashedAll_eq (parts : ∀ x ∈ xs, x.hashed = .ok x.digest) :
    hashedAll xs = .ok (digestList xs) := by
  have all : hashedAll (xs.map id) = .ok (xs.map digest) := hashedAll_map parts
  rwa [List.map_id, ← digestList_eq_map] at all

theorem hashedAll_freeze (parts : ∀ x ∈ xs, x.freeze.hashed = .ok x.digest) :
    hashedAll (xs.map freeze) = .ok (digestList xs) := by
  rw [hashedAll_map parts, digestList_eq_map]

theorem hashed_freeze_members (apart : Apart xs) (proper : ∀ x ∈ xs, x.Proper)
    (parts : ∀ x ∈ xs, x.freeze.hashed = .ok x.digest) :
    (frozen (toMembers (freezeAll xs))).hashed = .ok (.bunch (digestList xs)) := by
  rw [freeze_members apart proper fun x member => frozen_of_proper (proper x member), hashed,
    hashedAll_freeze parts]
  rfl

theorem hashed_freeze_entries (apart : Apart (es.map Prod.fst)) (proper : ∀ e ∈ es, e.1.Proper)
    (proper' : ∀ e ∈ es, e.2.Proper) (keys : ∀ e ∈ es, e.1.hashed = .ok e.1.digest)
    (values : ∀ e ∈ es, e.2.freeze.hashed = .ok e.2.digest) :
    (dict es).freeze.hashed = .ok (.bunch (digestEntries es)) := by
  obtain ⟨-, gathered⟩ :=
    freeze_pairs apart proper fun e member => frozen_of_proper (proper' e member)
  have pair : ∀ e ∈ es,
      (tuple [e.1, e.2.freeze]).hashed = .ok (.sequence [e.1.digest, e.2.digest]) := by
    intro e member
    rw [hashed, hashedAll, hashedAll, hashedAll, keys e member, values e member]
    rfl
  rw [freeze, gathered, hashed, hashedAll_map pair, digestEntries_eq_map]
  rfl

/-- Whatever can be hashed has its digest for hash, and so has the frozen form of every value. -/
theorem Proper.hashed_eq (proper : v.Proper) :
    v.freeze.hashed = .ok v.digest ∧ (v.hashable = true → v.hashed = .ok v.digest) := by
  induction proper with
  | @token kind name hashable proper ih =>
      have own : (Value.token kind name).hashed = .ok (Value.token kind name).digest := by
        rw [hashed, ih.2 hashable]
        rfl
      exact ⟨own, fun _ => own⟩
  | @bag kind es apart keys values ihk ihv =>
      have own : (Value.bag kind es).hashed = .ok (Value.bag kind es).digest := by
        have options := hashed_freeze_entries apart keys values
          (fun e member => (ihk e member).2 (apart.hashable e.1 (List.mem_map_of_mem member)))
          fun e member => (ihv e member).1
        rw [hashed, options]
        rfl
      exact ⟨own, fun _ => own⟩
  | @list xs items ih =>
      refine ⟨?_, fun none => by cases none⟩
      rw [freeze, freezeAll_eq_map, hashed, hashedAll_freeze fun x member => (ih x member).1]
      rfl
  | @tuple xs items ih =>
      refine ⟨?_, fun hashable => ?_⟩
      · rw [freeze, freezeAll_eq_map, hashed, hashedAll_freeze fun x member => (ih x member).1]
        rfl
      · have own := fun x member => (ih x member).2 (allHashable_iff.mp hashable x member)
        rw [hashed, hashedAll_eq own]
        rfl
  | @set xs apart members ih =>
      refine ⟨?_, fun none => by cases none⟩
      rw [freeze, hashed_freeze_members apart members fun x member => (ih x member).1]
      rfl
  | @frozen xs apart members ih =>
      refine ⟨?_, fun _ => ?_⟩
      · rw [freeze, hashed_freeze_members apart members fun x member => (ih x member).1]
        rfl
      · rw [hashed, hashedAll_eq fun x member => (ih x member).2 (apart.hashable x member)]
        rfl
  | @dict es apart keys values ihk ihv =>
      refine ⟨?_, fun none => by cases none⟩
      exact hashed_freeze_entries apart keys values
        (fun e member => (ihk e member).2 (apart.hashable e.1 (List.mem_map_of_mem member)))
        fun e member => (ihv e member).1
  | finite canonical => simp [freeze, hashed]
  | moment valid => simp [freeze, hashed]
  | null => simp [freeze, hashed]
  | bool b => simp [freeze, hashed]
  | int n => simp [freeze, hashed]
  | infinite negative => simp [freeze, hashed]
  | text s => simp [freeze, hashed]
  | bytes bs => simp [freeze, hashed]

end Value

end ClientRegistry

import ClientRegistry.Proofs.Number.Exact
import ClientRegistry.Proofs.Time.Text
import ClientRegistry.Proofs.Value.Order

/-! Proper values: those that can be built of leaves and containers. There is no not-a-number in
them, numbers and moments are in their normal form, and no set lists a member twice, nor a
dictionary a key. Leaves have a key by which they are compared. -/

namespace ClientRegistry

namespace Value

open Binary64 (equalsInt_iff_value same_iff_value)

/-- Members of a set, or keys of a dictionary: each can be hashed, and no two are the same. -/
structure Apart (xs : List Value) : Prop where
  hashable : ∀ x ∈ xs, x.hashable = true
  distinct : xs.Pairwise fun x y => x.same y = false

inductive Proper : Value → Prop
  | null : Proper .null
  | bool (b : Bool) : Proper (.bool b)
  | int (n : Int) : Proper (.int n)
  | finite {negative : Bool} {m : Nat} {e : Int} (canonical : (Binary64.finite negative m e).Canonical) :
      Proper (.real (.finite negative m e))
  | infinite (negative : Bool) : Proper (.real (.infinite negative))
  | text (s : String) : Proper (.text s)
  | bytes (bs : List UInt8) : Proper (.bytes bs)
  | moment {m : Moment} (valid : m.Valid) : Proper (.moment m)
  | token {kind : TokenKind} {name : Value} (hashable : name.hashable = true)
      (proper : Proper name) : Proper (.token kind name)
  | bag {kind : BagKind} {es : List (Value × Value)} (apart : Apart (es.map Prod.fst))
      (keys : ∀ e ∈ es, Proper e.1) (values : ∀ e ∈ es, Proper e.2) : Proper (.bag kind es)
  | list {xs : List Value} (items : ∀ x ∈ xs, Proper x) : Proper (.list xs)
  | tuple {xs : List Value} (items : ∀ x ∈ xs, Proper x) : Proper (.tuple xs)
  | set {xs : List Value} (apart : Apart xs) (members : ∀ x ∈ xs, Proper x) : Proper (.set xs)
  | frozen {xs : List Value} (apart : Apart xs) (members : ∀ x ∈ xs, Proper x) :
      Proper (.frozen xs)
  | dict {es : List (Value × Value)} (apart : Apart (es.map Prod.fst))
      (keys : ∀ e ∈ es, Proper e.1) (values : ∀ e ∈ es, Proper e.2) : Proper (.dict es)

theorem proper_token_iff {kind : TokenKind} {name : Value} :
    (token kind name).Proper ↔ name.hashable = true ∧ name.Proper :=
  ⟨fun | .token hashable proper => ⟨hashable, proper⟩, fun h => .token h.1 h.2⟩

theorem proper_list_iff {xs : List Value} : (list xs).Proper ↔ ∀ x ∈ xs, x.Proper :=
  ⟨fun | .list items => items, .list⟩

theorem proper_tuple_iff {xs : List Value} : (tuple xs).Proper ↔ ∀ x ∈ xs, x.Proper :=
  ⟨fun | .tuple items => items, .tuple⟩

theorem proper_set_iff {xs : List Value} : (set xs).Proper ↔ Apart xs ∧ ∀ x ∈ xs, x.Proper :=
  ⟨fun | .set apart members => ⟨apart, members⟩, fun h => .set h.1 h.2⟩

theorem proper_frozen_iff {xs : List Value} :
    (frozen xs).Proper ↔ Apart xs ∧ ∀ x ∈ xs, x.Proper :=
  ⟨fun | .frozen apart members => ⟨apart, members⟩, fun h => .frozen h.1 h.2⟩

theorem proper_dict_iff {es : List (Value × Value)} :
    (dict es).Proper ↔ Apart (es.map Prod.fst) ∧ ∀ e ∈ es, e.1.Proper ∧ e.2.Proper :=
  ⟨fun | .dict apart keys values => ⟨apart, fun e member => ⟨keys e member, values e member⟩⟩,
    fun h => .dict h.1 (fun e member => (h.2 e member).1) fun e member => (h.2 e member).2⟩

theorem proper_bag_iff {kind : BagKind} {es : List (Value × Value)} :
    (bag kind es).Proper ↔ Apart (es.map Prod.fst) ∧ ∀ e ∈ es, e.1.Proper ∧ e.2.Proper :=
  ⟨fun | .bag apart keys values => ⟨apart, fun e member => ⟨keys e member, values e member⟩⟩,
    fun h => .bag h.1 (fun e member => (h.2 e member).1) fun e member => (h.2 e member).2⟩

instance (xs : List Value) : Decidable (Apart xs) :=
  decidable_of_iff ((∀ x ∈ xs, x.hashable = true) ∧ xs.Pairwise fun x y => x.same y = false)
    ⟨fun h => ⟨h.1, h.2⟩, fun h => ⟨h.hashable, h.distinct⟩⟩

instance (m : Moment) : Decidable m.Valid :=
  decidable_of_iff (Calendar.isDate m.year m.month m.day = true ∧ 1 ≤ m.year ∧ m.year ≤ 9999 ∧
      m.hour < 24 ∧ m.minute < 60 ∧ m.second < 60 ∧ m.micro < 1000000)
    ⟨fun ⟨date, least, most, hour, minute, second, micro⟩ =>
      ⟨date, least, most, hour, minute, second, micro⟩,
      fun h => ⟨h.date, h.least, h.most, h.hour, h.minute, h.second, h.micro⟩⟩

instance (negative : Bool) (m : Nat) (e : Int) :
    Decidable (Binary64.finite negative m e).Canonical :=
  inferInstanceAs (Decidable (_ ∧ _ ∧ _ ∧ _))

mutual

def decProper : ∀ v : Value, Decidable v.Proper
  | .null => isTrue .null
  | .bool b => isTrue (.bool b)
  | .int n => isTrue (.int n)
  | .real (.finite negative m e) =>
      decidable_of_iff (Binary64.finite negative m e).Canonical
        ⟨.finite, fun | .finite canonical => canonical⟩
  | .real (.infinite negative) => isTrue (.infinite negative)
  | .real (.nan mark) => isFalse (by rintro ⟨⟩)
  | .text s => isTrue (.text s)
  | .bytes bs => isTrue (.bytes bs)
  | .moment m => decidable_of_iff m.Valid ⟨.moment, fun | .moment valid => valid⟩
  | .token kind name =>
      have := decProper name
      decidable_of_iff _ proper_token_iff.symm
  | .bag kind es =>
      have := decEntries es
      decidable_of_iff _ proper_bag_iff.symm
  | .list xs =>
      have := decAll xs
      decidable_of_iff _ proper_list_iff.symm
  | .tuple xs =>
      have := decAll xs
      decidable_of_iff _ proper_tuple_iff.symm
  | .set xs =>
      have := decAll xs
      decidable_of_iff _ proper_set_iff.symm
  | .frozen xs =>
      have := decAll xs
      decidable_of_iff _ proper_frozen_iff.symm
  | .dict es =>
      have := decEntries es
      decidable_of_iff _ proper_dict_iff.symm

def decAll : ∀ xs : List Value, Decidable (∀ x ∈ xs, x.Proper)
  | [] => isTrue fun _ none => absurd none List.not_mem_nil
  | x :: xs =>
      have := decProper x
      have := decAll xs
      decidable_of_iff _ List.forall_mem_cons.symm

def decEntries : ∀ es : List (Value × Value), Decidable (∀ e ∈ es, e.1.Proper ∧ e.2.Proper)
  | [] => isTrue fun _ none => absurd none List.not_mem_nil
  | (k, v) :: es =>
      have := decProper k
      have := decProper v
      have := decEntries es
      decidable_of_iff _ List.forall_mem_cons.symm

end

instance (v : Value) : Decidable v.Proper := decProper v

/-- What a leaf is compared by: a number by its magnitude, whatever its type, and a moment by its
instant. -/
inductive LeafKey where
  | nothing
  | number (q : ℚ)
  | endless (negative : Bool)
  | text (s : String)
  | bytes (bs : List UInt8)
  | instant (zoned : Bool) (n : Int)

def leafKey? : Value → Option LeafKey
  | null => some .nothing
  | bool b => some (.number ((if b then 1 else 0 : Int) : ℚ))
  | int n => some (.number n)
  | real (.finite negative m e) => some (.number (Binary64.signed negative (m * 2 ^ e)))
  | real (.infinite negative) => some (.endless negative)
  | text s => some (.text s)
  | bytes bs => some (.bytes bs)
  | moment m => some (.instant m.zone.isSome m.instant)
  | _ => none

variable {a b v : Value} {k : LeafKey} {n : Int} {xs ys : List Value}

/-- Proper leaves are the same if they have one key. -/
theorem same_leaf_iff (ha : a.Proper) (hb : b.Proper) (leaf : a.leafKey?.isSome = true) :
    a.same b = true ↔ a.leafKey? = b.leafKey? := by
  cases ha with
  | bool c =>
      cases hb with
      | bool d => simp [same, sameLeaf, integer?, leafKey?, -Int.cast_ite]
      | int n => simp only [same, sameLeaf, integer?, leafKey?, beq_iff_eq, Option.some.injEq,
          LeafKey.number.injEq, Int.cast_inj]
      | finite canonical =>
          simp only [same, sameLeaf, integer?, leafKey?, Option.some.injEq, LeafKey.number.injEq,
            equalsInt_iff_value]
          exact eq_comm
      | _ => simp [same, sameLeaf, integer?, leafKey?, Binary64.equalsInt]
  | int m =>
      cases hb with
      | bool d => simp only [same, sameLeaf, integer?, leafKey?, beq_iff_eq, Option.some.injEq,
          LeafKey.number.injEq, Int.cast_inj]
      | finite canonical =>
          simp only [same, sameLeaf, integer?, leafKey?, Option.some.injEq, LeafKey.number.injEq,
            equalsInt_iff_value]
          exact eq_comm
      | _ => simp [same, sameLeaf, integer?, leafKey?, Binary64.equalsInt]
  | finite canonical =>
      cases hb with
      | finite canonical' =>
          simp only [same, sameLeaf, leafKey?, Option.some.injEq, LeafKey.number.injEq]
          exact same_iff_value canonical canonical'
      | _ => simp [same, sameLeaf, integer?, leafKey?, equalsInt_iff_value, Binary64.same]
  | infinite s =>
      cases hb <;> simp [same, sameLeaf, integer?, leafKey?, Binary64.equalsInt, Binary64.same]
  | null => cases hb <;> simp [same, sameLeaf, integer?, leafKey?]
  | text s => cases hb <;> simp [same, sameLeaf, integer?, leafKey?]
  | bytes bs => cases hb <;> simp [same, sameLeaf, integer?, leafKey?]
  | moment valid => cases hb <;> simp [same, sameLeaf, integer?, leafKey?, Moment.same]
  | _ => cases leaf

end Value

end ClientRegistry

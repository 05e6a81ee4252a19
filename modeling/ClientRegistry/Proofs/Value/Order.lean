import ClientRegistry.Client.Listing
import ClientRegistry.Proofs.Text.Order
import ClientRegistry.Proofs.Value.Kinds
import Mathlib.Data.List.Perm.Subperm

/-! Sorted listings of sets. A listing of texts and byte strings does not depend on the order in
which the set lists its members, and sets that are the same have one listing. -/

namespace ClientRegistry

theorem octetsBefore_iff {a b : List UInt8} : octetsBefore a b = true ↔ a ≤ b := by
  induction a generalizing b with
  | nil => simp [octetsBefore]
  | cons x a ih =>
      cases b with
      | nil => simp [octetsBefore]
      | cons y b =>
          rw [octetsBefore, List.cons_le_cons_iff]
          by_cases same : x = y
          · simp [same, ih]
          · simp [same]

namespace Value

def IsBytes (v : Value) : Prop := ∃ bs, v = .bytes bs

/-- What a field of texts may hold: a text, or a byte string in its place. -/
def IsTextual (v : Value) : Prop := v.IsText ∨ v.IsBytes

/-- Values that only they themselves are the same as. -/
def Exact (v : Value) : Prop := ∀ w, v.same w = true → w = v

theorem IsTextual.exact {v : Value} (h : v.IsTextual) : v.Exact := by
  intro w same
  rcases h with text | ⟨bs, rfl⟩
  · exact text.same_iff.mp same
  · cases w with
    | bytes cs =>
        simp only [Value.same, sameLeaf, beq_iff_eq] at same
        rw [same]
    | _ => simp [Value.same, sameLeaf, integer?] at same

theorem Exact.token {kind : TokenKind} {name : Value} (h : name.Exact) :
    (token kind name).Exact := by
  intro w same
  cases w with
  | token l n =>
      simp only [Value.same, Bool.and_eq_true, beq_iff_eq] at same
      rw [h n same.2, same.1]
  | _ => simp [Value.same, sameLeaf, integer?] at same

theorem allMembers_iff {xs ys : List Value} :
    allMembers xs ys = true ↔ ∀ x ∈ xs, ∃ y ∈ ys, x.same y = true := by
  induction xs with
  | nil => simp [allMembers]
  | cons x rest ih =>
      rw [allMembers, Bool.and_eq_true, ih, List.any_eq_true, List.forall_mem_cons]

/-- Sets that are the same list the same members if these are exact. -/
theorem perm_of_same {xs ys : List Value} (exact : ∀ x ∈ xs, x.Exact) (once : xs.Nodup)
    (same : (frozen xs).same (.frozen ys) = true) : xs.Perm ys := by
  simp only [Value.same, Bool.and_eq_true, beq_iff_eq] at same
  have sub : xs ⊆ ys := by
    intro x member
    obtain ⟨y, found, alike⟩ := allMembers_iff.mp same.2 x member
    rw [← exact x member y alike]
    exact found
  exact (List.subperm_of_subset once sub).perm_of_length_le (Nat.le_of_eq same.1.symm)

theorem insertInOrder_perm {x : Value} {ys zs : List Value} (h : insertInOrder x ys = .ok zs) :
    zs.Perm (x :: ys) := by
  induction ys generalizing zs with
  | nil =>
      cases h
      exact .refl _
  | cons y ys ih =>
      rw [insertInOrder] at h
      split at h
      · cases h
        exact .refl _
      next placed =>
        cases h
        exact ((ih placed).cons y).trans (.swap x y ys)
      · cases h
      · cases h

theorem sort_perm {xs ys : List Value} (h : sort xs = .ok ys) : ys.Perm xs := by
  induction xs generalizing ys with
  | nil =>
      cases h
      exact .refl _
  | cons x xs ih =>
      rw [sort] at h
      split at h
      next sorted => exact (insertInOrder_perm h).trans ((ih sorted).cons x)
      · cases h

theorem less_of_insertInOrder {x y : Value} {ys zs : List Value}
    (h : insertInOrder x (y :: ys) = .ok zs) : ∃ b, x.less y = .ok b := by
  rw [insertInOrder] at h
  split at h
  next less => exact ⟨true, less⟩
  next less _ => exact ⟨false, less⟩
  · cases h
  · cases h

theorem text_or_bytes_of_less {x y : Value} {b : Bool} (hx : x.IsTextual) (hy : y.IsTextual)
    (h : x.less y = .ok b) : x.IsText ∧ y.IsText ∨ x.IsBytes ∧ y.IsBytes := by
  rcases hx with text | bytes
  · rcases hy with text' | ⟨cs, rfl⟩
    · exact .inl ⟨text, text'⟩
    · obtain ⟨s, rfl⟩ := text
      simp [less, lessLeaf, isNumber, integer?] at h
  · rcases hy with ⟨s, rfl⟩ | bytes'
    · obtain ⟨cs, rfl⟩ := bytes
      simp [less, lessLeaf, isNumber, integer?] at h
    · exact .inr ⟨bytes, bytes'⟩

/-- Texts and byte strings have no common order. -/
theorem texts_or_bytes_of_sort {xs ys : List Value} (textual : ∀ v ∈ xs, v.IsTextual)
    (h : sort xs = .ok ys) : (∀ v ∈ xs, v.IsText) ∨ ∀ v ∈ xs, v.IsBytes := by
  induction xs generalizing ys with
  | nil => exact .inl fun v member => absurd member List.not_mem_nil
  | cons x xs ih =>
      rw [List.forall_mem_cons] at textual
      rw [sort] at h
      split at h
      next zs sorted =>
        have perm := sort_perm sorted
        cases zs with
        | nil =>
            rw [List.nil_perm.mp perm]
            exact textual.1.imp List.forall_mem_singleton.mpr List.forall_mem_singleton.mpr
        | cons z zs =>
            have member : z ∈ xs := perm.mem_iff.mp List.mem_cons_self
            obtain ⟨b, less⟩ := less_of_insertInOrder h
            rw [List.forall_mem_cons, List.forall_mem_cons]
            rcases text_or_bytes_of_less textual.1 (textual.2 z member) less with
              ⟨text, ztext⟩ | ⟨bytes, zbytes⟩
            · refine .inl ⟨text, (ih textual.2 sorted).resolve_right fun all => ?_⟩
              obtain ⟨s, rfl⟩ := ztext
              obtain ⟨cs, other⟩ := all _ member
              cases other
            · refine .inr ⟨bytes, (ih textual.2 sorted).resolve_left fun all => ?_⟩
              obtain ⟨cs, rfl⟩ := zbytes
              obtain ⟨s, other⟩ := all _ member
              cases other
      · cases h

theorem insertInOrder_bytes (a : List UInt8) {bs : List (List UInt8)}
    (sorted : bs.Pairwise (· ≤ ·)) : ∃ cs : List (List UInt8),
      insertInOrder (.bytes a) (bs.map .bytes) = .ok (cs.map .bytes) ∧ cs.Perm (a :: bs) ∧
      cs.Pairwise (· ≤ ·) := by
  induction bs with
  | nil => exact ⟨[a], rfl, .refl _, List.pairwise_singleton _ a⟩
  | cons b bs ih =>
      rw [List.pairwise_cons] at sorted
      obtain ⟨cs, placed, perm, order⟩ := ih sorted.2
      have less : (Value.bytes a).less (.bytes b) = .ok (!octetsBefore b a) := by
        simp [Value.less, lessLeaf]
      rw [List.map_cons, insertInOrder, less, placed]
      cases before : octetsBefore b a with
      | false =>
          have first : a ≤ b := (List.le_total a b).resolve_right fun le => by
            rw [octetsBefore_iff.mpr le] at before
            cases before
          have least : ∀ c ∈ b :: bs, a ≤ c := List.forall_mem_cons.mpr
            ⟨first, fun c member => List.le_trans first (sorted.1 c member)⟩
          exact ⟨a :: b :: bs, rfl, .refl _,
            List.pairwise_cons.mpr ⟨least, List.pairwise_cons.mpr sorted⟩⟩
      | true =>
          refine ⟨b :: cs, rfl, (perm.cons b).trans (.swap a b bs),
            List.pairwise_cons.mpr ⟨?_, order⟩⟩
          intro c member
          rcases List.mem_cons.mp (perm.mem_iff.mp member) with rfl | old
          · exact octetsBefore_iff.mp before
          · exact sorted.1 c old

theorem sort_bytes (bs : List (List UInt8)) : ∃ cs : List (List UInt8),
    sort (bs.map .bytes) = .ok (cs.map .bytes) ∧ cs.Perm bs ∧ cs.Pairwise (· ≤ ·) := by
  induction bs with
  | nil => exact ⟨[], rfl, .refl _, List.Pairwise.nil⟩
  | cons b bs ih =>
      obtain ⟨cs, sorted, perm, order⟩ := ih
      obtain ⟨ds, placed, perm', order'⟩ := insertInOrder_bytes b order
      refine ⟨ds, ?_, perm'.trans (perm.cons b), order'⟩
      rw [List.map_cons, sort, sorted]
      exact placed

theorem sort_bytes_perm {bs cs : List (List UInt8)} (h : bs.Perm cs) :
    sort (bs.map .bytes) = sort (cs.map .bytes) := by
  obtain ⟨ds, sorted, perm, order⟩ := sort_bytes bs
  obtain ⟨es, sorted', perm', order'⟩ := sort_bytes cs
  have same : ds = es := List.Perm.eq_of_pairwise (fun _ _ _ _ => List.le_antisymm) order order'
    ((perm.trans h).trans perm'.symm)
  rw [sorted, sorted', same]

end Value

namespace Listing

variable {xs ys ls : List Value}

/-- A list of values of one form is the image of a list. -/
theorem exists_map {α : Type} {f : α → Value} (h : ∀ v ∈ xs, ∃ a, v = f a) :
    ∃ as : List α, xs = as.map f := by
  induction xs with
  | nil => exact ⟨[], rfl⟩
  | cons x rest ih =>
      rw [List.forall_mem_cons] at h
      obtain ⟨a, rfl⟩ := h.1
      obtain ⟨as, rfl⟩ := ih h.2
      exact ⟨a :: as, rfl⟩

theorem mapM_text? (texts : List String) : (texts.map Value.text).mapM text? = some texts := by
  induction texts with
  | nil => rfl
  | cons s rest ih => simp [text?, ih]

theorem sortTexts_perm (texts : List String) : (sortTexts texts).Perm texts :=
  List.mergeSort_perm texts _

theorem ofMembers_texts (texts : List String) :
    ofMembers (texts.map .text) = .ok ((sortTexts texts).map .text) := by
  simp only [ofMembers, mapM_text?]

theorem ofMembers_perm (h : ∀ v ∈ xs, v.IsText) : ∃ ys, ofMembers xs = .ok ys ∧ ys.Perm xs := by
  obtain ⟨texts, rfl⟩ := exists_map h
  exact ⟨_, ofMembers_texts texts, (sortTexts_perm texts).map Value.text⟩

theorem mapM_tokenName? (kind : TokenKind) (texts : List String) :
    (texts.map fun s => Value.token kind (.text s)).mapM tokenName? =
      some (texts.map Value.text) := by
  induction texts with
  | nil => rfl
  | cons s rest ih => simp [tokenName?, ih]

theorem ofTokens_perm {kind : TokenKind} (h : ∀ v ∈ xs, v.IsToken kind) :
    ∃ names, ofTokens xs = .ok names ∧ (names.map (Value.token kind)).Perm xs := by
  obtain ⟨texts, rfl⟩ := exists_map h
  refine ⟨(sortTexts texts).map .text, ?_, ?_⟩
  · simp only [ofTokens, mapM_tokenName?, ofMembers_texts]
  · rw [List.map_map]
    exact (sortTexts_perm texts).map _

theorem sortTexts_eq_of_perm {ss ts : List String} (h : ss.Perm ts) :
    sortTexts ss = sortTexts ts := by
  refine List.Perm.eq_of_pairwise (fun s t _ _ first second => ?_) (pairwise_sortTexts ss)
    (pairwise_sortTexts ts) (((sortTexts_perm ss).trans h).trans (sortTexts_perm ts).symm)
  exact String.toList_inj.mp (Text.before_antisymm first second)

theorem mapM_cons_eq_some {α β : Type} {f : α → Option β} {x : α} {xs : List α} {bs : List β} :
    (x :: xs).mapM f = some bs ↔ ∃ a as, f x = some a ∧ xs.mapM f = some as ∧ bs = a :: as := by
  simp only [List.mapM_cons, Option.bind_eq_bind, Option.bind_eq_some_iff, Option.pure_def,
    Option.some.injEq]
  constructor
  · rintro ⟨a, image, as, images, rfl⟩
    exact ⟨a, as, image, images, rfl⟩
  · rintro ⟨a, as, image, images, rfl⟩
    exact ⟨a, image, as, images, rfl⟩

/-- A mapping that may fail maps rearranged lists to rearranged lists. -/
theorem mapM_perm {α β : Type} {f : α → Option β} {xs ys : List α} {as : List β}
    (perm : xs.Perm ys) (h : xs.mapM f = some as) : ∃ bs, ys.mapM f = some bs ∧ as.Perm bs := by
  induction perm generalizing as with
  | nil => exact ⟨as, h, .refl as⟩
  | cons x _ ih =>
      obtain ⟨a, rest, image, images, rfl⟩ := mapM_cons_eq_some.mp h
      obtain ⟨bs, images', perm'⟩ := ih images
      exact ⟨a :: bs, mapM_cons_eq_some.mpr ⟨a, bs, image, images', rfl⟩, perm'.cons a⟩
  | swap x y l =>
      obtain ⟨b, _, second, others, rfl⟩ := mapM_cons_eq_some.mp h
      obtain ⟨a, rest, first, images, rfl⟩ := mapM_cons_eq_some.mp others
      have swapped := mapM_cons_eq_some.mpr ⟨b, rest, second, images, rfl⟩
      exact ⟨a :: b :: rest, mapM_cons_eq_some.mpr ⟨a, _, first, swapped, rfl⟩, .swap a b rest⟩
  | trans _ _ ih ih' =>
      obtain ⟨bs, images, perm⟩ := ih h
      obtain ⟨cs, images', perm'⟩ := ih' images
      exact ⟨cs, images', perm.trans perm'⟩

theorem eq_of_mapM_text? {ts : List String} (h : xs.mapM text? = some ts) : xs = ts.map .text := by
  induction xs generalizing ts with
  | nil =>
      cases h
      rfl
  | cons x rest ih =>
      obtain ⟨t, us, text, texts, rfl⟩ := mapM_cons_eq_some.mp h
      rw [List.map_cons, ← ih texts]
      cases x <;> cases text
      rfl

theorem perm_of_ofMembers (h : ofMembers xs = .ok ls) : ls.Perm xs := by
  simp only [ofMembers] at h
  split at h
  next texts =>
    cases h
    rw [eq_of_mapM_text? texts]
    exact (sortTexts_perm _).map _
  · exact Value.sort_perm h

/-- The listing of a set is the same in whatever order the set lists its members. -/
theorem ofMembers_of_perm (perm : xs.Perm ys) (textual : ∀ v ∈ xs, v.IsTextual)
    (h : ofMembers xs = .ok ls) : ofMembers ys = .ok ls := by
  simp only [ofMembers] at h ⊢
  cases texts : xs.mapM text? with
  | some ss =>
      obtain ⟨ts, texts', perm'⟩ := mapM_perm perm texts
      rw [texts] at h
      rw [texts']
      simp only [← sortTexts_eq_of_perm perm']
      exact h
  | none =>
      have texts' : ys.mapM text? = none := by
        rw [Option.eq_none_iff_forall_ne_some]
        intro ts found
        obtain ⟨ss, images, -⟩ := mapM_perm perm.symm found
        rw [texts] at images
        cases images
      rw [texts] at h
      rw [texts']
      rcases Value.texts_or_bytes_of_sort textual h with all | all
      · obtain ⟨ss, rfl⟩ := exists_map all
        rw [mapM_text?] at texts
        cases texts
      · obtain ⟨bs, rfl⟩ := exists_map all
        obtain ⟨cs, rfl⟩ := exists_map fun v member => all v (perm.mem_iff.mpr member)
        have perm' : bs.Perm cs :=
          (List.map_perm_map_iff fun _ _ same => Value.bytes.inj same).mp perm
        exact (Value.sort_bytes_perm perm').symm.trans h

theorem exact_of_mapM_tokenName? {names : List Value} (h : xs.mapM tokenName? = some names)
    (textual : ∀ n ∈ names, n.IsTextual) : ∀ v ∈ xs, v.Exact := by
  induction xs generalizing names with
  | nil => exact fun v member => absurd member List.not_mem_nil
  | cons x rest ih =>
      obtain ⟨n, ns, name, names, rfl⟩ := mapM_cons_eq_some.mp h
      rw [List.forall_mem_cons] at textual ⊢
      refine ⟨?_, ih names textual.2⟩
      cases x <;> cases name
      exact textual.1.exact.token

/-- Sets of texts that are the same have one listing. -/
theorem ofMembers_of_same (once : xs.Nodup) (same : (Value.frozen xs).same (.frozen ys) = true)
    (h : ofMembers xs = .ok ls) (textual : ∀ v ∈ ls, v.IsTextual) : ofMembers ys = .ok ls := by
  have members : ∀ v ∈ xs, v.IsTextual := fun v member =>
    textual v ((perm_of_ofMembers h).mem_iff.mpr member)
  exact ofMembers_of_perm (Value.perm_of_same (fun v member => (members v member).exact) once same)
    members h

/-- Sets of tokens that are the same have one listing. -/
theorem ofTokens_of_same (once : xs.Nodup) (same : (Value.frozen xs).same (.frozen ys) = true)
    (h : ofTokens xs = .ok ls) (textual : ∀ v ∈ ls, v.IsTextual) : ofTokens ys = .ok ls := by
  simp only [ofTokens] at h ⊢
  cases found : xs.mapM tokenName? with
  | none =>
      rw [found] at h
      cases h
  | some names =>
      rw [found] at h
      have members : ∀ n ∈ names, n.IsTextual := fun n member =>
        textual n ((perm_of_ofMembers h).mem_iff.mpr member)
      have perm := Value.perm_of_same (exact_of_mapM_tokenName? found members) once same
      obtain ⟨names', found', perm'⟩ := mapM_perm perm found
      rw [found']
      exact ofMembers_of_perm perm' members h

end Listing

end ClientRegistry

import ClientRegistry.Proofs.Client.Consistent
import ClientRegistry.Proofs.Settings.Bag
import ClientRegistry.Proofs.Value.Freezing
import ClientRegistry.Value.Fresh

/-! Marking values anew leaves the values of typed fields alone: only what holds a not-a-number
can change, and nothing turns into a text, a moment or a token of a text by it. A proper value
stays as it is. -/

namespace ClientRegistry.Value

/-- What a field of a typed client, or a member of its sets, can be. -/
inductive Atom : Value → Prop
  | null : Atom .null
  | text (s : String) : Atom (.text s)
  | moment (m : Moment) : Atom (.moment m)
  | token (kind : TokenKind) (s : String) : Atom (.token kind (.text s))

theorem IsText.atom {v : Value} (h : v.IsText) : Atom v := by
  obtain ⟨s, rfl⟩ := h
  exact .text s

theorem IsToken.atom {kind : TokenKind} {v : Value} (h : v.IsToken kind) : Atom v := by
  obtain ⟨s, rfl⟩ := h
  exact .token kind s

theorem atom_of_optionalText {v : Value} (h : v = .null ∨ v.IsText) : Atom v := by
  rcases h with rfl | text
  · exact .null
  · exact text.atom

theorem atom_of_optionalMoment {v : Value} (h : v = .null ∨ v.IsMoment) : Atom v := by
  rcases h with rfl | ⟨m, rfl⟩
  · exact .null
  · exact .moment m

theorem eq_text_of_freshen {v : Value} {next : Nat} {s : String}
    (h : (v.freshen next).1 = .text s) : v = .text s := by
  cases v with
  | real x =>
      simp only [freshen] at h
      split at h <;> simp at h
  | _ => simp_all [freshen]

theorem freshen_eq_of_atom {v : Value} {next : Nat} (h : Atom (v.freshen next).1) :
    (v.freshen next).1 = v := by
  cases v with
  | real x =>
      simp only [freshen] at h ⊢
      split at h <;> cases h
  | token kind name =>
      simp only [freshen] at h ⊢
      generalize marked : (name.freshen next).1 = name' at h ⊢
      cases h with
      | token kind s => rw [eq_text_of_freshen marked]
  | bag kind options => simp only [freshen] at h; cases h
  | list xs => simp only [freshen] at h; cases h
  | tuple xs => simp only [freshen] at h; cases h
  | set xs => simp only [freshen] at h; cases h
  | frozen xs => simp only [freshen] at h; cases h
  | dict es => simp only [freshen] at h; cases h
  | _ => rfl

theorem freshenList_eq_of_atoms {xs : List Value} {next : Nat}
    (h : ∀ v ∈ (freshenList next xs).1, Atom v) : (freshenList next xs).1 = xs := by
  induction xs generalizing next with
  | nil => rfl
  | cons x rest ih =>
      simp only [freshenList, List.forall_mem_cons] at h ⊢
      rw [freshen_eq_of_atom h.1, ih h.2]

theorem freshenList_eq {xs : List Value} (fixed : ∀ x ∈ xs, ∀ next, x.freshen next = (x, next))
    (next : Nat) : freshenList next xs = (xs, next) := by
  induction xs with
  | nil => rfl
  | cons x rest ih =>
      rw [List.forall_mem_cons] at fixed
      simp only [freshenList, fixed.1 next, ih fixed.2]

theorem freshenEntries_eq {es : List (Value × Value)}
    (keys : ∀ e ∈ es, ∀ next, e.1.freshen next = (e.1, next))
    (values : ∀ e ∈ es, ∀ next, e.2.freshen next = (e.2, next)) (next : Nat) :
    freshenEntries next es = (es, next) := by
  induction es with
  | nil => rfl
  | cons e rest ih =>
      rw [List.forall_mem_cons] at keys values
      simp only [freshenEntries, keys.1 next, values.1 next, ih keys.2 values.2]

/-- A dictionary with keys of which no two are the same is made as it is listed. -/
theorem Apart.ofList_eq {α : Type} {es : List (Value × α)} (apart : Apart (es.map Prod.fst))
    (proper : ∀ e ∈ es, e.1.Proper) : Entries.ofList es = es := by
  have gathered : ∀ fs rest : List (Value × α), (∀ f ∈ fs, ∀ e ∈ rest, e.1.same f.1 = false) →
      rest.Pairwise (fun d e => e.1.same d.1 = false) →
      rest.foldl (fun es e => Entries.put es e.1 e.2) fs = fs ++ rest := by
    intro fs rest
    induction rest generalizing fs with
    | nil => simp
    | cons e rest ih =>
        intro new distinct
        rw [List.pairwise_cons] at distinct
        rw [List.foldl_cons, Entries.put_of_absent fun f member => new f member e List.mem_cons_self,
          List.append_cons fs e rest]
        refine ih (fs ++ [e]) (fun f member d later => ?_) distinct.2
        rcases List.mem_append.mp member with old | last
        · exact new f old d (List.mem_cons_of_mem e later)
        · rw [List.mem_singleton.mp last]
          exact distinct.1 d later
  refine gathered [] es (fun _ member => absurd member List.not_mem_nil) ?_
  refine (List.pairwise_map.mp apart.distinct).imp_of_mem fun {d e} hd he distinct => ?_
  rw [← Bool.not_eq_true] at distinct ⊢
  exact fun same => distinct ((proper e he).lawful.symm d.1 (proper d hd) same)

theorem Proper.freshen_eq {v : Value} (proper : v.Proper) (next : Nat) :
    v.freshen next = (v, next) := by
  induction proper generalizing next with
  | token hashable name ih => simp only [freshen, ih]
  | bag apart keys values ihk ihv =>
      simp only [freshen, freshenEntries_eq ihk ihv, apart.ofList_eq keys]
  | list items ih => simp only [freshen, freshenList_eq ih]
  | tuple items ih => simp only [freshen, freshenList_eq ih]
  | set apart members ih => simp only [freshen, freshenList_eq ih, apart.toMembers_eq members]
  | frozen apart members ih => simp only [freshen, freshenList_eq ih, apart.toMembers_eq members]
  | dict apart keys values ihk ihv =>
      simp only [freshen, freshenEntries_eq ihk ihv, apart.ofList_eq keys]
  | _ => rfl

end ClientRegistry.Value

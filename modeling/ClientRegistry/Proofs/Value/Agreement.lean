import ClientRegistry.Client.Basic
import ClientRegistry.Proofs.Value.Kinds
import ClientRegistry.Proofs.Value.Matched

/-! Agreement of digests is an equivalence, and two sets that list the same texts or tokens agree,
whatever their order. Bunches are compared by taking, for each part of the one, the first part of
the other that agrees with it; that no pairing is missed in this way, and that the answer is the
same both ways round, rests on the equivalence of their parts. -/

namespace ClientRegistry

namespace Digest

mutual

theorem agree_refl : ∀ d : Digest, d.agree d = true
  | .nothing => by simp [agree]
  | .number n => by simp [agree]
  | .buffer octets => by simp [agree]
  | .marked mark => by simp [agree]
  | .sequence parts => by simp [agree, agreeList_refl parts]
  | .bunch parts => by simp [agree, agreeBunch_refl parts]

theorem agreeList_refl : ∀ ds : List Digest, agreeList ds ds = true
  | [] => by simp [agreeList]
  | d :: ds => by simp [agreeList, agree_refl d, agreeList_refl ds]

theorem agreeBunch_refl : ∀ ds : List Digest, agreeBunch ds ds = true
  | [] => by simp [agreeBunch]
  | d :: ds => by simp [agreeBunch, List.findIdx?_cons, agree_refl d, agreeBunch_refl ds]

end

/-- A digest with which no other digest agrees. -/
def Sharp (d : Digest) : Prop := ∀ e, d.agree e = true → d = e

theorem sharp_number (n : Int) : Sharp (number n) := by
  intro e h
  cases e <;> simp_all [agree]

theorem sharp_buffer (octets : List Nat) : Sharp (buffer octets) := by
  intro e h
  cases e <;> simp_all [agree]

theorem Sharp.single {d : Digest} (h : d.Sharp) : Sharp (sequence [d]) := by
  intro e agreed
  cases e with
  | sequence parts =>
      match parts with
      | [] => simp [agree, agreeList] at agreed
      | [d'] =>
          have same : d.agree d' = true := by simpa [agree, agreeList] using agreed
          rw [h d' same]
      | _ :: _ :: _ => simp [agree, agreeList] at agreed
  | _ => simp [agree] at agreed

theorem sharp_ofText (cs : List Char) : Sharp (ofText cs) := by
  simp only [ofText, ofOctets]
  generalize cs.flatMap _ = octets
  split
  · exact sharp_number 0
  · exact sharp_buffer octets

/-- Where agreement is sharp, a bunch agrees with every rearrangement of it. -/
theorem agreeBunch_of_perm {ds es : List Digest} (sharp : ∀ d ∈ ds, d.Sharp) (h : ds.Perm es) :
    agreeBunch ds es = true := by
  induction ds generalizing es with
  | nil => simp [agreeBunch, List.nil_perm.mp h]
  | cons d rest ih =>
      rw [List.forall_mem_cons] at sharp
      have member : d ∈ es := h.subset List.mem_cons_self
      rw [agreeBunch]
      cases found : es.findIdx? fun e => d.agree e with
      | none =>
          have absent := List.findIdx?_eq_none_iff.mp found d member
          rw [agree_refl] at absent
          cases absent
      | some i =>
          obtain ⟨bound, agreed, -⟩ := List.findIdx?_eq_some_iff_getElem.mp found
          have moved := h.trans (List.getElem_cons_eraseIdx_perm bound).symm
          rw [← sharp.1 _ agreed] at moved
          exact ih sharp.2 moved.cons_inv

end Digest

namespace Value

theorem digestList_eq_map (xs : List Value) : digestList xs = xs.map digest := by
  induction xs with
  | nil => rfl
  | cons x rest ih => rw [digestList, ih, List.map_cons]

theorem IsText.sharp_digest {v : Value} (h : v.IsText) : v.digest.Sharp := by
  obtain ⟨s, rfl⟩ := h
  exact Digest.sharp_ofText s.toList

theorem IsToken.sharp_digest {kind : TokenKind} {v : Value} (h : v.IsToken kind) :
    v.digest.Sharp := by
  obtain ⟨s, rfl⟩ := h
  exact (Digest.sharp_ofText s.toList).single

theorem agree_frozen_of_perm {xs ys : List Value} (sharp : ∀ v ∈ xs, v.digest.Sharp)
    (h : xs.Perm ys) : (frozen xs).digest.agree (frozen ys).digest = true := by
  simp only [digest, Digest.agree, digestList_eq_map]
  exact Digest.agreeBunch_of_perm (List.forall_mem_map.mpr sharp) (h.map digest)

end Value

namespace Digest

variable {d e f : Digest} {ds es fs : List Digest}

/-- Induction on digests, with the parts of a sequence or a bunch as its members. -/
@[elab_as_elim]
theorem induct {P : Digest → Prop} (nothing : P .nothing) (number : ∀ n, P (.number n))
    (buffer : ∀ octets, P (.buffer octets)) (marked : ∀ mark, P (.marked mark))
    (sequence : ∀ ds, (∀ d ∈ ds, P d) → P (.sequence ds))
    (bunch : ∀ ds, (∀ d ∈ ds, P d) → P (.bunch ds)) (d : Digest) : P d :=
  @Digest.rec P (fun ds => ∀ d ∈ ds, P d) nothing number buffer marked sequence bunch
    (fun _ member => absurd member List.not_mem_nil)
    (fun _ _ head tail => List.forall_mem_cons.mpr ⟨head, tail⟩) d

theorem matched_of_agreeBunch (h : agreeBunch ds es = true) :
    Matched (fun d e => d.agree e = true) ds es := by
  induction ds generalizing es with
  | nil =>
      rw [agreeBunch, List.isEmpty_iff] at h
      rw [h]
      exact .nil
  | cons d rest ih =>
      rw [agreeBunch] at h
      split at h
      next i found =>
        obtain ⟨bound, agreed, -⟩ := List.findIdx?_eq_some_iff_getElem.mp found
        exact (Matched.cons (r := fun (d e : Digest) => d.agree e = true) agreed (ih h)).trans_perm
          (List.getElem_cons_eraseIdx_perm bound)
      · cases h

/-- The first part that agrees may be taken if parts that agree with one part agree with the
same. -/
theorem agreeBunch_of_matched (h : Matched (fun d e => d.agree e = true) ds es)
    (shared : ∀ d ∈ ds, ∀ d' ∈ ds, ∀ e ∈ es, ∀ e' ∈ es, d.agree e = true → d.agree e' = true →
      d'.agree e = true → d'.agree e' = true) : agreeBunch ds es = true := by
  induction ds generalizing es with
  | nil => simp [agreeBunch, List.length_eq_zero_iff.mp h.length_eq.symm]
  | cons d rest ih =>
      rw [agreeBunch]
      cases found : es.findIdx? fun e => d.agree e with
      | none =>
          obtain ⟨e, member, agreed⟩ := h.exists_right List.mem_cons_self
          have absent := List.findIdx?_eq_none_iff.mp found e member
          rw [agreed] at absent
          cases absent
      | some i =>
          obtain ⟨bound, agreed, -⟩ := List.findIdx?_eq_some_iff_getElem.mp found
          have perm := List.getElem_cons_eraseIdx_perm bound
          refine ih ((h.trans_perm perm.symm).tail fun d' member e' member' first second => ?_)
            fun d' member d'' member' e' listed e'' listed' => ?_
          · exact shared d List.mem_cons_self d' (List.mem_cons_of_mem d member) _
              (List.getElem_mem bound) e' (perm.subset member') agreed first second
          · exact shared d' (List.mem_cons_of_mem d member) d'' (List.mem_cons_of_mem d member')
              e' ((List.eraseIdx_sublist es i).subset listed) e''
              ((List.eraseIdx_sublist es i).subset listed')

/-- What agreement with a digest obeys, whatever the other digests are. -/
structure Lawful (d : Digest) : Prop where
  symm : ∀ e, d.agree e = true ↔ e.agree d = true
  trans : ∀ e f, d.agree e = true → e.agree f = true → d.agree f = true

theorem agreeList_symm (parts : ∀ d ∈ ds, d.Lawful) :
    agreeList ds es = true ↔ agreeList es ds = true := by
  induction ds generalizing es with
  | nil => cases es <;> simp [agreeList]
  | cons d rest ih =>
      rw [List.forall_mem_cons] at parts
      cases es with
      | nil => simp [agreeList]
      | cons e es => simp only [agreeList, Bool.and_eq_true, parts.1.symm e, ih parts.2]

theorem agreeList_trans (parts : ∀ d ∈ ds, d.Lawful) (first : agreeList ds es = true)
    (second : agreeList es fs = true) : agreeList ds fs = true := by
  induction ds generalizing es fs with
  | nil =>
      cases es with
      | nil => exact second
      | cons e es => simp [agreeList] at first
  | cons d rest ih =>
      rw [List.forall_mem_cons] at parts
      match es, fs with
      | [], _ => simp [agreeList] at first
      | _ :: _, [] => simp [agreeList] at second
      | e :: es, f :: fs =>
          simp only [agreeList, Bool.and_eq_true] at first second ⊢
          exact ⟨parts.1.trans e f first.1 second.1, ih parts.2 first.2 second.2⟩

theorem Lawful.sequence (parts : ∀ d ∈ ds, d.Lawful) : (sequence ds).Lawful where
  symm e := by cases e <;> simp [agree, agreeList_symm parts]
  trans e f first second := by
    cases e with
    | sequence es =>
        cases f with
        | sequence fs =>
            simp only [agree] at first second ⊢
            exact agreeList_trans parts first second
        | _ => simp [agree] at second
    | _ => simp [agree] at first

theorem Lawful.shared (hd : d.Lawful) {d' : Digest} (hd' : d'.Lawful) (first : d.agree e = true)
    (second : d.agree f = true) (other : d'.agree e = true) : d'.agree f = true := by
  have back : d'.agree d = true := hd'.trans e d other ((hd.symm e).mp first)
  exact hd'.trans d f back second

/-- Of two bunches one agrees with the other as they are paired off, if the parts of the one obey
the laws. -/
theorem agreeBunch_iff (parts : ∀ d ∈ ds, d.Lawful) :
    agreeBunch ds es = true ↔ Matched (fun d e => d.agree e = true) ds es :=
  ⟨matched_of_agreeBunch, fun paired => agreeBunch_of_matched paired
    fun d hd d' hd' _ _ _ _ => (parts d hd).shared (parts d' hd')⟩

theorem agreeBunch_symm (parts : ∀ d ∈ ds, d.Lawful) :
    agreeBunch ds es = true ↔ agreeBunch es ds = true := by
  rw [agreeBunch_iff parts]
  constructor
  · intro paired
    refine agreeBunch_of_matched (paired.flip_of fun d hd e _ => ((parts d hd).symm e).mp) ?_
    intro e _ e' _ d hd d' hd' first second other
    -- the laws are those of `d` and `d'`, which stand on the right here
    rw [← (parts d hd).symm] at first other
    rw [← (parts d' hd').symm] at second ⊢
    have across : d'.agree d = true :=
      (parts d' hd').trans e d second (((parts d hd).symm e).mp first)
    exact (parts d' hd').trans d e' across other
  · intro agreed
    exact (matched_of_agreeBunch agreed).flip_of fun e _ d hd => ((parts d hd).symm e).mpr

theorem Lawful.bunch (parts : ∀ d ∈ ds, d.Lawful) : (bunch ds).Lawful where
  symm e := by cases e <;> simp [agree, agreeBunch_symm parts]
  trans e f first second := by
    cases e with
    | bunch es =>
        cases f with
        | bunch fs =>
            simp only [agree] at first second ⊢
            rw [agreeBunch_iff parts]
            exact (matched_of_agreeBunch first).trans_of (matched_of_agreeBunch second)
              fun d hd e f => (parts d hd).trans e f
        | _ => simp [agree] at second
    | _ => simp [agree] at first

/-- A digest without parts agrees with itself only, both ways round. -/
theorem Lawful.atom (left : ∀ e, d.agree e = true ↔ d = e) (right : ∀ e, e.agree d = true ↔ e = d) :
    d.Lawful where
  symm e := (left e).trans (eq_comm.trans (right e).symm)
  trans e f first second := by
    rw [← (left e).mp first] at second
    exact second

theorem lawful (d : Digest) : d.Lawful := by
  induction d using induct with
  | sequence ds ih => exact .sequence ih
  | bunch ds ih => exact .bunch ih
  | _ => exact .atom (fun e => by cases e <;> simp [agree]) fun e => by cases e <;> simp [agree]

/-- Bunches agree exactly if their parts can be paired off. -/
theorem agree_bunch_iff :
    (bunch ds).agree (bunch es) = true ↔ Matched (fun d e => d.agree e = true) ds es := by
  rw [agree]
  exact agreeBunch_iff fun d _ => d.lawful

end Digest

end ClientRegistry
